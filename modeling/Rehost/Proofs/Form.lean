import Rehost.Host.Encoding.Normal
import Rehost.Host.Encoding.Operations

/-!
# Forms of instructions

What an instruction looks like that can be encoded at all: as many operands as its operation takes, of
one width, and at most one of them in memory (`formed_of_piece`). Operands of other forms never reach
the machine.
-/

namespace Rehost

/-- A computation that goes on has succeeded so far. -/
theorem ok_of_bind {ε α β : Type} {first : Except ε α} {next : α → Except ε β} {b : β}
    (ended : first >>= next = .ok b) : ∃ a, first = .ok a ∧ next a = .ok b := by
  cases first with
  | error e => cases ended
  | ok a => exact ⟨a, rfl, ended⟩

/-- A computation that fails does so at once or later. -/
theorem error_of_bind {ε α β : Type} {first : Except ε α} {next : α → Except ε β} {error : ε}
    (failed : first >>= next = .error error) :
    first = .error error ∨ ∃ a, first = .ok a ∧ next a = .error error := by
  cases first with
  | error e =>
    cases failed
    exact .inl rfl
  | ok a => exact .inr ⟨a, rfl, failed⟩

theorem exists_of_isOk {ε α : Type} {result : Except ε α} (accepted : result.isOk = true) : ∃ a, result = .ok a := by
  cases result with
  | ok a => exact ⟨a, rfl⟩
  | error => cases accepted

namespace Host

namespace Operand

/-- Whether an operand can be read at a width; an immediate can at any. -/
def Fits (w : Width) : Operand → Prop
  | reg r => r.width = w
  | imm _ _ => True
  | mem m => m.width = w
  | label _ => False

/-- Whether an operand can be the count of a shift. -/
def IsCount : Operand → Prop
  | reg r => r = ⟨.rcx, .b8, false⟩
  | imm _ _ => True
  | mem _ => False
  | label _ => False

end Operand

/-- A destination of width `w` and a source that goes with it. -/
structure Paired (w : Width) (dst src : Operand) : Prop where
  destination : dst.width? = some w
  source : src.Fits w
  apart : ¬(dst.isMem ∧ src.isMem)

/-- Whether an operation can have these operands. -/
def Formed (operation : Operation) (operands : Slots Operand) : Prop :=
  match operation.action with
  | .idle => operands = {}
  | .address => ∃ r m, operands = { first := some (.reg r), second := some (.mem m) }
  | .unary _ => ∃ dst w, operands = { first := some dst } ∧ dst.width? = some w
  | .shift _ => ∃ dst count w, operands = { first := some dst, second := some count } ∧
      dst.width? = some w ∧ count.IsCount
  | .swap => ∃ dst src w, operands = { first := some dst, second := some src } ∧
      Paired w dst src ∧ src.width? = some w
  | _ => ∃ dst src w, operands = { first := some dst, second := some src } ∧ Paired w dst src

namespace Encoding

/-! ### Operand combinations -/

theorem width?_of_rm {operand : Operand} {rm : Rm} (found : Rm.ofOperand? operand = some rm) :
    operand.width? = some rm.width := by
  cases operand with
  | reg r => cases found; rfl
  | mem m => cases found; rfl
  | imm v w => cases found
  | label l => cases found

theorem widths_of_check {dst src : Width} (checked : checkWidths dst src = .ok ()) : dst = src := by
  unfold checkWidths at checked
  split at checked
  · assumption
  · cases checked

theorem reg_of_rm {operand : Operand} {r : RegOperand} (found : Rm.ofOperand? operand = some (.reg r)) :
    operand = .reg r := by
  cases operand with
  | reg s => cases found; rfl
  | mem m => cases found
  | imm v w => cases found
  | label l => cases found

section
variable {dst : Operand} {rm : Rm} {r : RegOperand} {m : Mem} {fields : Fields}
  {next : Unit → Except Cause Fields}

theorem paired_reg (found : Rm.ofOperand? dst = some rm)
    (encoded : checkWidths rm.width r.width >>= next = .ok fields) : Paired r.width dst (.reg r) := by
  obtain ⟨_, checked, _⟩ := ok_of_bind encoded
  have same := widths_of_check checked
  exact ⟨by rw [width?_of_rm found, same], rfl, fun both => Bool.false_ne_true both.2⟩

theorem paired_mem (found : Rm.ofOperand? dst = some (.reg r))
    (encoded : checkWidths r.width m.width >>= next = .ok fields) : Paired r.width dst (.mem m) := by
  obtain ⟨_, checked, _⟩ := ok_of_bind encoded
  have same := widths_of_check checked
  have named := reg_of_rm found
  subst named
  exact ⟨rfl, same.symm, fun both => Bool.false_ne_true both.1⟩

theorem paired_imm (found : Rm.ofOperand? dst = some rm) (value : Word) (declared : Width) :
    Paired rm.width dst (.imm value declared) :=
  ⟨width?_of_rm found, trivial, fun both => Bool.false_ne_true both.2⟩

end

theorem paired_of_arithmetic {digit : BitVec 3} {dst src : Operand} {fields : Fields}
    (encoded : arithmetic digit dst src = .ok fields) : ∃ w, Paired w dst src := by
  simp only [arithmetic] at encoded
  split at encoded
  next found => exact ⟨_, paired_reg found encoded⟩
  next found => exact ⟨_, paired_mem found encoded⟩
  next found => exact ⟨_, paired_imm found _ _⟩
  next => cases encoded

theorem paired_of_test {dst src : Operand} {fields : Fields} (encoded : test dst src = .ok fields) :
    ∃ w, Paired w dst src := by
  simp only [test] at encoded
  split at encoded
  next found => exact ⟨_, paired_reg found encoded⟩
  next found => exact ⟨_, paired_mem found encoded⟩
  next found => exact ⟨_, paired_imm found _ _⟩
  next => cases encoded

theorem paired_of_move {dst src : Operand} {fields : Fields} (encoded : move dst src = .ok fields) :
    ∃ w, Paired w dst src := by
  simp only [move] at encoded
  split at encoded
  next found => exact ⟨_, paired_reg found encoded⟩
  next found => exact ⟨_, paired_mem found encoded⟩
  next found => exact ⟨_, paired_imm found _ _⟩
  next found => exact ⟨_, paired_imm found _ _⟩
  next => cases encoded

/-- Neither operand of an exchange is an immediate. -/
theorem paired_of_exchange {dst src : Operand} {fields : Fields}
    (encoded : exchange dst src = .ok fields) : ∃ w, Paired w dst src ∧ src.width? = some w := by
  simp only [exchange] at encoded
  split at encoded
  next found => exact ⟨_, paired_reg found encoded, rfl⟩
  next found =>
    have paired := paired_mem found encoded
    exact ⟨_, paired, congrArg some paired.source⟩
  next => cases encoded

theorem count_of_shift {digit : BitVec 3} {dst count : Operand} {fields : Fields}
    (encoded : shift digit dst count = .ok fields) : ∃ w, dst.width? = some w ∧ count.IsCount := by
  simp only [shift] at encoded
  split at encoded
  next => cases encoded
  next rm found =>
    refine ⟨rm.width, width?_of_rm found, ?_⟩
    cases count with
    | imm value declared => trivial
    | reg r =>
      simp only at encoded
      split at encoded
      · assumption
      · cases encoded
    | mem m => cases encoded
    | label l => cases encoded

theorem address_of_loadAddress {dst src : Operand} {fields : Fields}
    (encoded : loadAddress dst src = .ok fields) : ∃ r m, dst = .reg r ∧ src = .mem m := by
  unfold loadAddress at encoded
  split at encoded
  next r m => exact ⟨r, m, rfl, rfl⟩
  next => cases encoded

theorem width_of_unary {opcode : Byte} {digit : BitVec 3} {operand : Operand} {fields : Fields}
    (encoded : unary opcode digit operand = .ok fields) : ∃ w, operand.width? = some w := by
  unfold unary at encoded
  split at encoded
  next rm found => exact ⟨rm.width, width?_of_rm found⟩
  next => cases encoded

/-! ### Arities -/

theorem filled_zero {α : Type} {slots : Slots α} (filled : slots.filled 0 = true) : slots = {} := by
  obtain ⟨first, second, third, fourth⟩ := slots
  simp_all [Slots.filled, Slots.toList]

theorem filled_one {α : Type} {slots : Slots α} (filled : slots.filled 1 = true) :
    ∃ a, slots = { first := some a } := by
  obtain ⟨first, second, third, fourth⟩ := slots
  cases first with
  | none => simp [Slots.filled, Slots.toList] at filled
  | some a => exact ⟨a, by simp_all [Slots.filled, Slots.toList]⟩

theorem filled_two {α : Type} {slots : Slots α} (filled : slots.filled 2 = true) :
    ∃ a b, slots = { first := some a, second := some b } := by
  obtain ⟨first, second, third, fourth⟩ := slots
  cases first with
  | none => simp [Slots.filled, Slots.toList] at filled
  | some a =>
    cases second with
    | none => simp [Slots.filled, Slots.toList] at filled
    | some b => exact ⟨a, b, by simp_all [Slots.filled, Slots.toList]⟩

theorem arity_cases (opcode : Opcode) : arity opcode = 0 ∨ arity opcode = 1 ∨ arity opcode = 2 := by
  cases opcode with
  | op operation => cases operation <;> decide
  | _ => decide

theorem filled_of_piece {i : Instr} {code : Piece} (encoded : piece i = .ok code) :
    i.operands.filled (arity i.opcode) = true := by
  cases filled : i.operands.filled (arity i.opcode) with
  | true => rfl
  | false => simp [piece, filled, bind, Except.bind, throw, throwThe, MonadExceptOf.throw] at encoded

theorem oneOperand_of_piece {lead : Prefix} {opcode : Opcode} {operand : Operand} {code : Piece}
    (straight : branchOpcode opcode = none)
    (encoded : piece { lead, opcode, operands := { first := some operand } } = .ok code) :
    ∃ fields, oneOperand opcode operand = .ok fields := by
  have filled := filled_of_piece encoded
  simp only at filled
  simp only [piece, filled, straight] at encoded
  obtain ⟨fields, encoded, _⟩ := ok_of_bind encoded
  exact ⟨fields, encoded⟩

theorem twoOperands_of_piece {lead : Prefix} {opcode : Opcode} {dst src : Operand} {code : Piece}
    (straight : branchOpcode opcode = none)
    (encoded : piece { lead, opcode, operands := { first := some dst, second := some src } } = .ok code) :
    ∃ fields, twoOperands opcode dst src = .ok fields := by
  have filled := filled_of_piece encoded
  simp only at filled
  simp only [piece, filled, straight] at encoded
  obtain ⟨fields, encoded, _⟩ := ok_of_bind encoded
  exact ⟨fields, encoded⟩

end Encoding

open Encoding in
/-- An instruction that can be encoded has operands that its operation can have. -/
theorem formed_of_piece {lead : Prefix} {operation : Operation} {operands : Slots Operand} {code : Piece}
    (encoded : piece { lead, opcode := .op operation, operands } = .ok code) : Formed operation operands := by
  have filled := filled_of_piece encoded
  cases operation with
  | nop => exact filled_zero filled
  | not | neg | inc | dec =>
    obtain ⟨dst, rfl⟩ := filled_one filled
    obtain ⟨fields, encoded⟩ := oneOperand_of_piece rfl encoded
    obtain ⟨w, width⟩ := width_of_unary encoded
    exact ⟨dst, w, rfl, width⟩
  | add | or | adc | sbb | and | sub | xor | cmp =>
    obtain ⟨dst, src, rfl⟩ := filled_two filled
    obtain ⟨fields, encoded⟩ := twoOperands_of_piece rfl encoded
    obtain ⟨w, paired⟩ := paired_of_arithmetic encoded
    exact ⟨dst, src, w, rfl, paired⟩
  | test =>
    obtain ⟨dst, src, rfl⟩ := filled_two filled
    obtain ⟨fields, encoded⟩ := twoOperands_of_piece rfl encoded
    obtain ⟨w, paired⟩ := paired_of_test encoded
    exact ⟨dst, src, w, rfl, paired⟩
  | mov =>
    obtain ⟨dst, src, rfl⟩ := filled_two filled
    obtain ⟨fields, encoded⟩ := twoOperands_of_piece rfl encoded
    obtain ⟨w, paired⟩ := paired_of_move encoded
    exact ⟨dst, src, w, rfl, paired⟩
  | lea =>
    obtain ⟨dst, src, rfl⟩ := filled_two filled
    obtain ⟨fields, encoded⟩ := twoOperands_of_piece rfl encoded
    obtain ⟨r, m, rfl, rfl⟩ := address_of_loadAddress encoded
    exact ⟨r, m, rfl⟩
  | shl | shr | sar | rol | ror =>
    obtain ⟨dst, count, rfl⟩ := filled_two filled
    obtain ⟨fields, encoded⟩ := twoOperands_of_piece rfl encoded
    obtain ⟨w, width, isCount⟩ := count_of_shift encoded
    exact ⟨dst, count, w, rfl, width, isCount⟩
  | xchg =>
    obtain ⟨dst, src, rfl⟩ := filled_two filled
    obtain ⟨fields, encoded⟩ := twoOperands_of_piece rfl encoded
    obtain ⟨w, paired, width⟩ := paired_of_exchange encoded
    exact ⟨dst, src, w, rfl, paired, width⟩

end Host

end Rehost
