import Rehost.Proofs.Compilation
import Rehost.Proofs.Decoding
import Rehost.Proofs.Linking

/-!
# Instructions that have an encoding

The register and the memory operand of a ModRM byte can be written whatever they are, except that a REX byte excludes
`ah` to `bh` (`withRm_of_plain`). So an operand in memory can be replaced by another of its width as long as that needs
no REX byte beside such a register (`encodable_set`). No instruction takes more than fifteen bytes (`length_alone_le`).
-/

namespace Rehost.Host

open Encoding

namespace Encoding

/-! ### ModRM -/

theorem rexFor_of_low (rex : Rex) {registers : List RegOperand} (low : ∀ r ∈ registers, r.high = false) :
    ∃ found, rexFor rex registers = .ok found := by
  have none : registers.any (·.high) = false := by
    rw [List.any_eq_false]
    intro r member
    simp [low r member]
  unfold rexFor
  split
  · exact ⟨_, rfl⟩
  · rw [if_neg (by simp [none])]
    exact ⟨_, rfl⟩

/-- An address that has an encoding. -/
structure Writable (m : Mem) : Prop where
  scale : ∃ code, scaleCode m = .ok code
  index : m.index ≠ some .rsp

theorem writable_based {m : Mem} (plain : m.index = none) : Writable m :=
  ⟨⟨0, by simp [scaleCode, plain]⟩, by simp [plain]⟩

theorem memField_of_writable {m : Mem} (writable : Writable m) (reg : BitVec 3) :
    ∃ bytes, memField reg m = .ok bytes := by
  obtain ⟨scale, scaled⟩ := writable.scale
  simp only [memField, scaled, bind, Except.bind, if_neg writable.index]
  split <;> exact ⟨_, rfl⟩

/-- What can be named beside anything. -/
def Rm.Plain : Rm → Prop
  | reg r => r.high = false
  | mem m => Writable m

def RegField.Plain : RegField → Prop
  | digit _ => True
  | reg r => r.high = false

theorem registerCode_of_low {r : RegOperand} (low : r.high = false) : registerCode r = .ok r.reg.low := by
  simp [registerCode, low]

theorem RegField.eq_of_mem_byteRegisters {r s : RegOperand} (member : s ∈ (RegField.reg r).byteRegisters) :
    s = r := by
  simp only [byteRegisters] at member
  split at member
  · exact List.mem_singleton.mp member
  · cases member

theorem RegField.Plain.low {reg : RegField} (plain : reg.Plain) : ∀ r ∈ reg.byteRegisters, r.high = false := by
  cases reg with
  | digit code => exact fun r member => (List.not_mem_nil member).elim
  | reg r =>
    intro s member
    rw [eq_of_mem_byteRegisters member]
    exact plain

theorem Rm.Plain.low {rm : Rm} (plain : rm.Plain) : ∀ r ∈ rm.byteRegisters, r.high = false := by
  cases rm with
  | mem m => exact fun r member => (List.not_mem_nil member).elim
  | reg r =>
    intro s member
    rw [RegField.eq_of_mem_byteRegisters member]
    exact plain

theorem withRm_of_plain (width : Option Width) (opcode : Byte) {reg : RegField} {rm : Rm} (immediate : List Byte)
    (regPlain : reg.Plain) (rmPlain : rm.Plain) : ∃ fields, withRm width opcode reg rm immediate = .ok fields := by
  obtain ⟨code, coded⟩ : ∃ code, reg.code = .ok code := by
    cases reg with
    | digit code => exact ⟨code, rfl⟩
    | reg r => exact ⟨_, registerCode_of_low regPlain⟩
  obtain ⟨operand, filled⟩ : ∃ operand, rm.field code = .ok operand := by
    cases rm with
    | mem m => exact memField_of_writable rmPlain code
    | reg r =>
      exact ⟨[modrm 0b11 code r.reg.low], by simp [Rm.field, registerCode_of_low rmPlain, bind, Except.bind]; rfl⟩
  obtain ⟨rex, chosen⟩ := rexFor_of_low
    { w := width = some .b64, r := reg.extended, x := rm.indexExtended, b := rm.baseExtended }
    (fun r member => (List.mem_append.mp member).elim (regPlain.low r) (rmPlain.low r))
  simp only [withRm, coded, chosen, filled, bind, Except.bind]
  exact ⟨_, rfl⟩

/-! ### Another operand in memory -/

section
variable {one two : Mem} (width : two.width = one.width) (based : two.index = none)

/-- Whether a register can be named beside an address: all but `ah` to `bh` can, and those beside one without a REX
byte. -/
def Beside (two : Mem) (r : RegOperand) : Prop := r.high = true → two.base.any Reg.extended = false

include based

theorem withRm_replaced {operands : Option Width} {opcode : Byte} {reg : RegField} {immediate : List Byte}
    {fields : Fields} (beside : ∀ r ∈ reg.byteRegisters, Beside two r)
    (written : withRm operands opcode reg (.mem one) immediate = .ok fields) :
    ∃ fields, withRm operands opcode reg (.mem two) immediate = .ok fields := by
  obtain ⟨code, coded, written⟩ := ok_of_bind written
  obtain ⟨rex, chosen, _⟩ := ok_of_bind written
  obtain ⟨operand, filled⟩ : ∃ operand, (Rm.mem two).field code = .ok operand :=
    memField_of_writable (writable_based based) code
  obtain ⟨rex', chosen'⟩ : ∃ found,
      rexFor ⟨operands = some .b64, reg.extended, (Rm.mem two).indexExtended, (Rm.mem two).baseExtended⟩
        (reg.byteRegisters ++ (Rm.mem two).byteRegisters) = .ok found := by
    by_cases low : ∀ r ∈ reg.byteRegisters, r.high = false
    · apply rexFor_of_low
      intro r member
      exact low r (by simpa [Rm.byteRegisters] using member)
    · -- The second byte of a register is named, so the first operand has no REX byte, and neither has the other.
      obtain ⟨r, member, high⟩ : ∃ r ∈ reg.byteRegisters, r.high = true := by
        simpa using low
      have noBase : two.base.any Reg.extended = false := beside r member high
      have named : (reg.byteRegisters ++ (Rm.mem one).byteRegisters).any (·.high) = true :=
        List.any_eq_true.mpr ⟨r, List.mem_append_left _ member, high⟩
      unfold rexFor at chosen ⊢
      rw [if_pos named] at chosen
      split at chosen
      next bare =>
        obtain ⟨empty, unforced⟩ := bare
        rw [Rex.mk.injEq] at empty
        refine ⟨none, if_pos ⟨?_, unforced⟩⟩
        simp [Rm.indexExtended, Rm.baseExtended, based, noBase, empty.1, empty.2.1]
      next => cases chosen
  simp only [withRm, coded, chosen', filled, bind, Except.bind]
  exact ⟨_, rfl⟩

theorem withRm_replaced_digit {operands : Option Width} {opcode : Byte} {digit : BitVec 3} {immediate : List Byte}
    {fields : Fields} (written : withRm operands opcode (.digit digit) (.mem one) immediate = .ok fields) :
    ∃ fields, withRm operands opcode (.digit digit) (.mem two) immediate = .ok fields :=
  withRm_replaced based (fun _ member => (List.not_mem_nil member).elim) written

theorem withRm_replaced_reg {operands : Option Width} {opcode : Byte} {r : RegOperand} {immediate : List Byte}
    {fields : Fields} (beside : Beside two r)
    (written : withRm operands opcode (.reg r) (.mem one) immediate = .ok fields) :
    ∃ fields, withRm operands opcode (.reg r) (.mem two) immediate = .ok fields := by
  refine withRm_replaced based (fun s member => ?_) written
  rw [RegField.eq_of_mem_byteRegisters member]
  exact beside

include width

/-- Beside a register of the same width. -/
theorem checked_replaced {opcode : Byte} {r : RegOperand} {fields : Fields} (beside : Beside two r)
    (written : (do checkWidths one.width r.width; withRm r.width opcode (.reg r) (.mem one) []) = .ok fields) :
    ∃ fields, (do checkWidths two.width r.width; withRm r.width opcode (.reg r) (.mem two) []) = .ok fields := by
  obtain ⟨_, checked, written⟩ := ok_of_bind written
  rw [width, checked]
  exact withRm_replaced_reg based beside written

theorem checked_replaced_source {opcode : Byte} {r : RegOperand} {fields : Fields} (beside : Beside two r)
    (written : (do checkWidths r.width one.width; withRm r.width opcode (.reg r) (.mem one) []) = .ok fields) :
    ∃ fields, (do checkWidths r.width two.width; withRm r.width opcode (.reg r) (.mem two) []) = .ok fields := by
  obtain ⟨_, checked, written⟩ := ok_of_bind written
  rw [width, checked]
  exact withRm_replaced_reg based beside written

theorem oneOperand_replaced {opcode : Opcode} {fields : Fields} (written : oneOperand opcode (.mem one) = .ok fields) :
    ∃ fields, oneOperand opcode (.mem two) = .ok fields := by
  have unaryReplaced {code : Byte} {digit : BitVec 3} (written : unary code digit (.mem one) = .ok fields) :
      ∃ fields, unary code digit (.mem two) = .ok fields := by
    simp only [unary, Rm.ofOperand?, Rm.width, width] at written ⊢
    exact withRm_replaced_digit based written
  have stackReplaced {named : BitVec 5} {code : Byte} {digit : BitVec 3}
      (written : stack named code digit (.mem one) = .ok fields) :
      ∃ fields, stack named code digit (.mem two) = .ok fields := by
    simp only [stack, width] at written ⊢
    split at written
    next whole =>
      rw [if_pos whole]
      exact withRm_replaced_digit based written
    next => cases written
  unfold oneOperand at written ⊢
  split at written
  · exact unaryReplaced written
  · exact unaryReplaced written
  · exact unaryReplaced written
  · exact unaryReplaced written
  · exact stackReplaced written
  · exact stackReplaced written
  · cases written
  · cases written

theorem arithmetic_replaced {digit : BitVec 3} {src : Operand} {fields : Fields}
    (beside : ∀ r, src = .reg r → Beside two r) (written : arithmetic digit (.mem one) src = .ok fields) :
    ∃ fields, arithmetic digit (.mem two) src = .ok fields := by
  cases src with
  | reg r => exact checked_replaced width based (beside r rfl) written
  | imm value declared =>
    obtain ⟨_, checked, written⟩ := ok_of_bind written
    have same : (Rm.mem two).width = (Rm.mem one).width := width
    simp only [arithmetic, Rm.ofOperand?]
    rw [show checkImmediate value (Rm.mem two).width = .ok () from same ▸ checked]
    simp only [bind, Except.bind]
    split at written
    next byte =>
      rw [if_pos (same.trans byte), same]
      exact withRm_replaced_digit based written
    next wider =>
      rw [if_neg (same ▸ wider), same]
      split at written
      next short =>
        rw [if_pos short]
        exact withRm_replaced_digit based written
      next long =>
        rw [if_neg long]
        exact withRm_replaced_digit based written
  | mem m => cases written
  | label l => cases written

theorem test_replaced {src : Operand} {fields : Fields} (beside : ∀ r, src = .reg r → Beside two r)
    (written : test (.mem one) src = .ok fields) : ∃ fields, test (.mem two) src = .ok fields := by
  cases src with
  | reg r => exact checked_replaced width based (beside r rfl) written
  | imm value declared =>
    obtain ⟨_, checked, written⟩ := ok_of_bind written
    simp only [test, Rm.ofOperand?, Rm.width, width] at checked written ⊢
    rw [checked]
    exact withRm_replaced_digit based written
  | mem m => cases written
  | label l => cases written

theorem move_replaced {src : Operand} {fields : Fields} (beside : ∀ r, src = .reg r → Beside two r)
    (written : move (.mem one) src = .ok fields) : ∃ fields, move (.mem two) src = .ok fields := by
  cases src with
  | reg r => exact checked_replaced width based (beside r rfl) written
  | imm value declared =>
    obtain ⟨_, checked, written⟩ := ok_of_bind written
    simp only [move, Rm.ofOperand?, width] at checked written ⊢
    rw [checked]
    exact withRm_replaced_digit based written
  | mem m => cases written
  | label l => cases written

theorem exchange_replaced {src : Operand} {fields : Fields} (beside : ∀ r, src = .reg r → Beside two r)
    (written : exchange (.mem one) src = .ok fields) : ∃ fields, exchange (.mem two) src = .ok fields := by
  cases src with
  | reg r => exact checked_replaced width based (beside r rfl) written
  | imm value declared => cases written
  | mem m => cases written
  | label l => cases written

theorem shift_replaced {digit : BitVec 3} {count : Operand} {fields : Fields}
    (written : shift digit (.mem one) count = .ok fields) : ∃ fields, shift digit (.mem two) count = .ok fields := by
  simp only [shift, Rm.ofOperand?, Rm.width, width] at written ⊢
  cases count with
  | imm value declared =>
    simp only at written ⊢
    split at written
    next single =>
      rw [if_pos single]
      exact withRm_replaced_digit based written
    next several =>
      rw [if_neg several]
      split at written
      next small =>
        rw [if_pos small]
        exact withRm_replaced_digit based written
      next => cases written
  | reg r =>
    simp only at written ⊢
    split at written
    next named =>
      rw [if_pos named]
      exact withRm_replaced_digit based written
    next => cases written
  | mem m => cases written
  | label l => cases written

/-- The destination replaced. -/
theorem twoOperands_replaced {opcode : Opcode} {src : Operand} {fields : Fields}
    (beside : ∀ r, src = .reg r → Beside two r) (written : twoOperands opcode (.mem one) src = .ok fields) :
    ∃ fields, twoOperands opcode (.mem two) src = .ok fields := by
  unfold twoOperands at written ⊢
  split at written
  next operation =>
    split at written
    · exact arithmetic_replaced width based beside written
    · exact shift_replaced width based written
    · split at written
      · exact test_replaced width based beside written
      · exact move_replaced width based beside written
      · cases written
      · exact exchange_replaced width based beside written
      · cases written
  next => cases written

/-- The source replaced. -/
theorem twoOperands_replaced_source {opcode : Opcode} {dst : Operand} {fields : Fields}
    (beside : ∀ r, dst = .reg r → Beside two r) (written : twoOperands opcode dst (.mem one) = .ok fields) :
    ∃ fields, twoOperands opcode dst (.mem two) = .ok fields := by
  -- Only a register goes with a source in memory.
  cases dst with
  | reg r =>
    have free := beside r rfl
    unfold twoOperands at written ⊢
    split at written
    next operation =>
      split at written
      · exact checked_replaced_source width based free written
      · cases written
      · split at written
        · exact checked_replaced_source width based free written
        · exact checked_replaced_source width based free written
        · simp only [loadAddress] at written ⊢
          split at written
          · cases written
          next wider =>
            rw [if_neg wider]
            exact withRm_replaced_reg based free written
        · exact checked_replaced_source width based free written
        · cases written
    next => cases written
  | _ =>
    unfold twoOperands at written
    split at written
    · split at written
      · cases written
      · cases written
      · split at written <;> cases written
    · cases written

end

/-! ### Operands that always have an encoding -/

section
variable {dst : Operand} {rm : Rm} (found : Rm.ofOperand? dst = some rm) (plain : rm.Plain)

theorem withReg_of_low (opcode : BitVec 5) {r : RegOperand} (low : r.high = false) (immediate : List Byte) :
    ∃ fields, withReg opcode r immediate = .ok fields := by
  obtain ⟨rex, chosen⟩ :=
    rexFor_of_low ⟨r.width = .b64, false, false, r.reg.extended⟩ (List.forall_mem_singleton.mpr low)
  simp only [withReg, registerCode_of_low low, chosen, bind, Except.bind]
  exact ⟨_, rfl⟩

include plain

theorem checked_of_plain {r : RegOperand} (low : r.high = false) (same : rm.width = r.width) (opcode : Byte) :
    ∃ fields, (do checkWidths rm.width r.width; withRm r.width opcode (.reg r) rm []) = .ok fields := by
  rw [checkWidths, if_pos same]
  exact withRm_of_plain _ _ _ low plain

include found

theorem arithmetic_immediate_of_plain (digit : BitVec 3) {value : Word} (fits : immediateFits value rm.width = true)
    (declared : Width) : ∃ fields, arithmetic digit dst (.imm value declared) = .ok fields := by
  simp only [arithmetic, found, checkImmediate, if_pos fits, bind, Except.bind]
  split
  · exact withRm_of_plain _ _ _ trivial plain
  · split
    · exact withRm_of_plain _ _ _ trivial plain
    · exact withRm_of_plain _ _ _ trivial plain

end

/-- Any value can be moved to a whole register. -/
theorem move_full (r : Reg) (value : Word) (declared : Width) :
    ∃ fields, move (.full r) (.imm value declared) = .ok fields := by
  have low : (⟨r, .b64, false⟩ : RegOperand).high = false := rfl
  simp only [move, Operand.full, Rm.ofOperand?]
  split
  next => exact withReg_of_low _ low _
  next narrow =>
    have fits : immediateFits value .b64 = true := by simpa [immediateFits] using narrow
    have plain : (Rm.reg ⟨r, .b64, false⟩).Plain := low
    have digit : (RegField.digit 0).Plain := trivial
    rw [checkImmediate, if_pos fits]
    exact withRm_of_plain (some .b64) 0xc7 (immediateBytes value .b64) digit plain

theorem move_half (r : Reg) {value : Word} (fits : immediateFits value .b32 = true) (declared : Width) :
    ∃ fields, move (.half r) (.imm value declared) = .ok fields := by
  have low : (⟨r, .b32, false⟩ : RegOperand).high = false := rfl
  simp only [move, Operand.half, Rm.ofOperand?, checkImmediate, if_pos fits]
  exact withReg_of_low _ low _

/-! ### Lengths -/

theorem short_of_withRm {width : Option Width} {opcode : Byte} {reg : RegField} {rm : Rm} {fields : Fields}
    (written : withRm width opcode reg rm [] = .ok fields) (lead : Prefix) : (fields.after lead).length ≤ 15 := by
  obtain ⟨only, same, code, readBack⟩ := readBack_of_withRm written lead
  have small : fields.operand.length + fields.immediate.length ≤ 10 := by
    rw [same]
    exact Nat.le_trans readBack.size (by decide)
  exact (length_bytes { fields with lead := leadByte lead } only small).2

theorem short_of_oneOperand {opcode : Opcode} {operand : Operand} {fields : Fields}
    (written : oneOperand opcode operand = .ok fields) (lead : Prefix) : (fields.after lead).length ≤ 15 := by
  have shortUnary {code : Byte} {digit : BitVec 3} (written : unary code digit operand = .ok fields) :
      (fields.after lead).length ≤ 15 := by
    unfold unary at written
    split at written
    · exact short_of_withRm written lead
    · cases written
  have shortStack {named : BitVec 5} {code : Byte} {digit : BitVec 3}
      (written : stack named code digit operand = .ok fields) : (fields.after lead).length ≤ 15 := by
    unfold stack at written
    split at written
    · split at written
      · cases written
        exact (length_bytes _ rfl (by simp)).2
      · cases written
    · split at written
      · exact short_of_withRm written lead
      · cases written
    · cases written
  unfold oneOperand at written
  split at written
  · exact shortUnary written
  · exact shortUnary written
  · exact shortUnary written
  · exact shortUnary written
  · exact shortStack written
  · exact shortStack written
  · unfold call at written
    split at written
    · split at written
      · exact short_of_withRm written lead
      · cases written
    · cases written
  · cases written

/-- No code is longer than fifteen bytes. -/
theorem size_of_piece {i : Instr} {code : Piece} (written : piece i = .ok code) : code.size ≤ 15 := by
  have filled := filled_of_piece written
  obtain ⟨lead, opcode, operands⟩ := i
  have leading : (leadByte lead).toList.length ≤ 1 := by cases lead <;> decide
  cases branch : branchOpcode opcode with
  | some bytes =>
    have short : bytes.length ≤ 2 := by
      cases opcode <;> cases branch <;> decide
    simp only [piece, filled, branch] at written
    cases first : operands.first with
    | none => rw [first] at written; cases written
    | some operand =>
      rw [first] at written
      cases operand with
      | label l =>
        cases written
        simp only [Piece.size, List.length_append, Option.isSome_some, if_true]
        omega
      | _ => cases written
  | none =>
    simp only [piece, filled, branch] at written
    obtain nullary | unary | binary := arity_cases opcode
    · simp only [nullary] at filled
      obtain rfl := filled_zero filled
      cases written
      exact (faithful_noOperand nullary lead).short
    · simp only [unary] at filled
      obtain ⟨operand, rfl⟩ := filled_one filled
      obtain ⟨fields, encoded, done⟩ := ok_of_bind written
      cases done
      exact short_of_oneOperand encoded lead
    · simp only [binary] at filled
      obtain ⟨dst, src, rfl⟩ := filled_two filled
      obtain ⟨fields, encoded, done⟩ := ok_of_bind written
      cases done
      exact (faithful_twoOperands encoded lead).short

end Encoding

/-! ### Whole instructions -/

theorem length_alone_le (i : Instr) : i.alone.length ≤ 15 := by
  cases written : piece i with
  | error cause => simp [Instr.alone, written]
  | ok code =>
    rw [length_alone written]
    exact size_of_piece written

theorem codeSize_le (nodes : List Node) : codeSize nodes ≤ 15 * nodes.length := by
  induction nodes with
  | nil => exact Nat.le_refl 0
  | cons node rest ih =>
    have first : node.alone.length ≤ 15 := by
      cases node with
      | instr i => exact length_alone_le i
      | label l => exact Nat.zero_le 15
    rw [codeSize_cons, List.length_cons]
    omega

theorem encodable_one {lead : Prefix} {opcode : Opcode} {operand : Operand} (straight : branchOpcode opcode = none)
    (unary : arity opcode = 1) (written : ∃ fields, oneOperand opcode operand = .ok fields) :
    Instr.Encodable ⟨lead, opcode, { first := some operand }⟩ := by
  obtain ⟨fields, written⟩ := written
  simp only [Instr.Encodable, piece, unary, straight, written]
  exact ⟨_, rfl⟩

theorem encodable_two {lead : Prefix} {opcode : Opcode} {dst src : Operand} (straight : branchOpcode opcode = none)
    (binary : arity opcode = 2) (written : ∃ fields, twoOperands opcode dst src = .ok fields) :
    Instr.Encodable ⟨lead, opcode, { first := some dst, second := some src }⟩ := by
  obtain ⟨fields, written⟩ := written
  simp only [Instr.Encodable, piece, binary, straight, written]
  exact ⟨_, rfl⟩

/-- An operand in memory can be replaced by another of its width that can stand beside the registers named. -/
theorem encodable_set {lead : Prefix} {operation : Operation} {operands : Slots Operand} {position : Nat}
    {one two : Mem} (width : two.width = one.width) (based : two.index = none)
    (beside : ∀ r, .reg r ∈ operands.operands → Beside two r)
    (encodable : Instr.Encodable ⟨lead, .op operation, operands.set position (.mem one)⟩) :
    Instr.Encodable ⟨lead, .op operation, operands.set position (.mem two)⟩ := by
  obtain ⟨code, written⟩ := encodable
  have filled := filled_of_piece written
  have straight : branchOpcode (.op operation) = none := rfl
  obtain ⟨first, second, third, fourth⟩ := operands
  match position with
  | 0 =>
    obtain nullary | unary | binary := arity_cases (.op operation)
    · simp only [nullary] at filled
      cases filled_zero filled
    · simp only [unary] at filled
      obtain ⟨operand, same⟩ := filled_one filled
      cases same
      obtain ⟨fields, written⟩ := oneOperand_of_piece straight written
      exact encodable_one straight unary (oneOperand_replaced width based written)
    · simp only [binary] at filled
      obtain ⟨dst, src, same⟩ := filled_two filled
      cases same
      obtain ⟨fields, written⟩ := twoOperands_of_piece straight written
      refine encodable_two straight binary (twoOperands_replaced width based (fun r isReg => beside r ?_) written)
      simp [Slots.operands, Slots.toList, isReg]
  | 1 =>
    obtain nullary | unary | binary := arity_cases (.op operation)
    · simp only [nullary] at filled
      cases filled_zero filled
    · simp only [unary] at filled
      obtain ⟨operand, same⟩ := filled_one filled
      cases same
    · simp only [binary] at filled
      obtain ⟨dst, src, same⟩ := filled_two filled
      cases same
      obtain ⟨fields, written⟩ := twoOperands_of_piece straight written
      refine encodable_two straight binary
        (twoOperands_replaced_source width based (fun r isReg => beside r ?_) written)
      simp [Slots.operands, Slots.toList, isReg]
  | 2 => cases (formed_of_piece written).narrow.1
  | 3 => cases (formed_of_piece written).narrow.2
  | _ + 4 => exact ⟨code, written⟩

end Rehost.Host
