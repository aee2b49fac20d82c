import Mathlib.Logic.Relation
import Rehost.Proofs.Operate

/-!
# What a normal instruction forgets

An instruction and its normal form differ by details that do not matter, one at a time (`forgets_normal`):
the width that an immediate is declared with, its bits beyond the operand, the scale of an absent index, the
width of memory that is only addressed, and the order of a register and memory where both are treated alike.
None of them changes what the machine does (`step_of_forgets`), so neither does taking the normal form
(`step_normal`).
-/

namespace Rehost

namespace Host.Instr

/-- An operation with two operands. -/
def pair (lead : Prefix) (operation : Operation) (dst src : Operand) : Instr :=
  { lead, opcode := .op operation, operands := { first := some dst, second := some src } }

/-- One detail changed that does not matter. -/
inductive Forgets : Instr → Instr → Prop
  | declaration (lead operation dst value w v) :
    Forgets (pair lead operation dst (.imm value w)) (pair lead operation dst (.imm value v))
  | beyond (lead) {operation} (noShift : ∀ f, operation.action ≠ .shift f) {dst : Operand} {w : Width}
      (width : dst.width? = some w) (value declared) :
    Forgets (pair lead operation dst (.imm value declared))
      (pair lead operation dst (.imm ((value.setWidth w.bits).signExtend 64) declared))
  | scaleOfDestination (lead opcode second scale) {m : Mem} (noIndex : m.index = none) :
    Forgets { lead, opcode, operands := { first := some (.mem m), second } }
      { lead, opcode, operands := { first := some (.mem { m with scale }), second } }
  | scaleOfSource (lead operation dst scale) {m : Mem} (noIndex : m.index = none) :
    Forgets (pair lead operation dst (.mem m)) (pair lead operation dst (.mem { m with scale }))
  | addressed (lead dst m w) :
    Forgets (pair lead .lea dst (.mem m)) (pair lead .lea dst (.mem { m with width := w }))
  | order (lead) {operation} (alike : operation = .test ∨ operation = .xchg) (r m) :
    Forgets (pair lead operation (.reg r) (.mem m)) (pair lead operation (.mem m) (.reg r))

end Host.Instr

open Host Host.Instr

/-! ### No effect -/

theorem address_scale {m : Mem} (noIndex : m.index = none) (scale : Nat) (regs : RegFile) :
    { m with scale }.address regs = m.address regs := by
  simp [Mem.address, noIndex]

namespace Machine

namespace Target

theorem ofOperand?_imm (contextAddress : Word) (regs : RegFile) (value : Word) (w : Width) :
    ofOperand? contextAddress regs (.imm value w) = some (.value value) := rfl

theorem ofOperand?_scale {m : Mem} (noIndex : m.index = none) (scale : Nat) (contextAddress : Word) (regs : RegFile) :
    ofOperand? contextAddress regs (.mem { m with scale }) = ofOperand? contextAddress regs (.mem m) := by
  simp only [ofOperand?, address_scale noIndex]

theorem get?_extended (value : Word) (w : Width) (s : State) :
    (Target.value ((value.setWidth w.bits).signExtend 64)).get? s w = (Target.value value).get? s w := by
  have same : ((value.setWidth w.bits).signExtend 64).setWidth w.bits = value.setWidth w.bits := by
    ext k small
    have bounded : k < 64 := Nat.lt_of_lt_of_le small w.bits_le
    simp [BitVec.getElem_signExtend, bounded, small]
  simp only [get?, same]

theorem width?_ofOperand? {contextAddress : Word} {regs : RegFile} {operand : Operand} {target : Target}
    (found : ofOperand? contextAddress regs operand = some target) : target.width? = operand.width? := by
  cases operand with
  | reg r => cases found; rfl
  | imm v w => cases found; rfl
  | label l => cases found
  | mem m =>
    obtain ⟨place, -, rfl⟩ := Option.map_eq_some_iff.mp found
    rfl

end Target

section
variable {σ : Type} {latitude : Latitude} {contextAddress : Word}

theorem operate_declaration (operation : Operation) (dst : Operand) (value : Word) (w v : Width) (s : State) :
    operate latitude contextAddress operation { first := some dst, second := some (.imm value w) } s =
      operate latitude contextAddress operation { first := some dst, second := some (.imm value v) } s := by
  unfold operate
  cases operation.action with
  | address => cases dst <;> rfl
  | _ => rfl

theorem operate_beyond {operation : Operation} (noShift : ∀ f, operation.action ≠ .shift f) {dst : Operand} {w : Width}
    (width : dst.width? = some w) (value : Word) (declared : Width) (s : State) :
    operate latitude contextAddress operation { first := some dst, second := some (.imm value declared) } s =
      operate latitude contextAddress operation
        { first := some dst, second := some (.imm ((value.setWidth w.bits).signExtend 64) declared) } s := by
  unfold operate
  cases found : Target.ofOperand? contextAddress s.regs dst with
  | none => cases action : operation.action <;> simp [found]
  | some target =>
    have width : target.width? = some w := (Target.width?_ofOperand? found).trans width
    have same := Target.get?_extended value w
    cases action : operation.action with
    | shift f => exact absurd action (noShift f)
    | address => cases dst <;> rfl
    | idle => rfl
    | unary f => rfl
    | move => simp [found, Target.ofOperand?_imm, move, width, same]
    | swap => simp [found, Target.ofOperand?_imm, swap, Target.put?]
    | binary f => simp [found, Target.ofOperand?_imm, binary, width, same]
    | compare f => simp [found, Target.ofOperand?_imm, compare, width, same, Operand.isMem]

theorem operate_scaleOfSource (operation : Operation) (dst : Operand) {m : Mem} (noIndex : m.index = none) (scale : Nat)
    (s : State) :
    operate latitude contextAddress operation { first := some dst, second := some (.mem m) } s =
      operate latitude contextAddress operation { first := some dst, second := some (.mem { m with scale }) } s := by
  unfold operate
  cases operation.action with
  | address => cases dst <;> simp [address_scale noIndex]
  | _ => simp [Target.ofOperand?_scale noIndex, count?, Operand.isMem]

theorem operate_scaleOfDestination (operation : Operation) (second : Option Operand) {m : Mem}
    (noIndex : m.index = none) (scale : Nat) (s : State) :
    operate latitude contextAddress operation { first := some (.mem m), second } s =
      operate latitude contextAddress operation { first := some (.mem { m with scale }), second } s := by
  unfold operate
  cases second with
  | none => cases operation.action <;> simp [Target.ofOperand?_scale noIndex]
  | some src => cases operation.action <;> simp [Target.ofOperand?_scale noIndex]

/-- An operand that is a register and one in memory of its width may change places in a test. -/
theorem operate_test_order (r : RegOperand) (m : Mem) (s : State) :
    operate latitude contextAddress .test { first := some (.reg r), second := some (.mem m) } s =
      operate latitude contextAddress .test { first := some (.mem m), second := some (.reg r) } s := by
  simp only [operate, Operation.action, Target.ofOperand?]
  cases Place.ofAddress? contextAddress (m.address s.regs) with
  | none => rfl
  | some place =>
    by_cases same : r.width = m.width
    · obtain ⟨reg, width, high⟩ := r
      obtain rfl : width = m.width := same
      simp [compare, Target.width?, Target.get?, Operation.bitwise, BitVec.and_comm, Operand.isMem, Latitude.comparing]
    · have other : ¬m.width = r.width := fun equal => same equal.symm
      simp [compare, Target.width?, Target.get?, same, other]

theorem operate_xchg_order (r : RegOperand) (m : Mem) (s : State) :
    operate latitude contextAddress .xchg { first := some (.reg r), second := some (.mem m) } s =
      operate latitude contextAddress .xchg { first := some (.mem m), second := some (.reg r) } s := by
  simp only [operate, Operation.action, Target.ofOperand?]
  cases Place.ofAddress? contextAddress (m.address s.regs) with
  | none => rfl
  | some place =>
    by_cases same : r.width = m.width
    · obtain ⟨reg, width, high⟩ := r
      obtain rfl : width = m.width := same
      cases place <;> simp [swap, Target.width?, Target.get?, Target.put?, State.load, State.store]
    · have other : ¬m.width = r.width := fun equal => same equal.symm
      simp [swap, Target.width?, Target.get?, same, other]

/-- One change that does not matter leaves a step as it is. -/
theorem step_of_forgets {env : Env σ} {i j : Instr} (forgets : i.Forgets j) (world : σ)
    (s : State) : step env i world s = step env j world s := by
  cases forgets with
  | declaration lead operation dst value w v => simp only [step, pair, operate_declaration operation dst value w v]
  | beyond lead noShift width value declared => simp only [step, pair, operate_beyond noShift width value declared]
  | scaleOfSource lead operation dst scale noIndex =>
    simp only [step, pair, operate_scaleOfSource operation dst noIndex scale]
  | addressed lead dst m w => cases dst <;> rfl
  | order lead alike r m =>
    obtain rfl | rfl := alike
    · simp only [step, pair, operate_test_order]
    · simp only [step, pair, operate_xchg_order]
  | scaleOfDestination lead opcode second scale noIndex =>
    cases opcode with
    | op operation => simp only [step, operate_scaleOfDestination operation second noIndex scale]
    | push => cases second <;> simp [step, stackTarget?, Target.ofOperand?_scale noIndex]
    | _ => cases second <;> rfl

end

end Machine

/-! ### Normal forms -/

namespace Host.Instr

open Relation

theorem normal_cases (m : Mem) : m.normal = m ∨ m.index = none ∧ m.normal = { m with scale := 1 } := by
  unfold Mem.normal
  split
  next noIndex => exact .inr ⟨Option.isNone_iff_eq_none.mp noIndex, rfl⟩
  next => exact .inl rfl

theorem scale_destination (lead : Prefix) (opcode : Opcode) (dst : Operand) (second : Option Operand) :
    ReflTransGen Forgets { lead, opcode, operands := { first := some dst, second } }
      { lead, opcode, operands := { first := some dst.normal, second } } := by
  cases dst with
  | mem m =>
    rw [Operand.normal]
    obtain same | ⟨noIndex, same⟩ := normal_cases m
    · rw [same]
    · rw [same]
      exact .single (.scaleOfDestination lead opcode second 1 noIndex)
  | _ => exact .refl

theorem scale_source (lead : Prefix) (operation : Operation) (dst src : Operand) :
    ReflTransGen Forgets (pair lead operation dst src) (pair lead operation dst src.normal) := by
  cases src with
  | mem m =>
    rw [Operand.normal]
    obtain same | ⟨noIndex, same⟩ := normal_cases m
    · rw [same]
    · rw [same]
      exact .single (.scaleOfSource lead operation dst 1 noIndex)
  | _ => exact .refl

/-- Only details are lost between two operands and their normal form. -/
theorem forgets_normalPair {operation : Operation} {dst src : Operand}
    (width : ∀ value w, src = .imm value w → ∃ w, dst.width? = some w) (lead : Prefix) :
    ReflTransGen Forgets (pair lead operation dst src)
      (pair lead operation (normalPair operation dst src).1 (normalPair operation dst src).2) := by
  have destination := scale_destination lead (.op operation)
  have source := scale_source lead operation
  unfold normalPair
  split
  next r m action =>
    obtain rfl := Machine.eq_lea_of_action action
    exact (source (.reg r) (.mem m)).tail (.addressed lead (.reg r) m.normal r.width)
  next r m action =>
    exact (source (.reg r) (.mem m)).tail (.order lead (.inr (Machine.eq_xchg_of_action action)) r m.normal)
  next _ value declared _ =>
    exact (destination _ _).tail (.declaration lead operation _ value declared .b8)
  next value declared noShift =>
    obtain ⟨w, found⟩ := width value declared rfl
    rw [found, Option.getD_some, Operand.extended]
    refine ReflTransGen.trans ?_ (destination _ _)
    exact .tail (.single (.beyond lead noShift found value declared)) (.declaration ..)
  next r m _ _ =>
    split
    next test => exact (source (.reg r) (.mem m)).tail (.order lead (.inl test) r m.normal)
    next => exact source (.reg r) (.mem m)
  next => exact (destination _ _).trans (source _ _)

theorem width_of_formed {operation : Operation} {dst src : Operand}
    (formed : Formed operation { first := some dst, second := some src }) : ∃ w, dst.width? = some w := by
  unfold Formed at formed
  split at formed
  next => cases formed
  next =>
    obtain ⟨r, m, same⟩ := formed
    cases same
    exact ⟨r.width, rfl⟩
  next =>
    obtain ⟨_, _, same, -⟩ := formed
    cases same
  next =>
    obtain ⟨_, _, w, same, width, -⟩ := formed
    cases same
    exact ⟨w, width⟩
  next =>
    obtain ⟨_, _, w, same, paired, -⟩ := formed
    cases same
    exact ⟨w, paired.destination⟩
  next =>
    obtain ⟨_, _, w, same, paired⟩ := formed
    cases same
    exact ⟨w, paired.destination⟩

/-- Only details are lost between an instruction that can be encoded and its normal form. -/
theorem forgets_normal {i : Instr} {code : Encoding.Piece} (encoded : Encoding.piece i = .ok code) :
    ReflTransGen Forgets i i.normal := by
  obtain ⟨lead, opcode, operands⟩ := i
  have filled := Encoding.filled_of_piece encoded
  obtain nullary | unary | binary := Encoding.arity_cases opcode
  · simp only [nullary] at filled
    obtain rfl := Encoding.filled_zero filled
    cases opcode <;> exact .refl
  · simp only [unary] at filled
    obtain ⟨operand, rfl⟩ := Encoding.filled_one filled
    have kept := scale_destination lead opcode operand none
    cases opcode <;> exact kept
  · simp only [binary] at filled
    obtain ⟨dst, src, rfl⟩ := Encoding.filled_two filled
    cases opcode with
    | op operation => exact forgets_normalPair (fun _ _ _ => width_of_formed (formed_of_piece encoded)) lead
    | _ => cases binary

end Host.Instr

namespace Machine

variable {σ : Type} {env : Env σ}

theorem step_of_forgotten {i j : Instr} (forgotten : Relation.ReflTransGen Forgets i j)
    (world : σ) (s : State) : step env j world s = step env i world s := by
  induction forgotten with
  | refl => rfl
  | tail _ last same => rw [← step_of_forgets last, same]

/-- An instruction that can be encoded has the effect of its normal form. -/
theorem step_normal {i : Instr} {code : Encoding.Piece} (encoded : Encoding.piece i = .ok code) (world : σ)
    (s : State) : step env i.normal world s = step env i world s :=
  step_of_forgotten (forgets_normal encoded) world s

end Machine

end Rehost
