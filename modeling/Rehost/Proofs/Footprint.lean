import Rehost.Proofs.Selection
import Rehost.Usage

/-!
# What a footprint holds

A footprint is a union over instructions and operands, so a register or a flag is in it exactly if some
instruction brings it in (`mem_read`, `bit_flagsOut`). The register chosen for the context pointer is none
that the body names, and not the stack pointer (`Usage.Fit`).
-/

namespace Rehost

namespace Footprint

section
variable (view : Footprint → Prop) (splits : ∀ one two : Footprint, view (one.union two) ↔ view one ∨ view two)
include splits

/-- What holds of a union exactly if it holds of a part, holds of many parts exactly if of one. -/
theorem foldl_union_iff {α : Type} (part : α → Footprint) (items : List α) (start : Footprint) :
    view ((items.map part).foldl union start) ↔ view start ∨ ∃ item ∈ items, view (part item) := by
  induction items generalizing start with
  | nil => simp
  | cons item rest ih => simp [ih, splits, or_assoc]

theorem ofBody_iff (body : List Host.Instr) :
    view (ofBody body) ↔ view {} ∨ ∃ i ∈ body,
      view { flagsIn := i.opcode.effects.flagsRead, flagsOut := i.opcode.effects.flagsWritten } ∨
        ∃ operand ∈ i.operands.operands, view (ofOperand i.opcode.effects operand) := by
  simp only [ofBody, ofInstr, foldl_union_iff view splits]

end

/-! ### Registers -/

theorem mem_named {r : Reg} {named : Option Reg} :
    r ∈ named.elim RegSet.empty RegSet.singleton ↔ named = some r := by
  cases named <;> simp [eq_comm]

theorem mem_read_ofOperand (effects : Host.Effects) (operand : Host.Operand) (r : Reg) :
    r ∈ (ofOperand effects operand).read ↔ operand.Names r := by
  cases operand with
  | reg s => simp [ofOperand, Host.Operand.Names, eq_comm]
  | mem m => simp [ofOperand, Host.Operand.Names, mem_named]
  | imm v w => simp [ofOperand, Host.Operand.Names]
  | label l => simp [ofOperand, Host.Operand.Names]

theorem dirty_ofOperand (effects : Host.Effects) (operand : Host.Operand) :
    (ofOperand effects operand).dirty = (ofOperand effects operand).read := by
  cases operand <;> rfl

/-- A register is read exactly if some instruction names it. -/
theorem mem_read {body : List Host.Instr} {r : Reg} :
    r ∈ (ofBody body).read ↔ ∃ i ∈ body, ∃ operand ∈ i.operands.operands, operand.Names r := by
  have split := ofBody_iff (r ∈ ·.read) (fun _ _ => RegSet.mem_union) body
  simpa [mem_read_ofOperand] using split

theorem mem_dirty {body : List Host.Instr} {r : Reg} :
    r ∈ (ofBody body).dirty ↔ ∃ i ∈ body, ∃ operand ∈ i.operands.operands, operand.Names r := by
  have split := ofBody_iff (r ∈ ·.dirty) (fun _ _ => RegSet.mem_union) body
  simpa [dirty_ofOperand, mem_read_ofOperand] using split

/-! ### Flags and memory -/

theorem bit_flagsOut {body : List Host.Instr} {k : Nat} :
    (ofBody body).flagsOut.getLsbD k = true ↔ ∃ i ∈ body, i.opcode.effects.flagsWritten.getLsbD k = true := by
  have operands (effects : Host.Effects) (operand : Host.Operand) : (ofOperand effects operand).flagsOut = 0 := by
    cases operand <;> rfl
  have split := ofBody_iff (·.flagsOut.getLsbD k = true) (fun _ _ => by simp [union]) body
  simpa [operands] using split

theorem flagsOut_nil : (ofBody []).flagsOut = 0#64 := rfl

theorem flagsOut_cons (i : Host.Instr) (rest : List Host.Instr) :
    (ofBody (i :: rest)).flagsOut = i.opcode.effects.flagsWritten ||| (ofBody rest).flagsOut := by
  apply BitVec.eq_of_getLsbD_eq
  intro k _
  rw [BitVec.getLsbD_or, Bool.eq_iff_iff, Bool.or_eq_true, bit_flagsOut, bit_flagsOut]
  simp

theorem bit_flagsIn {body : List Host.Instr} {k : Nat} :
    (ofBody body).flagsIn.getLsbD k = true ↔ ∃ i ∈ body, i.opcode.effects.flagsRead.getLsbD k = true := by
  have operands (effects : Host.Effects) (operand : Host.Operand) : (ofOperand effects operand).flagsIn = 0 := by
    cases operand <;> rfl
  have split := ofBody_iff (·.flagsIn.getLsbD k = true) (fun _ _ => by simp [union]) body
  simpa [operands] using split

theorem touchesMemory_of_mem {body : List Host.Instr} {i : Host.Instr} {m : Host.Mem} (member : i ∈ body)
    (operand : .mem m ∈ i.operands.operands) (accesses : i.opcode.effects.accessesMemory = true) :
    (ofBody body).touchesMemory = true := by
  have split := ofBody_iff (·.touchesMemory = true) (fun _ _ => by simp [union]) body
  exact split.mpr (.inr ⟨i, member, .inr ⟨.mem m, operand, accesses⟩⟩)

theorem candidate_of_base? {footprint : Footprint} {base : Reg} (found : footprint.base? = some base) :
    footprint.candidate base = true := by
  have member : base ∈ Reg.all.filter footprint.candidate := by
    simp only [base?, Option.orElse_eq_orElse, Option.orElse_eq_or] at found
    rcases Option.or_eq_some_iff.mp found with preserved | ⟨_, first⟩
    · split at preserved
      · exact List.mem_of_find?_eq_some preserved
      · cases preserved
    · exact List.mem_of_head? first
  exact (List.mem_filter.mp member).2

end Footprint

namespace Usage

/-- What generated code relies on: the register for the context pointer is none that the body names, not
the stack pointer, and not `rax` if there are calls; the body does not name the stack pointer. -/
structure Fit (usage : Usage) : Prop where
  unnamed : usage.base ∉ usage.read
  notStack : usage.base ≠ .rsp
  notResult : usage.touchesMemory = true → usage.base ≠ .rax
  stackUnnamed : Reg.rsp ∉ usage.read
  dirty : ∀ r, r ∈ usage.dirty ↔ r ∈ usage.read

theorem fit_of_ofBody {body : List Host.Instr} {usage : Usage} (ok : ofBody body = .ok usage)
    (free : ∀ i ∈ body, ∀ operand ∈ i.operands.operands, ¬ operand.Names .rsp) :
    usage.toFootprint = Footprint.ofBody body ∧ usage.Fit := by
  simp only [ofBody] at ok
  split at ok
  next base found =>
    cases ok
    have candidate := Footprint.candidate_of_base? found
    simp only [Footprint.candidate, Bool.and_eq_true, Bool.not_eq_true', Bool.and_eq_false_iff,
      decide_eq_false_iff_not] at candidate
    obtain ⟨⟨⟨clean, reserved⟩, result⟩, _⟩ := candidate
    have dirty (r : Reg) : r ∈ (Footprint.ofBody body).dirty ↔ r ∈ (Footprint.ofBody body).read := by
      rw [Footprint.mem_dirty, Footprint.mem_read]
    refine ⟨rfl, fun named => ?_, ?_, ?_, fun named => ?_, dirty⟩
    · exact absurd ((dirty base).mpr named) (by simpa [RegSet.mem_iff, RegSet.contains] using clean)
    · rintro rfl
      cases reserved
    · rintro touches rfl
      have quiet : (Footprint.ofBody body).touchesMemory = false := by simpa using result
      exact absurd quiet (by simpa using touches)
    · obtain ⟨i, member, operand, present, names⟩ := Footprint.mem_read.mp named
      exact free i member operand present names
  next => cases ok

/-- At most six registers are saved. -/
theorem size_saved_le (usage : Usage) : usage.saved.size ≤ 6 := by
  have within : ∀ r ∈ Reg.all, usage.saved.contains r = true → Host.Convention.calleeSaved.contains r = true := by
    intro r _ member
    exact (RegSet.mem_inter.mp (show r ∈ usage.saved from member)).2
  calc usage.saved.size = Reg.all.countP usage.saved.contains := (List.countP_eq_length_filter ..).symm
    _ ≤ Reg.all.countP Host.Convention.calleeSaved.contains := List.countP_mono_left within
    _ = 6 := by decide

end Usage

end Rehost
