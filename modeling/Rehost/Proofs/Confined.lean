import Rehost.Lowering
import Rehost.Proofs.Footprint
import Rehost.Proofs.Passage
import Rehost.Proofs.Stack
import Rehost.Proofs.Status
import Rehost.Proofs.Word

/-!
# Accesses and single operations of generated code

What generated code may access in memory is its own frame and, through the base register, some slots of
the context (`Confined`). Beside that, what each operation does that generated code adds to those of a
program: on registers, on constants, and on slots of the context.
-/

namespace Rehost

open Guest (Context)
open Host (Instr Node Operand)

/-- The slots that generated code may access. The handler is none of them. -/
def Usage.Open (usage : Usage) : Context.Slot → Prop
  | .flags | .accessAddress | .accessValue => True
  | .gp r => r ∈ usage.read
  | .handler => False

namespace Machine

variable {σ : Type}

/-! ### Confined accesses -/

/-- A memory operand lies in the frame, or in a slot of the context to which the base register points. -/
inductive Confined (usage : Usage) (contextAddress entry : Word) (s : State) (m : Host.Mem) : Prop where
  | frame (deep : entry.toNat ≤ (s.get .rsp).toNat + 8 * frameWords)
      (low : (s.get .rsp).toNat ≤ (m.address s.regs).toNat)
      (high : (m.address s.regs).toNat + m.width.bytes ≤ entry.toNat)
  | slot (slot : Context.Slot) (allowed : usage.Open slot) (base : m.base = some usage.base)
      (points : s.get usage.base = contextAddress)
      (low : contextAddress.toNat + slot.offset ≤ (m.address s.regs).toNat)
      (high : (m.address s.regs).toNat + m.width.bytes ≤ contextAddress.toNat + slot.offset + 8)

/-- Where the word lies that an instruction pushes or pops. -/
def Executed.word? (e : Executed) : Option Word :=
  match e.instr.opcode with
  | .push | .pushfq => some (e.after.get .rsp)
  | .pop | .popfq => some (e.before.get .rsp)
  | _ => none

/-- Every memory operand of an executed instruction is confined, if it is accessed at all, and words are
pushed and popped within the frame. -/
structure Executed.Confined (usage : Usage) (contextAddress entry : Word) (e : Executed) : Prop where
  operands : e.instr.opcode ≠ .op .lea → ∀ m, .mem m ∈ e.instr.operands.operands →
    Machine.Confined usage contextAddress entry e.before m
  stack : ∀ a, e.word? = some a → entry.toNat ≤ a.toNat + 8 * frameWords ∧ a.toNat + 8 ≤ entry.toNat

/-- An executed instruction that calls nothing and whose accesses are confined. -/
structure Executed.Quiet (usage : Usage) (contextAddress entry : Word) (e : Executed) : Prop where
  notCall : e.instr.opcode ≠ .call
  confined : e.Confined usage contextAddress entry

/-! ### Slots -/

/-- The memory operand of a slot. -/
def slotMem (base : Reg) (slot : Context.Slot) (w : Width) : Host.Mem where
  base := some base
  displacement := BitVec.ofNat 32 slot.offset
  width := w

theorem offset_le (slot : Context.Slot) : slot.offset + 8 ≤ Context.size := by
  cases slot with
  | gp r =>
    have := r.isLt
    simp only [Context.Slot.offset, Context.gpOffset, Context.size, Context.reservedSize]
    omega
  | _ => decide

theorem address_slotMem {regs : RegFile} {contextAddress : Word} {base : Reg} (slot : Context.Slot) (w : Width)
    (points : regs.get base = contextAddress) :
    (slotMem base slot w).address regs = contextAddress + BitVec.ofNat 64 slot.offset := by
  have small := offset_le slot
  simp only [Context.size, Context.gpOffset, Context.reservedSize] at small
  have displacement : (BitVec.ofNat 32 slot.offset).signExtend 64 = BitVec.ofNat 64 slot.offset := by
    rw [BitVec.signExtend_eq_setWidth_of_msb_false]
    · exact BitVec.eq_of_toNat_eq (by simp; omega)
    · rw [BitVec.msb_eq_false_iff_two_mul_lt, BitVec.toNat_ofNat]
      omega
  simp [Host.Mem.address, slotMem, points, displacement]

theorem place_slot (contextAddress : Word) (slot : Context.Slot) :
    Place.ofAddress? contextAddress (contextAddress + BitVec.ofNat 64 slot.offset) = some (.slot slot) := by
  have small := offset_le slot
  have offset : (contextAddress + BitVec.ofNat 64 slot.offset - contextAddress).toNat = slot.offset := by
    simp only [Context.size, Context.gpOffset, Context.reservedSize] at small
    rw [BitVec.add_comm, BitVec.add_sub_cancel, BitVec.toNat_ofNat]
    omega
  have inside : slot.offset < Context.size := by omega
  simp only [Place.ofAddress?, offset, inside, if_true, Context.Slot.ofOffset?_offset, Option.map_some]

theorem confined_slotMem {usage : Usage} {contextAddress entry : Word} (layout : Layout contextAddress entry)
    {s : State} (points : s.get usage.base = contextAddress) {slot : Context.Slot} (allowed : usage.Open slot)
    (w : Width) : Confined usage contextAddress entry s (slotMem usage.base slot w) := by
  have small := offset_le slot
  have whole := layout.whole
  have bytes : w.bytes ≤ 8 := by cases w <;> decide
  have address : ((slotMem usage.base slot w).address s.regs).toNat = contextAddress.toNat + slot.offset := by
    rw [address_slotMem slot w points, BitVec.toNat_add, BitVec.toNat_ofNat]
    simp only [Context.size, Context.gpOffset, Context.reservedSize] at small whole
    omega
  refine .slot slot allowed rfl points (Nat.le_of_eq address.symm) ?_
  rw [address]
  exact Nat.add_le_add_left bytes _

/-! ### Whole words -/

section
variable (s : State) (r : Reg) (p : Place) (value : Word)

theorem get?_reg : (Target.reg ⟨r, .b64, false⟩).get? s .b64 = some (s.get r) :=
  congrArg some (RegFile.part_full s.regs r)

theorem get?_place : (Target.place p .b64).get? s .b64 = some (s.load p) := by
  simp [Target.get?, Width.bits]

theorem get?_value : (Target.value value).get? s .b64 = some value := by
  simp [Target.get?, Width.bits]

theorem put?_reg : (Target.reg ⟨r, .b64, false⟩).put? s .b64 value = some (s.set r value) := by
  simp [Target.put?, State.set]

theorem put?_place : (Target.place p .b64).put? s .b64 value = some (s.store p value) := by
  simp [Target.put?, Width.bits]

end

section
variable {s : State} {dst src : Target} (wide : dst.width? = some .b64) {a b : Word}
  (given : src.get? s .b64 = some b)
include wide given

theorem move_whole : move dst src s = dst.put? s .b64 b := by
  simp only [move, wide, given, Option.bind_eq_bind, Option.bind_some]
  rfl

theorem binary_whole (f : (n : Nat) → BitVec n → BitVec n → Status → BitVec n × Status)
    (held : dst.get? s .b64 = some a) :
    binary f dst src s = dst.put? (s.setStatus (f 64 a b s.status).2) .b64 (f 64 a b s.status).1 := by
  simp only [binary, wide, held, given, Option.bind_eq_bind, Option.bind_some]
  rfl

end

/-! ### Single instructions -/

section
variable {latitude : Latitude} {contextAddress : Word} {s : State} {dst src : Operand} {target source : Target}
  (dstFound : Target.ofOperand? contextAddress s.regs dst = some target)
  (srcFound : Target.ofOperand? contextAddress s.regs src = some source)
include dstFound srcFound

theorem operate_mov :
    operate latitude contextAddress .mov { first := some dst, second := some src } s = move target source s := by
  change (do move (← Target.ofOperand? contextAddress s.regs dst) (← Target.ofOperand? contextAddress s.regs src) s) = _
  rw [dstFound, srcFound]
  rfl

theorem operate_binary {operation : Operation}
    {f : Latitude → (n : Nat) → BitVec n → BitVec n → Status → BitVec n × Status}
    (action : operation.action = .binary f) :
    operate latitude contextAddress operation { first := some dst, second := some src } s =
      binary (f latitude) target source s := by
  unfold operate
  rw [action]
  change (do
    binary (f latitude) (← Target.ofOperand? contextAddress s.regs dst)
      (← Target.ofOperand? contextAddress s.regs src) s) = _
  rw [dstFound, srcFound]
  rfl

end

section
variable (latitude : Latitude) (contextAddress : Word) (s : State)

theorem operate_mov_full (r q : Reg) :
    operate latitude contextAddress .mov { first := some (.full r), second := some (.full q) } s =
      some (s.set r (s.get q)) := by
  rw [operate_mov rfl rfl, move_whole rfl (get?_reg s q)]
  exact put?_reg s r _

theorem operate_mov_constant (r : Reg) (value : Word) :
    operate latitude contextAddress .mov { first := some (.full r), second := some (.imm value .b64) } s =
      some (s.set r value) := by
  rw [operate_mov rfl rfl, move_whole rfl (get?_value s value)]
  exact put?_reg s r value

theorem operate_mov_half (r : Reg) (value : Word) :
    operate latitude contextAddress .mov { first := some (.half r), second := some (.imm value .b32) } s =
      some (s.set r ((value.setWidth 32).setWidth 64)) := by
  rw [operate_mov rfl rfl]
  simp [move, Target.width?, Target.get?, Target.put?, State.set, Width.bits, RegFile.setPart, widen]

theorem operate_lea (r : Reg) (m : Host.Mem) :
    operate latitude contextAddress .lea { first := some (.full r), second := some (.mem m) } s =
      some (s.set r (m.address s.regs)) := by
  change (Target.reg ⟨r, .b64, false⟩).put? s .b64 ((m.address s.regs).setWidth 64) = _
  rw [BitVec.setWidth_eq]
  exact put?_reg s r _

/-! Arithmetic leaves some flags or other. -/

theorem operate_and_full (r : Reg) (value : Word) :
    ∃ flags, operate latitude contextAddress .and { first := some (.full r), second := some (.imm value .b64) } s =
      some { s.set r (s.get r &&& value) with flags } := by
  rw [operate_binary rfl rfl rfl, binary_whole rfl (get?_value s value) _ (get?_reg s r)]
  exact ⟨_, put?_reg _ r _⟩

theorem operate_sub_full (r : Reg) (value : Word) :
    ∃ flags, operate latitude contextAddress .sub { first := some (.full r), second := some (.imm value .b64) } s =
      some { s.set r (s.get r - value) with flags } := by
  rw [operate_binary rfl rfl rfl, binary_whole rfl (get?_value s value) _ (get?_reg s r),
    ← BitVec.sub_zero (s.get r - value)]
  exact ⟨_, put?_reg _ r _⟩

theorem operate_add_full (r : Reg) (value : Word) :
    ∃ flags, operate latitude contextAddress .add { first := some (.full r), second := some (.imm value .b64) } s =
      some { s.set r (s.get r + value) with flags } := by
  rw [operate_binary rfl rfl rfl, binary_whole rfl (get?_value s value) _ (get?_reg s r),
    ← BitVec.add_zero (s.get r + value)]
  exact ⟨_, put?_reg _ r _⟩

theorem operate_xor_half (r : Reg) :
    ∃ flags, operate latitude contextAddress .xor { first := some (.half r), second := some (.half r) } s =
      some { s.set r 0 with flags } := by
  have zero : s.regs.setPart r false .b32 (s.regs.part r false .b32 ^^^ s.regs.part r false .b32) =
      s.regs.set r 0 := by
    simp [RegFile.setPart, widen]
  rw [operate_binary rfl rfl rfl]
  simp only [binary, Target.width?, Target.get?, Target.put?, State.set, State.setStatus, Operation.bitwise,
    Option.bind_eq_bind, Option.bind_some, if_true, zero]
  exact ⟨_, rfl⟩

theorem operate_test_half (r : Reg) :
    ∃ flags, operate latitude contextAddress .test { first := some (.half r), second := some (.half r) } s =
        some { s with flags } ∧ (Status.ofWord flags).zero = ((s.get r).setWidth 32 == 0) := by
  refine ⟨_, rfl, ?_⟩
  rw [Status.ofWord_replace]
  change ((s.get r).setWidth 32 &&& (s.get r).setWidth 32 == 0) = _
  rw [BitVec.and_self]

theorem operate_and_cell {m : Host.Mem} {a : Word} (address : m.address s.regs = a)
    (place : Place.ofAddress? contextAddress a = some (.cell a)) (value : Word) (whole : m.width = .b64) :
    ∃ flags, operate latitude contextAddress .and { first := some (.mem m), second := some (.imm value .b64) } s =
      some { s with flags, cells := fun other => if other = a then s.cells a &&& value else s.cells other } := by
  have found : Target.ofOperand? contextAddress s.regs (.mem m) = some (.place (.cell a) .b64) := by
    rw [Target.ofOperand?, address, place, whole]
    rfl
  rw [operate_binary found rfl rfl, binary_whole rfl (get?_value s value) _ (get?_place s (.cell a))]
  exact ⟨_, put?_place _ (.cell a) _⟩

section
variable {contextAddress s} {base : Reg} (points : s.get base = contextAddress)
include points

theorem ofOperand?_slotMem (slot : Context.Slot) (w : Width) :
    Target.ofOperand? contextAddress s.regs (.mem (slotMem base slot w)) = some (.place (.slot slot) w) := by
  rw [Target.ofOperand?, address_slotMem slot w points, place_slot]
  rfl

theorem operate_load (r : Reg) (slot : Context.Slot) :
    operate latitude contextAddress .mov
        { first := some (.full r), second := some (.mem (slotMem base slot .b64)) } s =
      some (s.set r (s.context.get slot)) := by
  rw [operate_mov rfl (ofOperand?_slotMem points slot .b64), move_whole rfl (get?_place s (.slot slot))]
  exact put?_reg s r _

theorem operate_save (slot : Context.Slot) (r : Reg) :
    operate latitude contextAddress .mov
        { first := some (.mem (slotMem base slot .b64)), second := some (.full r) } s =
      some { s with context := s.context.set slot (s.get r) } := by
  rw [operate_mov (ofOperand?_slotMem points slot .b64) rfl, move_whole rfl (get?_reg s r)]
  exact put?_place s (.slot slot) _

theorem operate_and_slot (slot : Context.Slot) (value : Word) :
    ∃ flags, operate latitude contextAddress .and
        { first := some (.mem (slotMem base slot .b64)), second := some (.imm value .b64) } s =
      some { s with flags, context := s.context.set slot (s.context.get slot &&& value) } := by
  rw [operate_binary (ofOperand?_slotMem points slot .b64) rfl rfl,
    binary_whole rfl (get?_value s value) _ (get?_place s (.slot slot))]
  exact ⟨_, put?_place _ (.slot slot) _⟩

theorem operate_or_slot (slot : Context.Slot) (r : Reg) :
    ∃ flags, operate latitude contextAddress .or
        { first := some (.mem (slotMem base slot .b64)), second := some (.full r) } s =
      some { s with flags, context := s.context.set slot (s.context.get slot ||| s.get r) } := by
  rw [operate_binary (ofOperand?_slotMem points slot .b64) rfl rfl,
    binary_whole rfl (get?_reg s r) _ (get?_place s (.slot slot))]
  exact ⟨_, put?_place _ (.slot slot) _⟩

end

end

end Machine

end Rehost
