import Rehost.Proofs.Locality

/-!
# The supported subset

Which instructions are selected is stated here operand by operand, without selecting them (`Supported`). Selection
accepts exactly these, says what is wrong with any other, and changes nothing of what an instruction says
(`selects_exactly`). Compiled code has a lock before nothing but an operation that changes memory in place, and what
comes from the program does not name the stack pointer.
-/

namespace Rehost

/-! ### What is supported -/

namespace Guest

/-- A size that a general-purpose register has. -/
def Size.General (size : Size) : Prop := size.bits = 8 ∨ size.bits = 16 ∨ size.bits = 32 ∨ size.bits = 64

/-- A register that the host has to spare: general-purpose, and not the stack pointer. -/
def Register.Usable (register : Register) : Prop := register.cls = .general ∧ register.index ≠ 4

/-- Whether an operand in memory has a host counterpart. A scale of 16 has none, even without an index. -/
structure Mem.Convertible (m : Mem) : Prop where
  segment : m.segment ≠ some .fs ∧ m.segment ≠ some .gs
  addressSize : m.addressSize.bits = 32 ∨ m.addressSize.bits = 64
  scale : m.scale ≠ .x16
  base : ∀ register, m.base = some register → register.Usable
  index : ∀ register, m.index = some register → register.Usable

/-- Whether an operand has a host counterpart. -/
def Operand.Convertible : Operand → Prop
  | .reg register size high => register.Usable ∧ size.General ∧ (high = true → size.bits = 8 ∧ register.index < 4)
  | .imm _ size => size.General
  | .mem m size => m.Convertible ∧ size.General

/-- The mnemonics that denote an operation. -/
def Mnemonic.mapped : List Mnemonic := Operation.all.map .op

example : Mnemonic.mapped.length = 22 := rfl

end Guest

/-- Whether an action reads its destination, changes it and writes it back. Shifts do so too, but not as one step. -/
def Action.InPlace : Action → Prop
  | .unary _ => True
  | .binary _ => True
  | .swap => True
  | _ => False

/-- Whether an instruction is of the supported subset. -/
structure Guest.Instruction.Supported (i : Guest.Instruction) : Prop where
  mnemonic : i.mnemonic ∈ Mnemonic.mapped
  operands : ∀ operand ∈ i.operands.operands, operand.Convertible
  lock : i.lead = .lock → (∃ operation, i.mnemonic = .op operation ∧ operation.action.InPlace) ∧
    ∃ m size, i.operands.first = some (.mem m size)

namespace Selection

/-- A host operand that says what a guest operand says. -/
def Agrees : Guest.Operand → Host.Operand → Prop
  | .reg register size high, .reg r => register = .general r.reg ∧ r.width.bits = size.bits ∧ r.high = high
  | .imm value size, .imm v w => v = value ∧ w.bits = size.bits
  | .mem m size, .mem n => m.base = n.base.map .general ∧ m.index = n.index.map .general ∧
      n.scale = m.scale.factor ∧ n.displacement = m.displacement ∧ n.width.bits = size.bits ∧
      (n.addr32 = true ↔ m.addressSize.bits = 32)
  | _, _ => False

/-- A host instruction that says what a guest instruction says, operand by operand. -/
structure Faithful (i : Guest.Instruction) (j : Host.Instr) : Prop where
  lead : j.lead = i.lead
  operation : ∃ operation, i.mnemonic = .op operation ∧ j.opcode = .op operation
  operands : Slots.Rel Agrees i.operands j.operands

/-! ### Operands -/

theorem width_iff {size : Guest.Size} : (∃ w, width size = .ok w) ↔ size.General := by
  cases size <;> simp [width, Guest.Size.width?, Guest.Size.resolve, Guest.Size.General, Guest.Size.bits]

theorem bits_of_width {size : Guest.Size} {w : Width} (ok : width size = .ok w) : w.bits = size.bits := by
  cases size <;> cases ok <;> rfl

theorem register_iff {register : Guest.Register} : (∃ r, Selection.register register = .ok r) ↔ register.Usable := by
  cases register with
  | general r =>
    by_cases pointer : r = Reg.rsp
    · have same : r.val = 4 := congrArg Fin.val pointer
      simp [Selection.register, pointer, Guest.Register.Usable, Guest.Register.index, ← same]
    · have other : r.val ≠ 4 := fun same => pointer (Fin.ext same)
      simp [Selection.register, pointer, Guest.Register.Usable, Guest.Register.cls, Guest.Register.index, other]
  | floating index => simp [Selection.register, Guest.Register.Usable, Guest.Register.cls]
  | vector index => simp [Selection.register, Guest.Register.Usable, Guest.Register.cls]

theorem optionalRegister_iff {register : Option Guest.Register} :
    (∃ r, optionalRegister register = .ok r) ↔ ∀ found, register = some found → found.Usable := by
  cases register with
  | none => simp [optionalRegister]
  | some register =>
    constructor
    · rintro ⟨r, ok⟩ found same
      cases same
      obtain ⟨r, ok, _⟩ := ok_of_bind ok
      exact register_iff.mp ⟨r, ok⟩
    · intro usable
      obtain ⟨r, ok⟩ := register_iff.mpr (usable register rfl)
      exact ⟨some r, by simp [optionalRegister, ok, bind, Except.bind, pure, Except.pure]⟩

theorem addr32_iff {size : Guest.Size} : (∃ narrow, addr32 size = .ok narrow) ↔ size.bits = 32 ∨ size.bits = 64 := by
  cases size <;> simp [addr32, Guest.Size.resolve, Guest.Size.bits]

theorem narrow_of_addr32 {size : Guest.Size} {narrow : Bool} (ok : addr32 size = .ok narrow) :
    narrow = true ↔ size.bits = 32 := by
  cases size <;> cases ok <;> simp [Guest.Size.bits]

theorem memory_iff {m : Guest.Mem} {size : Guest.Size} :
    (∃ n, memory m size = .ok n) ↔ m.Convertible ∧ size.General := by
  constructor
  · rintro ⟨n, ok⟩
    obtain ⟨plain, scaled, narrow, base, index, w, addressed, foundBase, foundIndex, width, _⟩ := memory_ok ok
    exact ⟨⟨not_or.mp plain, addr32_iff.mp ⟨narrow, addressed⟩, scaled, optionalRegister_iff.mp ⟨base, foundBase⟩,
      optionalRegister_iff.mp ⟨index, foundIndex⟩⟩, width_iff.mp ⟨w, width⟩⟩
  · rintro ⟨⟨segment, addressSize, scale, base, index⟩, general⟩
    obtain ⟨narrow, addressed⟩ := addr32_iff.mpr addressSize
    obtain ⟨b, foundBase⟩ := optionalRegister_iff.mpr base
    obtain ⟨i, foundIndex⟩ := optionalRegister_iff.mpr index
    obtain ⟨w, width⟩ := width_iff.mpr general
    exact ⟨⟨b, i, m.scale.factor, m.displacement, w, narrow⟩, by
      simp [memory, segment, addressed, scale, foundBase, foundIndex, width, bind, Except.bind, pure, Except.pure]⟩

/-- Whether a register of some width has a high byte. -/
theorem highByte_iff {size : Guest.Size} {w : Width} (sized : width size = .ok w) {high : Bool} {r : Reg} :
    ¬(high = true ∧ ¬(w = .b8 ∧ r.val < 4)) ↔ (high = true → size.bits = 8 ∧ r.val < 4) := by
  have narrow : w = .b8 ↔ size.bits = 8 := by
    rw [← bits_of_width sized]
    cases w <;> simp [Width.bits]
  rw [narrow, not_and, Decidable.not_not]

theorem operand_iff {g : Guest.Operand} : (∃ h, operand g = .ok h) ↔ g.Convertible := by
  cases g with
  | reg register size high =>
    constructor
    · rintro ⟨h, ok⟩
      obtain ⟨w, sized, later⟩ := ok_of_bind ok
      obtain ⟨r, found, named⟩ := ok_of_bind later
      refine ⟨register_iff.mp ⟨r, found⟩, width_iff.mp ⟨w, sized⟩, ?_⟩
      obtain ⟨rfl, _⟩ := general_of_register found
      refine (highByte_iff sized (r := r)).mp fun absent => ?_
      simp only [if_pos absent] at named
      cases named
    · rintro ⟨usable, general, fits⟩
      obtain ⟨w, sized⟩ := width_iff.mpr general
      obtain ⟨r, found⟩ := register_iff.mpr usable
      obtain ⟨rfl, _⟩ := general_of_register found
      have present := (highByte_iff sized (r := r)).mpr fits
      refine ⟨.reg ⟨r, w, high⟩, ?_⟩
      simp only [operand, sized, found, if_neg present, bind, Except.bind, pure, Except.pure]
  | imm value size =>
    show (∃ h, operand (.imm value size) = .ok h) ↔ size.General
    rw [← width_iff]
    constructor
    · rintro ⟨h, ok⟩
      obtain ⟨w, sized, _⟩ := ok_of_bind ok
      exact ⟨w, sized⟩
    · rintro ⟨w, sized⟩
      exact ⟨.imm value w, by simp [operand, sized, bind, Except.bind, pure, Except.pure]⟩
  | mem m size =>
    show (∃ h, operand (.mem m size) = .ok h) ↔ m.Convertible ∧ size.General
    rw [← memory_iff]
    constructor
    · rintro ⟨h, ok⟩
      obtain ⟨n, found, _⟩ := ok_of_bind ok
      exact ⟨n, found⟩
    · rintro ⟨n, found⟩
      exact ⟨.mem n, by simp [operand, found, bind, Except.bind, pure, Except.pure]⟩

theorem agrees_of_operand {g : Guest.Operand} {h : Host.Operand} (ok : operand g = .ok h) : Agrees g h := by
  cases g with
  | reg register size high =>
    obtain ⟨w, sized, ok⟩ := ok_of_bind ok
    obtain ⟨r, found, ok⟩ := ok_of_bind ok
    split at ok
    · cases ok
    · cases ok
      exact ⟨(general_of_register found).1, bits_of_width sized, rfl⟩
  | imm value size =>
    obtain ⟨w, sized, ok⟩ := ok_of_bind ok
    cases ok
    exact ⟨rfl, bits_of_width sized⟩
  | mem m size =>
    obtain ⟨n, found, ok⟩ := ok_of_bind ok
    cases ok
    obtain ⟨_, _, narrow, base, index, w, addressed, foundBase, foundIndex, sized, rfl⟩ := memory_ok found
    exact ⟨(general_of_optionalRegister foundBase).1, (general_of_optionalRegister foundIndex).1, rfl, rfl,
      bits_of_width sized, narrow_of_addr32 addressed⟩

end Selection

/-! ### Instructions -/

namespace Slots

variable {α β : Type}

theorem exists_slot_iff {R : α → β → Prop} {a : Option α} :
    (∃ b, Option.Rel R a b) ↔ ∀ x, a = some x → ∃ y, R x y := by
  cases a with
  | none =>
    constructor
    · intro _ x same
      cases same
    · intro _
      exact ⟨none, .none⟩
  | some x =>
    constructor
    · rintro ⟨b, related⟩ x same
      cases same
      cases related with
      | some found => exact ⟨_, found⟩
    · intro each
      obtain ⟨y, found⟩ := each x rfl
      exact ⟨some y, .some found⟩

theorem exists_rel_iff {R : α → β → Prop} {a : Slots α} : (∃ b, Rel R a b) ↔ ∀ x ∈ a.operands, ∃ y, R x y := by
  have split : (∀ x ∈ a.operands, ∃ y, R x y) ↔ (∀ x, a.first = some x → ∃ y, R x y) ∧
      (∀ x, a.second = some x → ∃ y, R x y) ∧ (∀ x, a.third = some x → ∃ y, R x y) ∧
      ∀ x, a.fourth = some x → ∃ y, R x y := by
    simp only [Lowering.mem_operands, toList, List.mem_cons, List.not_mem_nil, or_false, or_imp, forall_and, eq_comm]
  rw [split, ← exists_slot_iff, ← exists_slot_iff, ← exists_slot_iff, ← exists_slot_iff]
  constructor
  · rintro ⟨b, first, second, third, fourth⟩
    exact ⟨⟨_, first⟩, ⟨_, second⟩, ⟨_, third⟩, ⟨_, fourth⟩⟩
  · rintro ⟨⟨b, first⟩, ⟨c, second⟩, ⟨d, third⟩, ⟨e, fourth⟩⟩
    exact ⟨⟨b, c, d, e⟩, first, second, third, fourth⟩

end Slots

namespace Selection

theorem agrees_of_mapM {g : Slots Guest.Operand} {h : Slots Host.Operand} (ok : g.mapM operand = .ok h) :
    Slots.Rel Agrees g h :=
  (Slots.mapM_iff.mp ok).mono fun _ _ => agrees_of_operand

theorem mapM_operand_iff {g : Slots Guest.Operand} :
    (∃ h, g.mapM operand = .ok h) ↔ ∀ x ∈ g.operands, x.Convertible := by
  simp only [Slots.mapM_iff, Slots.exists_rel_iff, operand_iff]

theorem inMemory_iff {g : Option Guest.Operand} {h : Option Host.Operand} (agrees : Option.Rel Agrees g h) :
    (∃ n, h = some (.mem n)) ↔ ∃ m size, g = some (.mem m size) := by
  cases agrees with
  | none => simp
  | @some a b agrees =>
    cases a <;> cases b <;> simp_all [Agrees]

theorem lockable_iff {operation : Operation} : lockable operation = true ↔ operation.action.InPlace := by
  cases operation <;> simp [lockable, Operation.action, Action.InPlace]

theorem checkLock_iff {operation : Operation} {h : Slots Host.Operand} :
    checkLock operation h = .ok () ↔ operation.action.InPlace ∧ ∃ m, h.first = some (.mem m) := by
  rw [← lockable_iff]
  unfold checkLock
  by_cases locks : lockable operation = true
  · rw [if_pos locks]
    split
    next m first => simp [locks, first]
    next other =>
      refine iff_of_false (by simp) ?_
      rintro ⟨_, m, first⟩
      exact other m first
  · rw [if_neg locks]
    exact iff_of_false (by simp) fun memory => locks memory.1

/-- The operands of an instruction are accepted exactly if each is convertible and a lock fits. -/
theorem operands_iff {lead : Prefix} {operation : Operation} {g : Slots Guest.Operand} :
    (∃ h, operands lead operation g = .ok h) ↔ (∀ x ∈ g.operands, x.Convertible) ∧
      (lead = .lock → operation.action.InPlace ∧ ∃ m size, g.first = some (.mem m size)) := by
  rw [← mapM_operand_iff]
  constructor
  · rintro ⟨h, ok⟩
    obtain ⟨mapped, lock⟩ := operands_ok_iff.mp ok
    refine ⟨⟨h, mapped⟩, fun locked => ?_⟩
    obtain ⟨inPlace, memory⟩ := checkLock_iff.mp (lock locked)
    exact ⟨inPlace, (inMemory_iff (agrees_of_mapM mapped).first).mp memory⟩
  · rintro ⟨⟨h, mapped⟩, lock⟩
    refine ⟨h, operands_ok_iff.mpr ⟨mapped, fun locked => ?_⟩⟩
    obtain ⟨inPlace, memory⟩ := lock locked
    exact checkLock_iff.mpr ⟨inPlace, (inMemory_iff (agrees_of_mapM mapped).first).mpr memory⟩

theorem mem_mapped_iff {mnemonic : Guest.Mnemonic} :
    mnemonic ∈ Guest.Mnemonic.mapped ↔ ∃ operation, mnemonic = .op operation := by
  constructor
  · intro member
    obtain ⟨operation, _, same⟩ := List.mem_map.mp member
    exact ⟨operation, same.symm⟩
  · rintro ⟨operation, rfl⟩
    exact List.mem_map_of_mem (by cases operation <;> decide)

/-- An instruction of some operation is selected, or an operand of it refused. -/
theorem select_cases {i : Guest.Instruction} {operation : Operation} (named : i.mnemonic = .op operation) :
    (∃ h, operands i.lead operation i.operands = .ok h ∧ select i = .ok ⟨i.lead, .op operation, h⟩) ∨
      ∃ cause, operands i.lead operation i.operands = .error cause ∧ select i = .error (.unsupportedOperand cause) := by
  have started : Selection.operation i.mnemonic = .ok operation := by
    rw [named]
    rfl
  cases converted : operands i.lead operation i.operands with
  | ok h =>
    refine .inl ⟨h, rfl, ?_⟩
    simp only [select, started, converted, bind, Except.bind, pure, Except.pure]
  | error cause =>
    refine .inr ⟨cause, rfl, ?_⟩
    simp only [select, started, converted, bind, Except.bind, throw, throwThe, MonadExceptOf.throw]

theorem select_eq_of_unmapped {i : Guest.Instruction} (unmapped : i.mnemonic ∉ Guest.Mnemonic.mapped) :
    select i = .error (.unsupportedMnemonic i.mnemonic) := by
  rw [mem_mapped_iff] at unmapped
  have refused : Selection.operation i.mnemonic = .error (.unsupportedMnemonic i.mnemonic) := by
    unfold Selection.operation
    split
    next operation named => exact absurd ⟨operation, named⟩ unmapped
    next => rfl
  simp [select, refused, bind, Except.bind]

theorem supported_iff_of_operation {i : Guest.Instruction} {operation : Operation} (named : i.mnemonic = .op operation) :
    i.Supported ↔ ∃ h, operands i.lead operation i.operands = .ok h := by
  rw [operands_iff]
  constructor
  · rintro ⟨_, convertible, lock⟩
    refine ⟨convertible, fun locked => ?_⟩
    obtain ⟨⟨other, same, inPlace⟩, memory⟩ := lock locked
    cases named.symm.trans same
    exact ⟨inPlace, memory⟩
  · rintro ⟨convertible, lock⟩
    refine ⟨mem_mapped_iff.mpr ⟨operation, named⟩, convertible, fun locked => ?_⟩
    obtain ⟨inPlace, memory⟩ := lock locked
    exact ⟨⟨operation, named, inPlace⟩, memory⟩

theorem select_iff {i : Guest.Instruction} : (∃ j, select i = .ok j) ↔ i.Supported := by
  constructor
  · rintro ⟨j, ok⟩
    obtain ⟨operation, named, _⟩ := select_ok ok
    rcases select_cases named with ⟨h, converted, _⟩ | ⟨cause, _, refused⟩
    · exact (supported_iff_of_operation named).mpr ⟨h, converted⟩
    · cases ok.symm.trans refused
  · intro supported
    obtain ⟨operation, named⟩ := mem_mapped_iff.mp supported.mnemonic
    obtain ⟨h, converted⟩ := (supported_iff_of_operation named).mp supported
    rcases select_cases named with ⟨_, _, ok⟩ | ⟨cause, refused, _⟩
    · exact ⟨_, ok⟩
    · cases converted.symm.trans refused

theorem refused_of_mapped {i : Guest.Instruction} (mapped : i.mnemonic ∈ Guest.Mnemonic.mapped)
    (unsupported : ¬ i.Supported) : ∃ cause, select i = .error (.unsupportedOperand cause) := by
  obtain ⟨operation, named⟩ := mem_mapped_iff.mp mapped
  rcases select_cases named with ⟨h, _, ok⟩ | ⟨cause, _, refused⟩
  · exact absurd (select_iff.mp ⟨_, ok⟩) unsupported
  · exact ⟨cause, refused⟩

theorem faithful_of_select {i : Guest.Instruction} {j : Host.Instr} (ok : select i = .ok j) : Faithful i j := by
  obtain ⟨operation, named, _⟩ := select_ok ok
  rcases select_cases named with ⟨h, converted, selected⟩ | ⟨cause, _, refused⟩
  · cases ok.symm.trans selected
    exact ⟨rfl, ⟨operation, named, rfl⟩, agrees_of_mapM (operands_ok_iff.mp converted).1⟩
  · cases ok.symm.trans refused

/-- A selected instruction with a lock is of an operation in place, and its destination is in memory. -/
theorem locked_of_select {i : Guest.Instruction} {j : Host.Instr} (ok : select i = .ok j) (locked : j.lead = .lock) :
    (∃ operation, j.opcode = .op operation ∧ operation.action.InPlace) ∧ ∃ m, j.operands.first = some (.mem m) := by
  obtain ⟨lead, ⟨operation, named, opcode⟩, agrees⟩ := faithful_of_select ok
  obtain ⟨⟨other, same, inPlace⟩, memory⟩ := (select_iff.mp ⟨j, ok⟩).lock (lead.symm.trans locked)
  cases named.symm.trans same
  exact ⟨⟨operation, opcode, inPlace⟩, (inMemory_iff agrees.first).mpr memory⟩

end Selection

/-! ### Compiled code -/

/-- What stands before the instruction of a node. -/
def Host.Node.lead : Host.Node → Prefix
  | .instr i => i.lead
  | .label _ => .plain

namespace Lowering

open Host (Instr Node Operand)

section
variable (usage : Usage)

@[simp] theorem lead_instr (i : Instr) : (Node.instr i).lead = i.lead := rfl
@[simp] theorem lead_label (l : Host.Label) : (Node.label l).lead = .plain := rfl
@[simp] theorem lead_op (operation : Operation) (dst src : Operand) : (op operation dst src).lead = .plain := rfl
@[simp] theorem lead_push (operand : Operand) : (push operand).lead = .plain := rfl
@[simp] theorem lead_pop (operand : Operand) : (pop operand).lead = .plain := rfl
@[simp] theorem lead_bare (opcode : Host.Opcode) : (Instr.bare opcode).lead = .plain := rfl
@[simp] theorem lead_one (opcode : Host.Opcode) (operand : Operand) : (Instr.one opcode operand).lead = .plain := rfl

theorem unlocked_storeRegisters : ∀ node ∈ storeRegisters usage, node.lead = .plain := by
  simp [storeRegisters]

theorem unlocked_loadRegisters : ∀ node ∈ loadRegisters usage, node.lead = .plain := by
  simp [loadRegisters]

theorem unlocked_syncOut : ∀ node ∈ syncOut usage, node.lead = .plain := by
  simpa [syncOut] using unlocked_storeRegisters usage

theorem unlocked_syncIn : ∀ node ∈ syncIn usage, node.lead = .plain := by
  simpa [syncIn, or_imp, forall_and] using unlocked_loadRegisters usage

theorem unlocked_call [Linkage] (direction : Direction) (size : Nat) :
    ∀ node ∈ call usage direction size, node.lead = .plain := by
  simp [call, or_imp, forall_and]

theorem unlocked_entry : ∀ node ∈ entry usage, node.lead = .plain := by
  simpa [entry, seedFlags, or_imp, forall_and] using unlocked_loadRegisters usage

theorem unlocked_exit : ∀ node ∈ exit usage, node.lead = .plain := by
  have stores := unlocked_storeRegisters usage
  have syncs := unlocked_syncOut usage
  unfold exit
  split
  · simpa [or_imp, forall_and] using stores
  · simpa [storeFlags, or_imp, forall_and] using syncs

theorem unlocked_fault : ∀ node ∈ fault usage, node.lead = .plain := by
  simp [fault, or_imp, forall_and]

theorem unlocked_leadIn [Linkage] (i : Instr) : ∀ node ∈ leadIn usage i, node.lead = .plain := by
  unfold leadIn
  split
  · simp
  next position m _ =>
    split
    · simp only [List.forall_mem_append]
      refine ⟨⟨⟨unlocked_syncOut usage, by simp⟩, ?_⟩, unlocked_syncIn usage⟩
      split
      · exact unlocked_call usage .read m.width.bytes
      · simp
    · simp

theorem unlocked_leadOut [Linkage] (i : Instr) : ∀ node ∈ leadOut usage i, node.lead = .plain := by
  unfold leadOut
  split
  · simp
  next position m _ =>
    split
    · simp only [List.forall_mem_append]
      exact ⟨⟨unlocked_syncOut usage, unlocked_call usage .write m.width.bytes⟩, unlocked_syncIn usage⟩
    · simp

end

variable {usage : Usage}

/-- A lock in a listing stands before what some instruction of the body becomes. -/
theorem carried_of_locked [Linkage] {instrs : List Instr} {k : Instr} (member : .instr k ∈ listing usage instrs)
    (locked : k.lead = .lock) : ∃ j ∈ instrs, k = carried usage j := by
  have unlocked {nodes : List Node} (plain : ∀ node ∈ nodes, node.lead = .plain) (inside : .instr k ∈ nodes) : False := by
    have lead : k.lead = .plain := plain _ inside
    rw [locked] at lead
    cases lead
  -- All that is inserted is plain, so of the code around an instruction only the middle remains.
  simp only [listing, List.mem_append, List.mem_flatMap] at member
  rcases member with ((opens | ⟨j, present, inside⟩) | closes) | faults
  · exact (unlocked (unlocked_entry usage) opens).elim
  · rcases List.mem_append.mp inside with before | later
    · exact (unlocked (unlocked_leadIn usage j) before).elim
    · rcases List.mem_cons.mp later with here | after
      · exact ⟨j, present, Node.instr.inj here⟩
      · exact (unlocked (unlocked_leadOut usage j) after).elim
  · exact (unlocked (unlocked_exit usage) closes).elim
  · exact (unlocked (unlocked_fault usage) faults).elim

theorem lead_carried {j : Instr} : (carried usage j).lead = j.lead := by
  unfold carried
  split
  · rfl
  · split <;> rfl

/-- A destination in memory stays one: the value slot takes its place. -/
theorem first_carried {j : Instr} (memory : ∃ m, j.operands.first = some (.mem m)) :
    ∃ m, (carried usage j).operands.first = some (.mem m) := by
  obtain ⟨m, first⟩ := memory
  have found : j.memory? = some (0, m) := by
    simp [Instr.memory?, Instr.memories, Slots.toList, first, Operand.mem?]
  simp only [carried, found]
  split
  · exact ⟨_, rfl⟩
  · exact ⟨m, first⟩

theorem not_names_rsp_carried {j : Instr} (base : usage.base ≠ .rsp)
    (free : ∀ operand ∈ j.operands.operands, ¬ operand.Names .rsp) :
    ∀ operand ∈ (carried usage j).operands.operands, ¬ operand.Names .rsp := by
  unfold carried
  split
  · exact free
  · split
    · intro operand member
      rcases Machine.mem_of_mem_set member with rfl | other
      · simpa [Operand.Names, valueMem] using base
      · exact free operand other
    · exact free

end Lowering

/-! ### Exactness -/

/-- Selection accepts exactly the supported subset and changes nothing of what an instruction says. It refuses a
mnemonic whatever the operands are, and otherwise an operand. So in the listing of a program a lock stands only
before an operation in place with its destination in memory, and no instruction of the program names the stack
pointer of the host. -/
theorem selects_exactly [Linkage] :
    (∀ i, (∃ j, select i = .ok j) ↔ i.Supported) ∧
    (∀ i j, select i = .ok j → Selection.Faithful i j) ∧
    (∀ i, i.mnemonic ∉ Guest.Mnemonic.mapped → select i = .error (.unsupportedMnemonic i.mnemonic)) ∧
    (∀ i, i.mnemonic ∈ Guest.Mnemonic.mapped → ¬ i.Supported → ∃ cause, select i = .error (.unsupportedOperand cause)) ∧
    ∀ queue compiled, (compile queue).2 = .ok compiled →
      (∀ k, .instr k ∈ compiled.nodes → k.lead = .lock →
        (∃ operation, k.opcode = .op operation ∧ operation.action.InPlace) ∧
          ∃ m, k.operands.first = some (.mem m)) ∧
      ∀ i ∈ queue.instructions, i.Supported ∧ ∃ j, select i = .ok j ∧
        .instr (Lowering.carried compiled.usage j) ∈ compiled.nodes ∧
        ∀ operand ∈ (Lowering.carried compiled.usage j).operands.operands, ¬ operand.Names .rsp := by
  refine ⟨fun i => Selection.select_iff, fun i j => Selection.faithful_of_select,
    fun i => Selection.select_eq_of_unmapped, fun i => Selection.refused_of_mapped, ?_⟩
  intro queue compiled ok
  obtain ⟨instrs, selected⟩ := selectAll_of_compile ok
  obtain ⟨used, lowered, _⟩ := compileInstrs_ok ((compile_of_selectAll selected).symm.trans ok)
  obtain ⟨_, nodes⟩ := Lowering.function_eq_ok_iff.mp lowered
  have free := Lowering.not_names_rsp_of_selectAll selected
  obtain ⟨_, fit⟩ := Usage.fit_of_ofBody used free
  rw [nodes]
  constructor
  · -- The lock was checked before lowering, which keeps the operation and a destination in memory.
    intro k member locked
    obtain ⟨j, present, rfl⟩ := Lowering.carried_of_locked member locked
    obtain ⟨i, _, found⟩ := selected_from selected present
    obtain ⟨inPlace, memory⟩ := Selection.locked_of_select found (Lowering.lead_carried.symm.trans locked)
    rw [Lowering.opcode_carried]
    exact ⟨inPlace, Lowering.first_carried memory⟩
  · intro i member
    obtain ⟨j, present, found⟩ := select_of_mem selected member
    have inside : .instr (Lowering.carried compiled.usage j) ∈ instrs.flatMap (Lowering.around compiled.usage) :=
      List.mem_flatMap.mpr ⟨j, present, by simp [Lowering.around]⟩
    refine ⟨Selection.select_iff.mp ⟨j, found⟩, j, found, by simp [Lowering.listing, inside], ?_⟩
    exact Lowering.not_names_rsp_carried fit.notStack (free j present)

/-- Counts in memory, with a lock and at an address of 32 bits. -/
def sampleLocked : Guest.Instruction where
  lead := .lock
  mnemonic := .op .inc
  operands :=
    { first := some (.mem { base := some (.general .rbx), index := some (.general .rcx), scale := .x8,
                            addressSize := .s32, segment := some .ds } .s16) }

section
attribute [local instance] Linkage.standard

theorem selects_exactly_sample : ∃ compiled k, (compile ⟨[sampleLocked]⟩).2 = .ok compiled ∧ sampleLocked.Supported ∧
    .instr k ∈ compiled.nodes ∧ k.lead = .lock ∧ ∃ m, k.operands.first = some (.mem m) := by
  obtain ⟨_, faithful, _, _, compiles⟩ := selects_exactly
  obtain ⟨compiled, ok⟩ : ∃ compiled, (compile ⟨[sampleLocked]⟩).2 = .ok compiled := exists_of_isOk (by decide +kernel)
  obtain ⟨locks, carries⟩ := compiles _ _ ok
  obtain ⟨supported, j, selected, inside, _⟩ := carries sampleLocked (List.mem_singleton.mpr rfl)
  have locked : (Lowering.carried compiled.usage j).lead = .lock :=
    Lowering.lead_carried.trans (faithful _ _ selected).lead
  exact ⟨compiled, _, ok, supported, inside, locked, (locks _ inside locked).2⟩

end

end Rehost
