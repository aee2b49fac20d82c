import Rehost.Guest.Interpreter
import Rehost.Machine.State
import Rehost.Proofs.Form
import Rehost.Selection

/-!
# What selection keeps

A selected operand says the same as the guest operand it comes from: the same register or value, or the
same address (`Selected`). No selected operand names the stack pointer.
-/

namespace Rehost

open Guest.Interpreter (address? addressPart? location? count? destinationWidth? Location)

/-! ### Slots -/

/-- Slots that are filled alike, with entries in a relation. -/
structure Slots.Rel {α β : Type} (R : α → β → Prop) (a : Slots α) (b : Slots β) : Prop where
  first : Option.Rel R a.first b.first
  second : Option.Rel R a.second b.second
  third : Option.Rel R a.third b.third
  fourth : Option.Rel R a.fourth b.fourth

namespace Slots

variable {α β ε : Type} {f : α → Except ε β} {R S : α → β → Prop} {a : Slots α} {b : Slots β}

theorem mapSlot_iff {a : Option α} {b : Option β} :
    mapSlot f a = .ok b ↔ Option.Rel (fun x y => f x = .ok y) a b := by
  constructor
  · intro ok
    cases a with
    | none => cases ok; exact .none
    | some x =>
      obtain ⟨y, found, same⟩ := ok_of_bind ok
      cases same
      exact .some found
  · intro related
    cases related with
    | none => rfl
    | some found => simp [mapSlot, found, bind, Except.bind, pure, Except.pure]

theorem mapM_iff : a.mapM f = .ok b ↔ Rel (fun x y => f x = .ok y) a b := by
  constructor
  · intro ok
    obtain ⟨first, firstOk, ok⟩ := ok_of_bind ok
    obtain ⟨second, secondOk, ok⟩ := ok_of_bind ok
    obtain ⟨third, thirdOk, ok⟩ := ok_of_bind ok
    obtain ⟨fourth, fourthOk, ok⟩ := ok_of_bind ok
    cases ok
    exact ⟨mapSlot_iff.mp firstOk, mapSlot_iff.mp secondOk, mapSlot_iff.mp thirdOk, mapSlot_iff.mp fourthOk⟩
  · rintro ⟨first, second, third, fourth⟩
    simp [mapM, mapSlot_iff.mpr first, mapSlot_iff.mpr second, mapSlot_iff.mpr third, mapSlot_iff.mpr fourth, bind,
      Except.bind, pure, Except.pure]

theorem Rel.mono (related : Rel R a b) (weaker : ∀ x y, R x y → S x y) : Rel S a b := by
  have slot {x : Option α} {y : Option β} (here : Option.Rel R x y) : Option.Rel S x y := by
    cases here with
    | none => exact .none
    | some found => exact .some (weaker _ _ found)
  exact ⟨slot related.first, slot related.second, slot related.third, slot related.fourth⟩

/-- Every entry of the second slots comes from one of the first. -/
theorem Rel.exists_of_mem (related : Rel R a b) {y : β} (member : y ∈ b.operands) : ∃ x ∈ a.operands, R x y := by
  have slot {one : Option α} {other : Option β} (here : Option.Rel R one other) (same : some y = other) :
      ∃ x, some x = one ∧ R x y := by
    subst same
    cases here with
    | some found => exact ⟨_, rfl, found⟩
  simp only [operands, toList, List.mem_filterMap, id, exists_eq_right, List.mem_cons, List.not_mem_nil,
    or_false] at member ⊢
  rcases member with here | here | here | here
  · obtain ⟨x, same, found⟩ := slot related.first here
    exact ⟨x, .inl same, found⟩
  · obtain ⟨x, same, found⟩ := slot related.second here
    exact ⟨x, .inr (.inl same), found⟩
  · obtain ⟨x, same, found⟩ := slot related.third here
    exact ⟨x, .inr (.inr (.inl same)), found⟩
  · obtain ⟨x, same, found⟩ := slot related.fourth here
    exact ⟨x, .inr (.inr (.inr same)), found⟩

end Slots

/-! ### Operands -/

namespace Host.Operand

/-- Whether an operand names a register, by itself or in an address. -/
def Names (r : Reg) : Operand → Prop
  | reg s => s.reg = r
  | mem m => m.base = some r ∨ m.index = some r
  | imm _ _ => False
  | label _ => False

/-- Where direct execution finds the value of an operand. -/
def location (regs : RegFile) : Operand → Location
  | reg r => .reg r.reg r.high
  | mem m => .memory (m.address regs)
  | imm v _ => .value v
  | label _ => .value 0

end Host.Operand

/-- Whether an operand names a register, by itself or in an address. -/
def Guest.Operand.Names (r : Reg) : Guest.Operand → Prop
  | .reg s _ _ => s = .general r
  | .mem m _ => m.base = some (.general r) ∨ m.index = some (.general r)
  | .imm _ _ => False

namespace Selection

/-- The host operand that a guest operand becomes. -/
inductive Selected : Guest.Operand → Host.Operand → Prop where
  | reg {r : Reg} {size : Guest.Size} {high : Bool} {w : Width} (width : size.width? = some w)
      (free : r ≠ .rsp) : Selected (.reg (.general r) size high) (.reg ⟨r, w, high⟩)
  | imm (v : Word) {size : Guest.Size} {w : Width} (width : size.width? = some w) :
      Selected (.imm v size) (.imm v w)
  | mem {m : Guest.Mem} {size : Guest.Size} {n : Host.Mem} (width : size.width? = some n.width)
      (address : ∀ regs, address? regs m = some (n.address regs))
      (base : m.base = n.base.map .general) (index : m.index = n.index.map .general)
      (baseFree : n.base ≠ some .rsp) (indexFree : n.index ≠ some .rsp) : Selected (.mem m size) (.mem n)

theorem width?_of_width {size : Guest.Size} {w : Width} (ok : width size = .ok w) :
    size.width? = some w := by
  unfold width at ok
  split at ok
  next found => cases ok; exact found
  next => cases ok

theorem general_of_register {register : Guest.Register} {r : Reg} (ok : Selection.register register = .ok r) :
    register = .general r ∧ r ≠ .rsp := by
  unfold Selection.register at ok
  split at ok
  next s =>
    split at ok
    · cases ok
    next free => cases ok; exact ⟨rfl, free⟩
  next => cases ok

theorem general_of_optionalRegister {register : Option Guest.Register} {r : Option Reg}
    (ok : optionalRegister register = .ok r) : register = r.map .general ∧ r ≠ some .rsp := by
  cases register with
  | none => cases ok; exact ⟨rfl, nofun⟩
  | some register =>
    obtain ⟨r, found, same⟩ := ok_of_bind ok
    cases same
    obtain ⟨rfl, free⟩ := general_of_register found
    exact ⟨rfl, fun same => free (Option.some.inj same)⟩

theorem addressPart?_map (regs : RegFile) (r : Option Reg) :
    addressPart? regs (r.map .general) = some (r.elim 0 regs.get) := by
  cases r <;> rfl

/-- What a selected operand in memory is made of. -/
theorem memory_ok {m : Guest.Mem} {size : Guest.Size} {n : Host.Mem} (ok : memory m size = .ok n) :
    ¬(m.segment = some .fs ∨ m.segment = some .gs) ∧ m.scale ≠ .x16 ∧
      ∃ narrow base index w, addr32 m.addressSize = .ok narrow ∧ optionalRegister m.base = .ok base ∧
        optionalRegister m.index = .ok index ∧ width size = .ok w ∧
        n = ⟨base, index, m.scale.factor, m.displacement, w, narrow⟩ := by
  have plain : ¬(m.segment = some .fs ∨ m.segment = some .gs) := by
    intro segment
    simp [memory, segment, throw, throwThe, MonadExceptOf.throw, bind, Except.bind] at ok
  simp only [memory, plain, if_false] at ok
  obtain ⟨narrow, addressed, ok⟩ := ok_of_bind ok
  have scaled : m.scale ≠ .x16 := by
    intro scale
    simp [scale, throw, throwThe, MonadExceptOf.throw, bind, Except.bind] at ok
  simp only [scaled, if_false] at ok
  obtain ⟨base, foundBase, ok⟩ := ok_of_bind ok
  obtain ⟨index, foundIndex, ok⟩ := ok_of_bind ok
  obtain ⟨w, width, ok⟩ := ok_of_bind ok
  cases ok
  exact ⟨plain, scaled, narrow, base, index, w, addressed, foundBase, foundIndex, width, rfl⟩

theorem selected_of_memory {m : Guest.Mem} {size : Guest.Size} {n : Host.Mem}
    (ok : memory m size = .ok n) : Selected (.mem m size) (.mem n) := by
  obtain ⟨plain, _, narrow, base, index, w, addressed, foundBase, foundIndex, width, rfl⟩ := memory_ok ok
  obtain ⟨baseIs, baseFree⟩ := general_of_optionalRegister foundBase
  obtain ⟨indexIs, indexFree⟩ := general_of_optionalRegister foundIndex
  refine .mem (width?_of_width width) (fun regs => ?_) baseIs indexIs baseFree indexFree
  unfold addr32 at addressed
  simp only [address?, plain, if_false, baseIs, indexIs, addressPart?_map, Host.Mem.address]
  cases size : m.addressSize.resolve with
  | s64 | s32 =>
    rw [size] at addressed
    cases addressed
    rfl
  | _ =>
    rw [size] at addressed
    cases addressed

theorem selected_of_operand {g : Guest.Operand} {h : Host.Operand} (ok : operand g = .ok h) :
    Selected g h := by
  cases g with
  | reg r size high =>
    obtain ⟨w, width, sized⟩ := ok_of_bind ok
    obtain ⟨s, found, named⟩ := ok_of_bind sized
    obtain ⟨rfl, free⟩ := general_of_register found
    by_cases absent : high = true ∧ ¬(w = .b8 ∧ s.val < 4)
    · simp only [if_pos absent] at named
      cases named
    · simp only [if_neg absent] at named
      cases named
      exact .reg (width?_of_width width) free
  | imm v size =>
    obtain ⟨w, width, ok⟩ := ok_of_bind ok
    cases ok
    exact .imm v (width?_of_width width)
  | mem m size =>
    obtain ⟨n, found, ok⟩ := ok_of_bind ok
    cases ok
    exact selected_of_memory found

section
variable {g : Guest.Operand} {h : Host.Operand} (selected : Selected g h)
include selected

theorem Selected.destinationWidth? : destinationWidth? g = h.width? := by
  cases selected with
  | reg width free => exact width
  | imm v width => rfl
  | mem width => exact width

theorem Selected.isMem : g.isMem = h.isMem := by
  cases selected <;> rfl

theorem Selected.location? {w : Width} (fits : h.Fits w) (regs : RegFile) :
    location? regs w g = some (h.location regs) := by
  cases selected with
  | reg width free =>
    cases fits
    simp [Guest.Interpreter.location?, width, Host.Operand.location]
  | imm v width => rfl
  | mem width address =>
    cases fits
    simp [Guest.Interpreter.location?, width, address, Host.Operand.location]

theorem Selected.not_names_rsp : ¬ h.Names .rsp := by
  cases selected with
  | reg width free => exact free
  | imm v width => exact id
  | mem width address base index baseFree indexFree => exact fun named => named.elim baseFree indexFree

theorem Selected.names_iff (r : Reg) : g.Names r ↔ h.Names r := by
  cases selected with
  | reg width free => simp [Guest.Operand.Names, Host.Operand.Names]
  | imm v width => exact Iff.rfl
  | mem width address base index =>
    simp [Guest.Operand.Names, Host.Operand.Names, base, index]

end

/-! ### Whole instructions -/

/-- Operands of the one instruction and the other, slot by slot. -/
structure SelectedSlots (g : Slots Guest.Operand) (h : Slots Host.Operand) : Prop where
  first : Option.Rel Selected g.first h.first
  second : Option.Rel Selected g.second h.second
  third : Option.Rel Selected g.third h.third
  fourth : Option.Rel Selected g.fourth h.fourth

theorem SelectedSlots.none {g : Slots Guest.Operand} (selected : SelectedSlots g {}) : g = {} := by
  obtain ⟨first, second, third, fourth⟩ := selected
  obtain ⟨_, _, _, _⟩ := g
  cases first; cases second; cases third; cases fourth
  rfl

theorem SelectedSlots.one {g : Slots Guest.Operand} {dst : Host.Operand}
    (selected : SelectedSlots g { first := some dst }) :
    ∃ a, g = { first := some a } ∧ Selected a dst := by
  obtain ⟨first, second, third, fourth⟩ := selected
  obtain ⟨_, _, _, _⟩ := g
  cases second; cases third; cases fourth
  cases first with
  | some first => exact ⟨_, rfl, first⟩

theorem SelectedSlots.two {g : Slots Guest.Operand} {dst src : Host.Operand}
    (selected : SelectedSlots g { first := some dst, second := some src }) :
    ∃ a b, g = { first := some a, second := some b } ∧ Selected a dst ∧ Selected b src := by
  obtain ⟨first, second, third, fourth⟩ := selected
  obtain ⟨_, _, _, _⟩ := g
  cases third; cases fourth
  cases first with
  | some first =>
    cases second with
    | some second => exact ⟨_, _, rfl, first, second⟩

theorem selectedSlots_of_mapM {g : Slots Guest.Operand} {h : Slots Host.Operand}
    (ok : g.mapM operand = .ok h) : SelectedSlots g h := by
  obtain ⟨first, second, third, fourth⟩ := (Slots.mapM_iff.mp ok).mono fun _ _ => selected_of_operand
  exact ⟨first, second, third, fourth⟩

theorem operands_ok_iff {lead : Prefix} {operation : Operation} {g : Slots Guest.Operand} {h : Slots Host.Operand} :
    operands lead operation g = .ok h ↔
      g.mapM operand = .ok h ∧ (lead = .lock → checkLock operation h = .ok ()) := by
  constructor
  · intro ok
    obtain ⟨found, mapped, ok⟩ := ok_of_bind ok
    by_cases locked : lead = .lock
    · simp only [if_pos locked] at ok
      obtain ⟨_, checked, ok⟩ := ok_of_bind ok
      cases ok
      exact ⟨mapped, fun _ => checked⟩
    · simp only [if_neg locked] at ok
      cases ok
      exact ⟨mapped, fun lock => absurd lock locked⟩
  · rintro ⟨mapped, lock⟩
    by_cases locked : lead = .lock
    · simp [operands, mapped, locked, lock locked, bind, Except.bind, pure, Except.pure]
    · simp [operands, mapped, locked, bind, Except.bind, pure, Except.pure]

/-- A selected instruction is of the same operation, and its operands are selected one by one. -/
theorem select_ok {i : Guest.Instruction} {j : Host.Instr} (ok : select i = .ok j) :
    ∃ operation, i.mnemonic = .op operation ∧ j.opcode = .op operation ∧ i.operands.mapM operand = .ok j.operands := by
  obtain ⟨operation, named, ok⟩ := ok_of_bind ok
  have mnemonic : i.mnemonic = .op operation := by
    unfold Selection.operation at named
    split at named
    next found => cases named; exact found
    next => cases named
  split at ok
  next operands found =>
    cases ok
    exact ⟨operation, mnemonic, rfl, (operands_ok_iff.mp found).1⟩
  next => cases ok

/-- A selected instruction is of the same operation, on the same operands. -/
theorem selected_of_select {i : Guest.Instruction} {j : Host.Instr} (ok : select i = .ok j) :
    ∃ operation, i.mnemonic = .op operation ∧ j.opcode = .op operation ∧ SelectedSlots i.operands j.operands := by
  obtain ⟨operation, mnemonic, opcode, mapped⟩ := select_ok ok
  exact ⟨operation, mnemonic, opcode, selectedSlots_of_mapM mapped⟩

end Selection

end Rehost
