import Rehost.Lowering
import Rehost.Proofs.Footprint
import Rehost.Proofs.Interpretation
import Rehost.Proofs.Linking

/-!
# What is compiled

A queue that compiles consists of instructions that are selected, of a form that can be encoded, and
lowered one by one (`accepted_of_compile`). An instruction stands for itself in the code if it accesses no
memory; otherwise its round trip does, in which the operand in memory is replaced by a slot of the context
(`Lowered`).
-/

namespace Rehost

open Host (Instr Node Operand Formed Paired)
open Guest (Context)

/-! ### The operand in memory -/

namespace Host

/-- The operand at a position is this one in memory. -/
def Placed (operands : Slots Operand) (position : Nat) (m : Mem) : Prop :=
  position = 0 ∧ operands.first = some (.mem m) ∨ position = 1 ∧ operands.second = some (.mem m)

theorem Formed.narrow {operation : Operation} {operands : Slots Operand} (formed : Formed operation operands) :
    operands.third = none ∧ operands.fourth = none := by
  unfold Formed at formed
  split at formed
  · subst formed; exact ⟨rfl, rfl⟩
  · obtain ⟨r, m, rfl⟩ := formed; exact ⟨rfl, rfl⟩
  · obtain ⟨dst, w, rfl, _⟩ := formed; exact ⟨rfl, rfl⟩
  · obtain ⟨dst, count, w, rfl, _⟩ := formed; exact ⟨rfl, rfl⟩
  · obtain ⟨dst, src, w, rfl, _⟩ := formed; exact ⟨rfl, rfl⟩
  · obtain ⟨dst, src, w, rfl, _⟩ := formed; exact ⟨rfl, rfl⟩

section
variable {w : Width} {m n : Mem} (width : n.width = m.width)
include width

theorem Paired.set_dst {src : Operand} (paired : Paired w (.mem m) src) : Paired w (.mem n) src :=
  ⟨by rw [← paired.destination, Operand.width?, Operand.width?, width], paired.source, paired.apart⟩

theorem Paired.set_src {dst : Operand} (paired : Paired w dst (.mem m)) : Paired w dst (.mem n) :=
  ⟨paired.destination, width.trans paired.source, paired.apart⟩

/-- Another place in memory of the same width makes no difference to the form. -/
theorem Formed.set {operation : Operation} {operands : Slots Operand} {position : Nat}
    (formed : Formed operation operands) (accesses : operation ≠ .lea)
    (placed : Placed operands position m) : Formed operation (operands.set position (.mem n)) := by
  have sameWidth : Operand.width? (.mem n) = Operand.width? (.mem m) := congrArg some width
  unfold Formed at formed ⊢
  cases action : operation.action with
  | idle =>
    rw [action] at formed
    subst formed
    obtain ⟨_, none⟩ | ⟨_, none⟩ := placed <;> cases none
  | address => exact absurd (Machine.eq_lea_of_action action) accesses
  | unary f =>
    rw [action] at formed
    obtain ⟨dst, w, rfl, fits⟩ := formed
    obtain ⟨rfl, same⟩ | ⟨rfl, same⟩ := placed
    · cases same
      exact ⟨.mem n, w, rfl, sameWidth.trans fits⟩
    · cases same
  | shift f =>
    rw [action] at formed
    obtain ⟨dst, count, w, rfl, fits, isCount⟩ := formed
    obtain ⟨rfl, same⟩ | ⟨rfl, same⟩ := placed
    · cases same
      exact ⟨.mem n, count, w, rfl, sameWidth.trans fits, isCount⟩
    · cases same
      exact isCount.elim
  | swap =>
    rw [action] at formed
    obtain ⟨dst, src, w, rfl, paired, srcWidth⟩ := formed
    obtain ⟨rfl, same⟩ | ⟨rfl, same⟩ := placed
    · cases same
      exact ⟨.mem n, src, w, rfl, paired.set_dst width, srcWidth⟩
    · cases same
      exact ⟨dst, .mem n, w, rfl, paired.set_src width, sameWidth.trans srcWidth⟩
  | move | binary | compare =>
    rw [action] at formed
    obtain ⟨dst, src, w, rfl, paired⟩ := formed
    obtain ⟨rfl, same⟩ | ⟨rfl, same⟩ := placed
    · cases same
      exact ⟨.mem n, src, w, rfl, paired.set_dst width⟩
    · cases same
      exact ⟨dst, .mem n, w, rfl, paired.set_src width⟩

end

/-- What the form says of the operand in memory: there is one at most, and operands are used at its
width. -/
structure Regular (operands : Slots Operand) : Prop where
  apart : ∀ m n, operands.first = some (.mem m) → operands.second ≠ some (.mem n)
  width : ∀ position m, Placed operands position m → m.width = operands.width

theorem Paired.regular {w : Width} {dst src : Operand} (paired : Paired w dst src) :
    Regular { first := some dst, second := some src } := by
  constructor
  · rintro m n first second
    cases first
    cases second
    exact paired.apart ⟨rfl, rfl⟩
  · rintro position m (⟨_, first⟩ | ⟨_, second⟩)
    · cases first
      rfl
    · cases second
      exact paired.source.trans (Machine.width_eq paired.destination _ _ _).symm

theorem Formed.regular {operation : Operation} {operands : Slots Operand} (formed : Formed operation operands)
    (accesses : operation ≠ .lea) : Regular operands := by
  unfold Formed at formed
  cases action : operation.action with
  | idle =>
    rw [action] at formed
    subst formed
    constructor
    · intro m n first; cases first
    · rintro position m (⟨_, none⟩ | ⟨_, none⟩) <;> cases none
  | address => exact absurd (Machine.eq_lea_of_action action) accesses
  | unary f =>
    rw [action] at formed
    obtain ⟨dst, w, rfl, _⟩ := formed
    constructor
    · intro m n _ second; cases second
    · rintro position m (⟨_, first⟩ | ⟨_, second⟩)
      · cases first; rfl
      · cases second
  | shift f =>
    rw [action] at formed
    obtain ⟨dst, count, w, rfl, _, isCount⟩ := formed
    constructor
    · intro m n _ second; cases second; exact isCount
    · rintro position m (⟨_, first⟩ | ⟨_, second⟩)
      · cases first; rfl
      · cases second; exact isCount.elim
  | swap =>
    rw [action] at formed
    obtain ⟨dst, src, w, rfl, paired, _⟩ := formed
    exact paired.regular
  | move | binary | compare =>
    rw [action] at formed
    obtain ⟨dst, src, w, rfl, paired⟩ := formed
    exact paired.regular

/-- Where the operand in memory lies. -/
theorem Placed.address {operands : Slots Operand} {position : Nat} {m : Mem} (placed : Placed operands position m)
    (regular : Regular operands) (regs : RegFile) : operands.address regs = m.address regs := by
  obtain ⟨_, first⟩ | ⟨_, second⟩ := placed
  · simp [Slots.address, first]
  · have other (n : Mem) : operands.first ≠ some (.mem n) := fun first => regular.apart n m first second
    unfold Slots.address
    split
    next n first => exact absurd first (other n)
    next n same _ =>
      cases second.symm.trans same
      rfl
    next _ missing => exact absurd second (missing m)

end Host

/-! ### Which accesses are made -/

/-- How an action uses memory, by where its operand in memory stands. -/
def Action.transfers (action : Action) (position : Nat) : Bool × Bool :=
  if position = 0 then
    match action with
    | .idle => (false, false)
    | .address | .move => (false, true)
    | .compare _ => (true, false)
    | .unary _ | .binary _ | .shift _ | .swap => (true, true)
  else
    match action with
    | .swap => (true, true)
    | _ => (true, false)

theorem transfers_operationEffects (operation : Operation) (position : Nat) :
    Lowering.transfers (Host.operationEffects operation) position = operation.action.transfers position := by
  unfold Lowering.transfers Action.transfers
  cases operation <;> rfl

/-- The accesses that lowering provides for are those that direct execution makes. -/
theorem transfers_eq {operation : Operation} {operands : Slots Operand} {position : Nat} {m : Host.Mem}
    (formed : Formed operation operands) (accesses : operation ≠ .lea)
    (placed : Host.Placed operands position m) (regs : RegFile) :
    Lowering.transfers (Host.operationEffects operation) position =
      (operation.action.reads (.ofDst operands) (.ofSrc operation regs operands),
        operation.action.writes (.ofDst operands) (.ofSrc operation regs operands)) := by
  rw [transfers_operationEffects]
  have apart := (formed.regular accesses).apart
  unfold Formed at formed
  cases action : operation.action with
  | idle =>
    rw [action] at formed
    subst formed
    obtain ⟨_, none⟩ | ⟨_, none⟩ := placed <;> cases none
  | address => exact absurd (Machine.eq_lea_of_action action) accesses
  | unary f =>
    rw [action] at formed
    obtain ⟨dst, w, rfl, _⟩ := formed
    obtain ⟨rfl, same⟩ | ⟨rfl, same⟩ := placed
    · cases same; rfl
    · cases same
  | shift f =>
    rw [action] at formed
    obtain ⟨dst, count, w, rfl, _, isCount⟩ := formed
    obtain ⟨rfl, same⟩ | ⟨rfl, same⟩ := placed
    · cases same; rfl
    · cases same; exact isCount.elim
  | swap | move | binary | compare =>
    rw [action] at formed
    obtain ⟨dst, src, w, rfl, paired⟩ := formed
    rw [Machine.ofSrc_eq accesses]
    obtain ⟨rfl, same⟩ | ⟨rfl, same⟩ := placed
    · cases same
      have other : Spot.ofOperand src ≠ .cell := by
        intro cell
        cases src with
        | mem n => exact apart m n rfl rfl
        | _ => cases cell
      simp [Action.transfers, Action.reads, Action.writes, Spot.ofDst, other]
    · cases same
      have other : Spot.ofOperand dst ≠ .cell := by
        intro cell
        cases dst with
        | mem n => exact apart n m rfl rfl
        | _ => cases cell
      simp [Action.transfers, Action.reads, Action.writes, Spot.ofDst, other]

/-- An operation without an operand in memory accesses none. -/
theorem no_transfers {operation : Operation} {operands : Slots Operand}
    (direct : operation ≠ .lea → ∀ m, operands.first ≠ some (.mem m) ∧ operands.second ≠ some (.mem m))
    (regs : RegFile) :
    operation.action.reads (.ofDst operands) (.ofSrc operation regs operands) = false ∧
      operation.action.writes (.ofDst operands) (.ofSrc operation regs operands) = false := by
  by_cases lea : operation = .lea
  · subst lea
    exact ⟨rfl, rfl⟩
  · have dst : Spot.ofDst operands ≠ .cell := by
      intro cell
      cases first : operands.first with
      | none => simp [Spot.ofDst, first] at cell
      | some operand =>
        cases operand with
        | mem m => exact (direct lea m).1 first
        | _ => simp [Spot.ofDst, first, Spot.ofOperand] at cell
    have src : Spot.ofSrc operation regs operands ≠ .cell := by
      intro cell
      cases second : operands.second with
      | none => simp [Spot.ofSrc, second] at cell
      | some operand =>
        cases operand with
        | mem m => exact (direct lea m).2 second
        | _ => simp [Spot.ofSrc, second, Spot.ofOperand] at cell
    constructor
    · cases operation.action <;> simp [Action.reads, dst, src]
    · cases operation.action <;> simp [Action.writes, dst, src]

/-! ### One instruction -/

namespace Lowering

/-- What stands for an operand in memory: the slot for the value of an access. -/
def valueMem (usage : Usage) (m : Host.Mem) : Host.Mem where
  base := some usage.base
  displacement := BitVec.ofNat 32 Context.Slot.accessValue.offset
  width := m.width

/-- The code of an instruction, and the form it must have had. -/
inductive Lowered [Linkage] (usage : Usage) (operation : Operation) (i : Instr) : List Node → Prop where
  | plain (formed : Formed operation i.operands) (direct : i.memory? = none ∨ operation = .lea) :
      Lowered usage operation i [.instr i]
  | trip {position : Nat} {m : Host.Mem} (formed : Formed operation i.operands) (accesses : operation ≠ .lea)
      (found : i.memory? = some (position, m)) (placed : Host.Placed i.operands position m) :
      Lowered usage operation i (access usage i position m)

theorem Lowered.formed [Linkage] {usage : Usage} {operation : Operation} {i : Instr} {code : List Node}
    (lowered : Lowered usage operation i code) : Formed operation i.operands := by
  cases lowered <;> assumption

theorem memory?_eq_none {i : Instr} (none : i.memory? = none) (m : Host.Mem) :
    i.operands.first ≠ some (.mem m) ∧ i.operands.second ≠ some (.mem m) := by
  rw [Instr.memory?, Instr.memories, List.head?_filterMap, List.findSome?_eq_none_iff] at none
  constructor
  · intro first
    have found := none (i.operands.first, 0) (List.mem_zipIdx_iff_getElem?.mpr rfl)
    simp [first, Operand.mem?] at found
  · intro second
    have found := none (i.operands.second, 1) (List.mem_zipIdx_iff_getElem?.mpr rfl)
    simp [second, Operand.mem?] at found

theorem memory?_eq_some {i : Instr} {position : Nat} {m : Host.Mem} (found : i.memory? = some (position, m)) :
    i.operands.toList[position]? = some (some (.mem m)) := by
  rw [Instr.memory?, Instr.memories, List.head?_filterMap] at found
  obtain ⟨⟨operand, k⟩, member, same⟩ := List.exists_of_findSome?_eq_some found
  rw [List.mem_zipIdx_iff_getElem?] at member
  cases operand with
  | none => cases same
  | some operand =>
    cases operand with
    | mem n => cases same; exact member
    | _ => cases same

theorem accessesMemory_eq (operation : Operation) :
    (Host.operationEffects operation).accessesMemory = decide (operation ≠ .lea) := by
  cases operation <;> rfl

/-- An instruction that can be encoded with another place for its operand in memory has that operand
first or second, and is formed itself. -/
theorem formed_of_set {operation : Operation} {operands : Slots Operand} {position : Nat} {m n : Host.Mem}
    (accesses : operation ≠ .lea) (found : operands.toList[position]? = some (some (.mem m)))
    (width : m.width = n.width) (formed : Formed operation (operands.set position (.mem n))) :
    Host.Placed operands position m ∧ Formed operation operands := by
  obtain ⟨first, second, third, fourth⟩ := operands
  match position with
  | 0 =>
    cases found
    exact ⟨.inl ⟨rfl, rfl⟩, Host.Formed.set width formed accesses (.inl ⟨rfl, rfl⟩)⟩
  | 1 =>
    cases found
    exact ⟨.inr ⟨rfl, rfl⟩, Host.Formed.set width formed accesses (.inr ⟨rfl, rfl⟩)⟩
  | 2 => cases formed.narrow.1
  | 3 => cases formed.narrow.2
  | _ + 4 => cases found

theorem lowered_of_instruction [Linkage] {usage : Usage} {operation : Operation} {i : Instr} {nodes : List Node}
    (opcode : i.opcode = .op operation) (ok : instruction usage i = .ok nodes)
    (encoded : ∀ j, .instr j ∈ nodes → ∃ code, Host.Encoding.piece j = .ok code) :
    Lowered usage operation i nodes := by
  have formed (j : Instr) (same : j.opcode = .op operation) (member : .instr j ∈ nodes) :
      Formed operation j.operands := by
    obtain ⟨code, piece⟩ := encoded j member
    obtain ⟨lead, _, operands⟩ := j
    cases same
    exact Host.formed_of_piece piece
  unfold instruction at ok
  split at ok
  next none =>
    cases ok
    exact .plain (formed i opcode (List.mem_singleton.mpr rfl)) (.inl none)
  next position m found =>
    split at ok
    next direct =>
      cases ok
      refine .plain (formed i opcode (List.mem_singleton.mpr rfl)) (.inr ?_)
      simpa [opcode, Host.Opcode.effects, accessesMemory_eq] using direct
    next accessed =>
      have accesses : operation ≠ .lea := by
        simpa [opcode, Host.Opcode.effects, accessesMemory_eq] using accessed
      split at ok
      · cases ok
      · cases ok
        have replaced := formed { i with operands := i.operands.set position (.mem (valueMem usage m)) } opcode
          (by simp [access, Operand.based, valueMem])
        obtain ⟨placed, formed⟩ :=
          formed_of_set (n := valueMem usage m) accesses (memory?_eq_some found) rfl replaced
        exact .trip formed accesses found placed

/-! ### The body -/

/-- What an instruction of the program and its host instruction have in common, and what of it the usage
covers. -/
structure Translated (usage : Usage) (i : Guest.Instruction) (j : Instr) (operation : Operation) : Prop where
  mnemonic : i.mnemonic = .op operation
  opcode : j.opcode = .op operation
  operands : Selection.SelectedSlots i.operands j.operands
  named : ∀ operand ∈ j.operands.operands, ∀ r, operand.Names r → r ∈ usage.read
  flagsRead : Flag.Within (Host.operationEffects operation).flagsRead usage.flagsIn
  flagsWritten : Flag.Within (Host.operationEffects operation).flagsWritten usage.flagsOut
  touches : operation ≠ .lea → ∀ m, .mem m ∈ j.operands.operands → usage.touchesMemory = true

/-- A program, the host instructions selected for it, and the code these are lowered to. -/
inductive Body [Linkage] (usage : Usage) : List Guest.Instruction → List Instr → List Node → Prop where
  | nil : Body usage [] [] []
  | cons {i : Guest.Instruction} {j : Instr} {operation : Operation} {code nodes : List Node}
      {program : List Guest.Instruction} {instrs : List Instr} (translated : Translated usage i j operation)
      (lowered : Lowered usage operation j code) (rest : Body usage program instrs nodes) :
      Body usage (i :: program) (j :: instrs) (code ++ nodes)

theorem selectAll_ok {program : List Guest.Instruction} {instrs : List Instr}
    (ok : Queue.selectAll program = (instrs, .ok ())) :
    program = [] ∧ instrs = [] ∨ ∃ i rest j others, program = i :: rest ∧ instrs = j :: others ∧
      select i = .ok j ∧ Queue.selectAll rest = (others, .ok ()) := by
  cases program with
  | nil => cases ok; exact .inl ⟨rfl, rfl⟩
  | cons i rest =>
    simp only [Queue.selectAll] at ok
    cases selected : select i with
    | error error => simp [selected] at ok
    | ok j =>
      simp only [selected] at ok
      obtain ⟨rfl, ended⟩ := Prod.mk.inj ok
      exact .inr ⟨i, rest, j, _, rfl, rfl, selected, by rw [← ended]⟩

theorem mem_operands {α : Type} {slots : Slots α} {a : α} :
    a ∈ slots.operands ↔ some a ∈ slots.toList := by
  simp [Slots.operands]

/-- Every host operand comes from a guest operand. -/
theorem selected_of_mem {g : Slots Guest.Operand} {h : Slots Operand} (selected : Selection.SelectedSlots g h)
    {operand : Operand} (member : operand ∈ h.operands) : ∃ guest ∈ g.operands, Selection.Selected guest operand := by
  have related : Slots.Rel Selection.Selected g h :=
    ⟨selected.first, selected.second, selected.third, selected.fourth⟩
  exact related.exists_of_mem member

theorem not_names_rsp_of_selectAll {program : List Guest.Instruction} {instrs : List Instr}
    (ok : Queue.selectAll program = (instrs, .ok ())) :
    ∀ i ∈ instrs, ∀ operand ∈ i.operands.operands, ¬ operand.Names .rsp := by
  induction program generalizing instrs with
  | nil =>
    cases ok
    intro i member
    cases member
  | cons i rest ih =>
    obtain ⟨same, _⟩ | ⟨_, _, j, others, same, rfl, selected, ok⟩ := selectAll_ok ok
    · cases same
    · cases same
      obtain ⟨_, _, _, slots⟩ := Selection.selected_of_select selected
      intro k member
      rcases List.mem_cons.mp member with rfl | later
      · intro operand present
        obtain ⟨_, _, found⟩ := selected_of_mem slots present
        exact found.not_names_rsp
      · exact ih ok k later

theorem body_of_ok [Linkage] {usage : Usage} {all instrs : List Instr} {program : List Guest.Instruction}
    {nodes : List Node} (footprint : usage.toFootprint = Footprint.ofBody all) (part : ∀ i ∈ instrs, i ∈ all)
    (selected : Queue.selectAll program = (instrs, .ok ())) (ok : body usage instrs = .ok nodes)
    (encoded : ∀ j, .instr j ∈ nodes → ∃ code, Host.Encoding.piece j = .ok code) :
    Body usage program instrs nodes := by
  induction program generalizing instrs nodes with
  | nil =>
    cases selected
    cases ok
    exact .nil
  | cons i rest ih =>
    obtain ⟨same, _⟩ | ⟨_, _, j, others, same, rfl, chosen, selected⟩ := selectAll_ok selected
    · cases same
    · cases same
      obtain ⟨code, here, ok⟩ := ok_of_bind ok
      obtain ⟨later, there, ok⟩ := ok_of_bind ok
      cases ok
      obtain ⟨operation, mnemonic, opcode, slots⟩ := Selection.selected_of_select chosen
      have member : j ∈ all := part j (List.mem_cons_self ..)
      have effects : j.opcode.effects = Host.operationEffects operation := by rw [opcode]; rfl
      refine .cons ⟨mnemonic, opcode, slots, ?_, ?_, ?_, ?_⟩
        (lowered_of_instruction opcode here fun j member => encoded j (List.mem_append_left _ member))
        (ih (fun i member => part i (List.mem_cons_of_mem _ member)) selected there
          fun j member => encoded j (List.mem_append_right _ member))
      · intro operand present r names
        rw [footprint]
        exact Footprint.mem_read.mpr ⟨j, member, operand, present, names⟩
      · intro k read
        rw [footprint]
        exact Footprint.bit_flagsIn.mpr ⟨j, member, by rw [effects]; exact read⟩
      · intro k written
        rw [footprint]
        exact Footprint.bit_flagsOut.mpr ⟨j, member, by rw [effects]; exact written⟩
      · intro accesses m present
        rw [footprint]
        refine Footprint.touchesMemory_of_mem member present ?_
        rw [effects, accessesMemory_eq]
        exact decide_eq_true accesses

/-- A register that a host instruction of a body names is one that an instruction of the program names. -/
theorem Body.names [Linkage] {usage : Usage} {program : List Guest.Instruction} {instrs : List Instr}
    {nodes : List Node} (body : Body usage program instrs nodes) {j : Instr} (member : j ∈ instrs) {operand : Operand}
    (present : operand ∈ j.operands.operands) {r : Reg} (names : operand.Names r) :
    ∃ i ∈ program, ∃ guest ∈ i.operands.operands, guest.Names r := by
  induction body with
  | nil => exact (List.not_mem_nil member).elim
  | @cons i _ _ _ _ _ _ translated _ _ ih =>
    rcases List.mem_cons.mp member with rfl | later
    · obtain ⟨guest, inside, selected⟩ := selected_of_mem translated.operands present
      exact ⟨i, List.mem_cons_self .., guest, inside, (selected.names_iff r).mpr names⟩
    · obtain ⟨k, inside, found⟩ := ih later
      exact ⟨k, List.mem_cons_of_mem _ inside, found⟩

end Lowering

/-! ### The whole function -/

/-- What it means that a program was compiled. -/
structure Accepted [Linkage] (program : List Guest.Instruction) (compiled : Compiled) (instrs : List Instr)
    (nodes : List Node) : Prop where
  selected : Queue.selectAll program = (instrs, .ok ())
  footprint : compiled.usage.toFootprint = Footprint.ofBody instrs
  fit : compiled.usage.Fit
  body : Lowering.Body compiled.usage program instrs nodes
  listing : compiled.nodes = Lowering.entry compiled.usage ++ nodes ++ Lowering.exit compiled.usage ++
    Lowering.fault compiled.usage
  assembled : Host.encode compiled.nodes = .ok compiled.code

/-- A register that a program does not name is not read by its code. -/
theorem Accepted.not_mem_read [Linkage] {program : List Guest.Instruction} {compiled : Compiled} {instrs : List Instr}
    {nodes : List Node} (accepted : Accepted program compiled instrs nodes) {r : Reg}
    (unnamed : ∀ i ∈ program, ∀ operand ∈ i.operands.operands, ¬ operand.Names r) : r ∉ compiled.usage.read := by
  intro read
  rw [accepted.footprint, Footprint.mem_read] at read
  obtain ⟨j, member, operand, present, names⟩ := read
  obtain ⟨i, inside, guest, there, named⟩ := accepted.body.names member present names
  exact unnamed i inside guest there named

/-- Compilation goes on with the host instructions once every instruction is selected. -/
theorem compile_of_selectAll [Linkage] {program : List Guest.Instruction} {instrs : List Instr}
    (selected : Queue.selectAll program = (instrs, .ok ())) : (compile ⟨program⟩).2 = compileInstrs instrs := by
  have taken : (Host.Listing.append {} (instrs.map .instr)).instrs = instrs := by
    simp [Host.Listing.append, Host.Listing.instrs, List.filterMap_map, Function.comp_def, Host.Node.instr?]
  simp only [compile, Queue.emit, selected, taken]

theorem selectAll_of_compile [Linkage] {queue : Queue} {compiled : Compiled} (ok : (compile queue).2 = .ok compiled) :
    ∃ instrs, Queue.selectAll queue.instructions = (instrs, .ok ()) := by
  simp only [compile, Queue.emit] at ok
  cases result : Queue.selectAll queue.instructions with
  | mk instrs ended =>
    simp only [result] at ok
    cases ended with
    | error error => cases ok
    | ok done => exact ⟨instrs, rfl⟩

/-- The stages of compiling host instructions. -/
theorem compileInstrs_ok [Linkage] {instrs : List Instr} {compiled : Compiled}
    (ok : compileInstrs instrs = .ok compiled) :
    Usage.ofBody instrs = .ok compiled.usage ∧ Lowering.function compiled.usage instrs = .ok compiled.nodes ∧
      Host.encode compiled.nodes = .ok compiled.code := by
  obtain ⟨usage, used, ok⟩ := ok_of_bind ok
  obtain ⟨nodes, lowered, ok⟩ := ok_of_bind ok
  split at ok
  next code assembled =>
    cases ok
    exact ⟨used, lowered, assembled⟩
  next => cases ok

theorem accepted_of_compile [Linkage] {queue : Queue} {compiled : Compiled} (ok : (compile queue).2 = .ok compiled) :
    ∃ instrs nodes, Accepted queue.instructions compiled instrs nodes := by
  obtain ⟨instrs, selected⟩ := selectAll_of_compile ok
  obtain ⟨used, lowered, assembled⟩ := compileInstrs_ok ((compile_of_selectAll selected).symm.trans ok)
  obtain ⟨nodes, body, lowered⟩ := ok_of_bind lowered
  have listing := Except.ok.inj lowered
  obtain ⟨items, encoded, _⟩ := ok_of_bind assembled
  obtain ⟨footprint, fit⟩ := Usage.fit_of_ofBody used (Lowering.not_names_rsp_of_selectAll selected)
  refine ⟨instrs, nodes, selected, footprint, fit, ?_, listing.symm, assembled⟩
  refine Lowering.body_of_ok footprint (fun i member => member) selected body fun j member => ?_
  exact Host.Encoding.encodable_of_items encoded (by simp [← listing, member])

end Rehost
