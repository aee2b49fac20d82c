import Rehost.Proofs.BaseChoice
import Rehost.Proofs.Confinement
import Rehost.Proofs.Encodable

/-!
# Acceptance is local

Whether a program compiles can be told from its instructions one by one (`acceptance_local`). The code around an
instruction always has an encoding (`assembles_leadIn`, `assembles_leadOut`), and so has the code around the body
(`assembles_entry`, `assembles_exit`, `assembles_fault`). What an instruction becomes depends on the base register, and
so on the rest of the program, but whether that has an encoding does not (`encodable_carried`).
-/

namespace Rehost

namespace Host

open Encoding

/-! ### Code that assembles -/

/-- Every instruction has an encoding, and branches to none but these labels. -/
def Assembles (labels : List Label) (nodes : List Node) : Prop :=
  ∀ i, .instr i ∈ nodes → i.Encodable ∧ ∀ l, i.BranchesTo l → l ∈ labels

namespace Assembles

variable {labels : List Label} {one two : List Node}

theorem nil : Assembles labels [] := fun _ member => (List.not_mem_nil member).elim

theorem append (first : Assembles labels one) (second : Assembles labels two) : Assembles labels (one ++ two) :=
  fun i member => (List.mem_append.mp member).elim (first i) (second i)

theorem cons {node : Node} (first : Assembles labels [node]) (others : Assembles labels two) :
    Assembles labels (node :: two) :=
  append first others

theorem ite {c : Prop} [Decidable c] (first : Assembles labels one) (second : Assembles labels two) :
    Assembles labels (if c then one else two) := by
  split
  · exact first
  · exact second

theorem map {α : Type} {f : α → Node} (each : ∀ a, Assembles labels [f a]) (list : List α) :
    Assembles labels (list.map f) := by
  intro i member
  obtain ⟨a, _, same⟩ := List.mem_map.mp member
  exact each a i (List.mem_singleton.mpr same.symm)

theorem label (l : Label) : Assembles labels [.label l] := by
  intro i member
  cases List.mem_singleton.mp member

theorem straight {i : Instr} (encodable : i.Encodable) (straight : branchOpcode i.opcode = none) :
    Assembles labels [.instr i] := by
  intro j member
  cases List.mem_singleton.mp member
  refine ⟨encodable, fun l branches => ?_⟩
  have branch := branchOpcode_isSome.mpr branches.1
  rw [straight] at branch
  cases branch

theorem branch {i : Instr} {l : Label} (encodable : i.Encodable) (target : i.operands.first = some (.label l))
    (known : l ∈ labels) : Assembles labels [.instr i] := by
  intro j member
  cases List.mem_singleton.mp member
  refine ⟨encodable, fun other branches => ?_⟩
  obtain rfl := Operand.label.inj (Option.some.inj (target.symm.trans branches.2))
  exact known

/-- Short code that assembles can be linked if it defines its labels. -/
theorem linkable {nodes : List Node} (assembles : Assembles labels nodes) (defined : ∀ l ∈ labels, .label l ∈ nodes)
    (short : codeSize nodes < 0x80000000) : Linkable nodes where
  encodable i member := (assembles i member).1
  defined i l member branches := defined l ((assembles i member).2 l branches)
  reaches := by
    rintro before i after l upto split _ ⟨rest, same, _⟩
    have first : codeSize (before ++ [.instr i]) ≤ codeSize nodes := by
      rw [split]
      simp only [codeSize_append, codeSize_cons, codeSize_nil]
      omega
    have second : codeSize upto ≤ codeSize nodes := by
      rw [same, codeSize_append]
      omega
    constructor <;> omega

end Assembles

end Host

open Host (Assembles Instr Linkable Node Operand codeSize)
open Host.Encoding
open Guest (Context)

namespace Lowering

/-! ### Inserted instructions -/

section
variable (usage : Usage) {labels : List Host.Label}

theorem low_reg (r : Reg) (w : Width) : (⟨r, w, false⟩ : Host.RegOperand).high = false := rfl

theorem plain_reg (r : Reg) (w : Width) : (Rm.reg ⟨r, w, false⟩).Plain := low_reg r w

theorem plain_based (base : Reg) (displacement : Nat) (w : Width) :
    (Rm.mem { base := some base, displacement := BitVec.ofNat 32 displacement, width := w }).Plain :=
  writable_based rfl

theorem assembles_op {operation : Operation} {dst src : Operand} (binary : arity (.op operation) = 2)
    (written : ∃ fields, twoOperands (.op operation) dst src = .ok fields) :
    Assembles labels [op operation dst src] :=
  .straight (Host.encodable_two rfl binary written) rfl

theorem assembles_move (dst src : Reg) : Assembles labels [op .mov (.full dst) (.full src)] :=
  assembles_op rfl (checked_of_plain (plain_reg dst .b64) (low_reg src .b64) rfl _)

theorem assembles_load (r : Reg) (s : Context.Slot) : Assembles labels [op .mov (.full r) (slot usage s)] :=
  assembles_op rfl (checked_of_plain (plain_based usage.base s.offset .b64) (low_reg r .b64) rfl _)

theorem assembles_store (s : Context.Slot) (r : Reg) : Assembles labels [op .mov (slot usage s) (.full r)] :=
  assembles_op rfl (checked_of_plain (plain_based usage.base s.offset .b64) (low_reg r .b64) rfl _)

theorem assembles_bare {opcode : Host.Opcode} (nullary : arity opcode = 0) :
    Assembles labels [.instr (.bare opcode)] := by
  have straight : branchOpcode opcode = none := by
    cases opcode with
    | jmp | jnz => cases nullary
    | _ => rfl
  refine .straight ?_ straight
  simp only [Instr.Encodable, Instr.bare, piece, nullary, straight]
  exact ⟨_, rfl⟩

theorem assembles_push (r : Reg) : Assembles labels [push (.full r)] :=
  .straight (Host.encodable_one rfl rfl ⟨_, rfl⟩) rfl

theorem assembles_pop (r : Reg) : Assembles labels [pop (.full r)] :=
  .straight (Host.encodable_one rfl rfl ⟨_, rfl⟩) rfl

/-- Arithmetic on a whole register with a constant. -/
theorem assembles_adjust {operation : Operation} {digit : BitVec 3} (named : arithmeticDigit operation = some digit)
    (r : Reg) {value : Word} (fits : immediateFits value .b64 = true) :
    Assembles labels [op operation (.full r) (constant value)] := by
  refine assembles_op (by cases operation <;> cases named <;> rfl) ?_
  simp only [twoOperands, named]
  exact arithmetic_immediate_of_plain rfl (plain_reg r .b64) digit fits _

theorem assembles_mask {displacement : Nat} (base : Reg) {value : Word} (fits : immediateFits value .b64 = true) :
    Assembles labels [op .and (.based base displacement .b64) (constant value)] := by
  have found : Rm.ofOperand? (.based base displacement .b64) = some (.mem _) := rfl
  exact assembles_op rfl (arithmetic_immediate_of_plain found (plain_based base displacement .b64) 4 fits .b64)

theorem assembles_loadRegisters : Assembles labels (loadRegisters usage) :=
  .map (fun r => assembles_load usage r (.gp r)) _

theorem assembles_storeRegisters : Assembles labels (storeRegisters usage) :=
  .map (fun r => assembles_store usage (.gp r) r) _

theorem assembles_syncOut : Assembles labels (syncOut usage) :=
  .cons (assembles_bare rfl) (assembles_storeRegisters usage)

theorem assembles_syncIn : Assembles labels (syncIn usage) :=
  .append (assembles_loadRegisters usage) (assembles_bare rfl)

theorem assembles_seedFlags : Assembles labels (seedFlags usage) := by
  have pushes : Assembles labels [push (slot usage .flags)] := by
    have digit : (RegField.digit 6).Plain := trivial
    have written := withRm_of_plain none 0xff [] digit (plain_based usage.base 0 .b64)
    exact .straight (Host.encodable_one rfl rfl written) rfl
  exact .cons pushes (.cons (assembles_mask .rsp (by decide)) (assembles_bare rfl))

theorem assembles_entry : Assembles labels (entry usage) := by
  refine .append (.append (.append ?_ ?_) ?_) (assembles_loadRegisters usage)
  · exact .map assembles_push _
  · exact .ite .nil (assembles_move _ _)
  · exact .ite (assembles_seedFlags usage) .nil

theorem assembles_call [Linkage] (known : faultExit ∈ labels) (direction : Direction) (w : Width) :
    Assembles labels (call usage direction w.bytes) := by
  have adjusts {operation : Operation} {digit : BitVec 3} (named : arithmeticDigit operation = some digit) :
      Assembles labels (if padding usage = 0 then []
        else [op operation (.full .rsp) (constant (BitVec.ofNat 64 (padding usage)))]) := by
    rcases (Machine.padding_cases usage).1 with none | word
    · rw [if_pos none]
      exact .nil
    · rw [if_neg (by omega), word]
      exact assembles_adjust named .rsp (by decide)
  have size : immediateFits (BitVec.ofNat 64 w.bytes) .b32 = true := by cases w <;> decide
  have sized : Assembles labels [op .mov (.half Host.Convention.secondArgument) (.imm (BitVec.ofNat 64 w.bytes) .b32)] :=
    assembles_op rfl (move_half _ size .b32)
  have address : Assembles labels [op .mov (.full .rax) (constant (Linkage.entryPoint direction))] :=
    assembles_op rfl (move_full _ _ .b64)
  have calls : Assembles labels [.instr (.one .call (.full .rax))] := by
    have digit : (RegField.digit 2).Plain := trivial
    have written := withRm_of_plain none 0xff [] digit (plain_reg .rax .b64)
    exact .straight (Host.encodable_one rfl rfl written) rfl
  have tests : Assembles labels [op .test (.half .rax) (.half .rax)] :=
    assembles_op rfl (checked_of_plain (plain_reg .rax .b32) (low_reg .rax .b32) rfl _)
  have branches : Assembles labels [.instr (.one .jnz (.label faultExit))] := .branch ⟨_, rfl⟩ rfl known
  refine .append (.append (.append (.append (.append (.append ?_ ?_) ?_) ?_) ?_) ?_) (.cons tests branches)
  · exact .ite (assembles_push _) .nil
  · exact adjusts rfl
  · exact .ite .nil (assembles_move _ _)
  · exact .cons sized (.cons address calls)
  · exact adjusts rfl
  · exact .ite (assembles_pop _) .nil

theorem assembles_storeFlags : Assembles labels (storeFlags usage) := by
  have merges : Assembles labels [op .or (slot usage .flags) (.full (scratch usage))] :=
    assembles_op rfl (checked_of_plain (plain_based usage.base 0 .b64) (low_reg (scratch usage) .b64) rfl _)
  exact .cons (assembles_pop _) (.cons (assembles_adjust rfl _ (by decide))
    (.cons (assembles_mask _ (by decide)) merges))

theorem assembles_exit : Assembles labels (exit usage) := by
  have clears : Assembles labels [op .xor (.half .rax) (.half .rax)] :=
    assembles_op rfl (checked_of_plain (plain_reg .rax .b32) (low_reg .rax .b32) rfl _)
  refine .append (.append (.append ?_ (.cons clears (.label _))) ?_) (assembles_bare rfl)
  · exact .ite (assembles_storeRegisters usage) (.append (assembles_syncOut usage) (assembles_storeFlags usage))
  · exact .map assembles_pop _

theorem assembles_fault (known : epilog ∈ labels) : Assembles labels (fault usage) := by
  have failed : Assembles labels [op .mov (.half .rax) (.imm (Access.failed.setWidth 64) .b32)] :=
    assembles_op rfl (move_half _ (by decide) .b32)
  have branches : Assembles labels [.instr (.one .jmp (.label epilog))] := .branch ⟨_, rfl⟩ rfl known
  exact .ite (.cons (.label _) (.cons (assembles_adjust rfl _ (by decide)) (.cons failed branches))) .nil

end

/-! ### The code of an instruction -/

/-- The code before what an instruction becomes: it brings the value of an operand in memory. -/
def leadIn [Linkage] (usage : Usage) (i : Instr) : List Node :=
  match i.memory? with
  | none => []
  | some (position, m) =>
    if i.opcode.effects.accessesMemory then
      syncOut usage ++
      [op .lea (.full (scratch usage)) (.mem m),
       op .mov (slot usage .accessAddress) (.full (scratch usage))] ++
      (if (transfers i.opcode.effects position).1 then call usage .read m.width.bytes else []) ++
      syncIn usage
    else []

/-- The code after what an instruction becomes: it takes the value of an operand in memory away. -/
def leadOut [Linkage] (usage : Usage) (i : Instr) : List Node :=
  match i.memory? with
  | none => []
  | some (position, m) =>
    if i.opcode.effects.accessesMemory && (transfers i.opcode.effects position).2 then
      syncOut usage ++ call usage .write m.width.bytes ++ syncIn usage
    else []

/-- The code of an instruction, if it has any. -/
def around [Linkage] (usage : Usage) (i : Instr) : List Node :=
  leadIn usage i ++ .instr (carried usage i) :: leadOut usage i

/-- At most one operand in memory is accessed. -/
def Single (i : Instr) : Prop := i.opcode.effects.accessesMemory = true → i.memories.length ≤ 1

theorem instruction_of_single [Linkage] {usage : Usage} {i : Instr} (single : Single i) :
    instruction usage i = .ok (around usage i) := by
  unfold instruction around leadIn leadOut carried
  cases found : i.memory? with
  | none => rfl
  | some place =>
    obtain ⟨position, m⟩ := place
    cases accesses : i.opcode.effects.accessesMemory with
    | false => simp
    | true =>
      have few : ¬ 1 < i.memories.length := Nat.not_lt.mpr (single accesses)
      simp [few, access, valueMem, Operand.based]

theorem single_of_instruction [Linkage] {usage : Usage} {i : Instr} {code : List Node}
    (ok : instruction usage i = .ok code) : Single i := by
  intro accesses
  cases found : i.memory? with
  | none =>
    have empty : i.memories = [] := List.head?_eq_none_iff.mp found
    simp [empty]
  | some place =>
    obtain ⟨position, m⟩ := place
    simp only [instruction, found, accesses, Bool.not_true, Bool.false_eq_true, if_false] at ok
    split at ok
    · cases ok
    next few => exact Nat.not_lt.mp few

/-- A body has code exactly if each instruction accesses at most one operand in memory. -/
theorem body_eq_ok_iff [Linkage] {usage : Usage} {instrs : List Instr} {nodes : List Node} :
    body usage instrs = .ok nodes ↔ (∀ i ∈ instrs, Single i) ∧ nodes = instrs.flatMap (around usage) := by
  induction instrs generalizing nodes with
  | nil =>
    simp [body, eq_comm]
  | cons i rest ih =>
    constructor
    · intro ok
      obtain ⟨first, here, ok⟩ := ok_of_bind ok
      obtain ⟨others, there, ok⟩ := ok_of_bind ok
      cases ok
      have single := single_of_instruction here
      obtain ⟨later, rfl⟩ := ih.mp there
      obtain rfl := Except.ok.inj ((instruction_of_single single).symm.trans here)
      exact ⟨List.forall_mem_cons.mpr ⟨single, later⟩, by simp⟩
    · rintro ⟨single, rfl⟩
      obtain ⟨first, later⟩ := List.forall_mem_cons.mp single
      simp [body, instruction_of_single first, ih.mpr ⟨later, rfl⟩, bind, Except.bind, pure, Except.pure]

/-- The whole function around a body, if each instruction has code. -/
def listing [Linkage] (usage : Usage) (instrs : List Instr) : List Node :=
  entry usage ++ instrs.flatMap (around usage) ++ exit usage ++ fault usage

theorem function_eq_ok_iff [Linkage] {usage : Usage} {instrs : List Instr} {nodes : List Node} :
    function usage instrs = .ok nodes ↔ (∀ i ∈ instrs, Single i) ∧ nodes = listing usage instrs := by
  constructor
  · intro ok
    obtain ⟨inner, lowered, ok⟩ := ok_of_bind ok
    obtain ⟨single, rfl⟩ := body_eq_ok_iff.mp lowered
    exact ⟨single, (Except.ok.inj ok).symm⟩
  · rintro ⟨single, rfl⟩
    simp [function, body_eq_ok_iff.mpr ⟨single, rfl⟩, listing, bind, Except.bind, pure, Except.pure]

/-! ### Lengths -/

section
variable (usage : Usage)

theorem length_toList_le (set : RegSet) : set.toList.length ≤ 16 :=
  List.length_filter_le ..

theorem length_sync : (syncOut usage).length ≤ 17 ∧ (syncIn usage).length ≤ 17 := by
  have few := length_toList_le usage.read
  simp only [syncOut, syncIn, loadRegisters, storeRegisters, List.length_cons, List.length_append, List.length_map,
    List.length_nil]
  omega

theorem length_call_le [Linkage] (direction : Direction) (size : Nat) : (call usage direction size).length ≤ 10 := by
  have optional {c : Prop} [Decidable c] (node : Node) : (if c then [] else [node]).length ≤ 1 := by split <;> simp
  have optional' {c : Prop} [Decidable c] (node : Node) : (if c then [node] else []).length ≤ 1 := by split <;> simp
  simp only [call, List.length_append, List.length_cons, List.length_nil]
  grind

theorem length_around_le [Linkage] (i : Instr) : (around usage i).length ≤ 100 := by
  obtain ⟨out, back⟩ := length_sync usage
  have called {c : Prop} [Decidable c] (direction : Direction) (size : Nat) :
      (if c then call usage direction size else []).length ≤ 10 := by
    split
    · exact length_call_le usage direction size
    · exact Nat.zero_le _
  have before : (leadIn usage i).length ≤ 46 := by
    unfold leadIn
    split
    · exact Nat.zero_le _
    next position m _ =>
      split
      · simp only [List.length_append, List.length_cons, List.length_nil]
        have := @called ((transfers i.opcode.effects position).1 = true) _ .read m.width.bytes
        omega
      · exact Nat.zero_le _
  have after : (leadOut usage i).length ≤ 44 := by
    unfold leadOut
    split
    · exact Nat.zero_le _
    next position m _ =>
      split
      · simp only [List.length_append]
        have := length_call_le usage .write m.width.bytes
        omega
      · exact Nat.zero_le _
  rw [around, List.length_append, List.length_cons]
  omega

/-- The length of a function grows with the body alone. -/
theorem length_listing_le [Linkage] (instrs : List Instr) :
    (listing usage instrs).length ≤ 100 * (instrs.length + 1) := by
  obtain ⟨out, _⟩ := length_sync usage
  have read := length_toList_le usage.read
  have saved := length_toList_le usage.saved
  have body : (instrs.flatMap (around usage)).length ≤ 100 * instrs.length := by
    induction instrs with
    | nil => exact Nat.le_refl 0
    | cons i rest ih =>
      have first := length_around_le usage i
      rw [List.flatMap_cons, List.length_append, List.length_cons]
      omega
  have opens : (entry usage).length ≤ 36 := by
    simp only [entry, loadRegisters, seedFlags, List.length_append, List.length_map]
    grind
  have closes : (exit usage).length ≤ 40 := by
    simp only [exit, storeRegisters, storeFlags, List.length_append, List.length_map, List.length_reverse,
      List.length_cons, List.length_nil]
    grind
  have faults : (fault usage).length ≤ 4 := by
    unfold fault
    split <;> simp
  simp only [listing, List.length_append]
  omega

theorem codeSize_function_le [Linkage] {usage : Usage} {instrs : List Instr} {nodes : List Node}
    (lowered : function usage instrs = .ok nodes) : codeSize nodes ≤ 1500 * (instrs.length + 1) := by
  obtain ⟨_, rfl⟩ := function_eq_ok_iff.mp lowered
  have length := length_listing_le usage instrs
  have bytes := Host.codeSize_le (listing usage instrs)
  omega

end

/-! ### Instructions of a body -/

/-- An instruction as selection gives it: an operation, on operands in memory whose addresses have an encoding. -/
structure Plain (i : Instr) : Prop where
  operation : ∃ operation, i.opcode = .op operation
  writable : ∀ m, .mem m ∈ i.operands.operands → Writable m

theorem mem_of_memory? {i : Instr} {position : Nat} {m : Host.Mem} (found : i.memory? = some (position, m)) :
    .mem m ∈ i.operands.operands :=
  mem_operands.mpr (List.mem_of_getElem? (memory?_eq_some found))

theorem straight_carried {usage : Usage} {i : Instr} (plain : Plain i) :
    branchOpcode (carried usage i).opcode = none := by
  obtain ⟨operation, opcode⟩ := plain.operation
  rw [opcode_carried, opcode]
  rfl

section
variable {usage : Usage} {labels : List Host.Label} {i : Instr} (plain : Plain i)
  (known : i.opcode.effects.accessesMemory = true → (∃ m, .mem m ∈ i.operands.operands) → faultExit ∈ labels)
include known

theorem assembles_leadOut [Linkage] : Assembles labels (leadOut usage i) := by
  unfold leadOut
  split
  · exact .nil
  next position m found =>
    split
    next writes =>
      have called := known (Bool.and_eq_true_iff.mp writes).1 ⟨m, mem_of_memory? found⟩
      exact .append (.append (assembles_syncOut usage) (assembles_call usage called .write m.width))
        (assembles_syncIn usage)
    next => exact .nil

include plain

theorem assembles_leadIn [Linkage] : Assembles labels (leadIn usage i) := by
  unfold leadIn
  split
  · exact .nil
  next position m found =>
    have member := mem_of_memory? found
    split
    next accesses =>
      have address : Assembles labels [op .lea (.full (scratch usage)) (.mem m)] := by
        have rm : (Rm.mem m).Plain := plain.writable m member
        have reg : (RegField.reg ⟨scratch usage, .b64, false⟩).Plain := rfl
        exact assembles_op rfl (withRm_of_plain (some .b64) 0x8d [] reg rm)
      refine .append (.append (.append (assembles_syncOut usage) ?_) ?_) (assembles_syncIn usage)
      · exact .cons address (assembles_store usage _ _)
      · exact .ite (assembles_call usage (known accesses ⟨m, member⟩) .read m.width) .nil
    next => exact .nil

theorem assembles_around [Linkage] (encodable : (carried usage i).Encodable) : Assembles labels (around usage i) :=
  .append (assembles_leadIn plain known)
    (.cons (.straight encodable (straight_carried plain)) (assembles_leadOut known))

end

/-- Where the base register may stand for the operand in memory of an instruction: it needs no REX byte beside the
second byte of a register. -/
def Suits (usage : Usage) (i : Instr) : Prop :=
  i.opcode.effects.accessesMemory = true → (∃ m, .mem m ∈ i.operands.operands) →
    ∀ r, .reg r ∈ i.operands.operands → r.high = true → usage.base.extended = false

/-- The base register of a body suits each of its instructions. -/
theorem suits_of_ofBody {instrs : List Instr} {usage : Usage} (used : Usage.ofBody instrs = .ok usage) {i : Instr}
    (member : i ∈ instrs) : Suits usage i := by
  intro accesses named r present high
  have candidate := Footprint.candidate_iff.mp (Footprint.candidate_of_base? (Usage.base?_of_ofBody used).2)
  have legacy := candidate.legacy ⟨i, member, accesses, named⟩ ⟨i, member, r, present, high⟩
  simpa [Reg.extended] using legacy

/-- Whether what an instruction becomes has an encoding does not depend on the base register, if that suits it. -/
theorem encodable_carried {one two : Usage} {i : Instr} (plain : Plain i) (suits : Suits two i)
    (encodable : (carried one i).Encodable) : (carried two i).Encodable := by
  obtain ⟨operation, opcode⟩ := plain.operation
  unfold carried at encodable ⊢
  cases found : i.memory? with
  | none => simpa [found] using encodable
  | some place =>
    obtain ⟨position, m⟩ := place
    simp only [found] at encodable ⊢
    split
    next accesses =>
      rw [if_pos accesses] at encodable
      obtain ⟨lead, _, operands⟩ := i
      subst opcode
      have width : (valueMem two m).width = (valueMem one m).width := rfl
      refine Host.encodable_set width rfl (fun r present high => ?_) encodable
      exact suits accesses ⟨m, mem_of_memory? found⟩ r present high
    next direct => simpa [if_neg direct] using encodable

/-! ### The whole function -/

/-- Labels that the function around a body defines. -/
def bound (usage : Usage) : List Host.Label := if usage.touchesMemory then [epilog, faultExit] else [epilog]

theorem epilog_bound (usage : Usage) : epilog ∈ bound usage := by
  unfold bound
  split <;> simp

theorem label_mem_listing [Linkage] {usage : Usage} {l : Host.Label} (known : l ∈ bound usage) (instrs : List Instr) :
    .label l ∈ listing usage instrs := by
  have closes : .label epilog ∈ exit usage := by simp [exit]
  unfold bound at known
  split at known
  next touches =>
    have faults : .label faultExit ∈ fault usage := by simp [fault, touches]
    simp only [List.mem_cons, List.not_mem_nil, or_false] at known
    rcases known with rfl | rfl
    · simp [listing, closes]
    · simp [listing, faults]
  next =>
    cases List.mem_singleton.mp known
    simp [listing, closes]

section
variable {usage : Usage} {instrs : List Instr} (used : Usage.ofBody instrs = .ok usage)
include used

theorem faultExit_bound {i : Instr} (member : i ∈ instrs) (accesses : i.opcode.effects.accessesMemory = true)
    (named : ∃ m, .mem m ∈ i.operands.operands) : faultExit ∈ bound usage := by
  have touches : usage.touchesMemory = true := by
    rw [(Usage.base?_of_ofBody used).1]
    exact Footprint.touchesMemory_iff.mpr ⟨i, member, accesses, named⟩
  simp [bound, touches]

variable (plain : ∀ i ∈ instrs, Plain i)
include plain

/-- Branches lead to labels that are defined, whether or not everything has an encoding. -/
theorem branches_listing [Linkage] {i : Instr} {l : Host.Label} (member : .instr i ∈ listing usage instrs)
    (branches : i.BranchesTo l) : .label l ∈ listing usage instrs := by
  refine label_mem_listing ?_ instrs
  simp only [listing, List.mem_append, List.mem_flatMap] at member
  obtain ((opens | ⟨j, present, inside⟩) | closes) | faults := member
  · exact (assembles_entry usage i opens).2 l branches
  · have known := faultExit_bound used present
    rcases List.mem_append.mp inside with before | after
    · exact (assembles_leadIn (plain j present) known i before).2 l branches
    · rcases List.mem_cons.mp after with here | after
      · cases here
        have branch := Host.branchOpcode_isSome.mpr branches.1
        rw [straight_carried (plain j present)] at branch
        cases branch
      · exact (assembles_leadOut known i after).2 l branches
  · exact (assembles_exit usage i closes).2 l branches
  · exact (assembles_fault usage (epilog_bound usage) i faults).2 l branches

/-- A short function can be linked exactly if what its instructions become has encodings. -/
theorem linkable_listing_iff [Linkage] (short : codeSize (listing usage instrs) < 0x80000000) :
    Linkable (listing usage instrs) ↔ ∀ i ∈ instrs, (carried usage i).Encodable := by
  constructor
  · intro linkable i member
    refine linkable.encodable _ ?_
    have inside : .instr (carried usage i) ∈ instrs.flatMap (around usage) :=
      List.mem_flatMap.mpr ⟨i, member, by simp [around]⟩
    simp [listing, inside]
  · intro encodable
    have assembles : Assembles (bound usage) (listing usage instrs) := by
      refine .append (.append (.append (assembles_entry usage) ?_) (assembles_exit usage))
        (assembles_fault usage (epilog_bound usage))
      intro k member
      obtain ⟨i, present, inside⟩ := List.mem_flatMap.mp member
      exact assembles_around (plain i present) (faultExit_bound used present) (encodable i present) k inside
    exact assembles.linkable (fun l known => label_mem_listing known instrs) short

/-- A body compiles exactly if each instruction accesses at most one operand in memory and what it becomes has an
encoding. -/
theorem compileInstrs_ok_iff [Linkage]
    (short : ∀ nodes, function usage instrs = .ok nodes → codeSize nodes < 0x80000000) :
    (∃ compiled, compileInstrs instrs = .ok compiled) ↔ ∀ i ∈ instrs, Single i ∧ (carried usage i).Encodable := by
  constructor
  · rintro ⟨compiled, ok⟩
    obtain ⟨usedHere, lowered, assembled⟩ := compileInstrs_ok ok
    rw [Except.ok.inj (usedHere.symm.trans used)] at lowered
    obtain ⟨single, nodes⟩ := function_eq_ok_iff.mp lowered
    have small := short _ lowered
    rw [nodes] at assembled small
    have encodable := (linkable_listing_iff used plain small).mp (Host.laid_of_encode assembled).2
    exact fun i member => ⟨single i member, encodable i member⟩
  · intro each
    have lowered : function usage instrs = .ok (listing usage instrs) :=
      function_eq_ok_iff.mpr ⟨fun i member => (each i member).1, rfl⟩
    have linkable := (linkable_listing_iff used plain (short _ lowered)).mpr fun i member => (each i member).2
    obtain ⟨code, assembled⟩ := Host.encode_of_linkable linkable
    refine ⟨⟨usage, instrs.length, listing usage instrs, code⟩, ?_⟩
    simp [compileInstrs, used, lowered, assembled, bind, Except.bind, pure, Except.pure]

end

/-- One instruction of a body compiles on its own exactly if it has what it needs in the body. -/
theorem compileInstrs_single_iff [Linkage] {usage : Usage} {instrs : List Instr}
    (used : Usage.ofBody instrs = .ok usage) {i : Instr} (member : i ∈ instrs) (plain : Plain i) :
    (∃ compiled, compileInstrs [i] = .ok compiled) ↔ Single i ∧ (carried usage i).Encodable := by
  obtain ⟨small, alone, _⟩ := Usage.ofBody_of_subset (List.forall_mem_singleton.mpr member) used
  have short : ∀ nodes, function small [i] = .ok nodes → codeSize nodes < 0x80000000 := by
    intro nodes lowered
    have size := codeSize_function_le lowered
    rw [List.length_singleton] at size
    omega
  have here : Suits usage i := suits_of_ofBody used member
  have there : Suits small i := suits_of_ofBody alone (List.mem_singleton.mpr rfl)
  rw [compileInstrs_ok_iff alone (List.forall_mem_singleton.mpr plain) short, List.forall_mem_singleton]
  exact and_congr_right fun _ => ⟨encodable_carried plain here, encodable_carried plain there⟩

end Lowering

/-! ### Programs -/

namespace Selection

theorem scaled_of_memory {m : Guest.Mem} {size : Guest.Size} {n : Host.Mem} (ok : memory m size = .ok n) :
    ∃ code, scaleCode n = .ok code := by
  obtain ⟨_, scaled, narrow, base, index, w, _, _, _, _, rfl⟩ := memory_ok ok
  cases index with
  | none => exact ⟨0, rfl⟩
  | some r =>
    cases scale : m.scale with
    | x16 => exact absurd scale scaled
    | _ => exact ⟨_, rfl⟩

theorem writable_of_operand {g : Guest.Operand} {m : Host.Mem} (ok : operand g = .ok (.mem m)) : Writable m := by
  cases g with
  | reg r size high =>
    obtain ⟨w, _, ok⟩ := ok_of_bind ok
    obtain ⟨s, _, ok⟩ := ok_of_bind ok
    split at ok <;> cases ok
  | imm v size =>
    obtain ⟨w, _, ok⟩ := ok_of_bind ok
    cases ok
  | mem n size =>
    obtain ⟨found, ok', same⟩ := ok_of_bind ok
    cases same
    refine ⟨scaled_of_memory ok', ?_⟩
    cases selected_of_memory ok' with
    | mem _ _ _ _ _ indexFree => exact indexFree

theorem plain_of_select {i : Guest.Instruction} {j : Instr} (ok : select i = .ok j) : Lowering.Plain j := by
  obtain ⟨operation, _, opcode, mapped⟩ := select_ok ok
  refine ⟨⟨operation, opcode⟩, fun m member => ?_⟩
  obtain ⟨g, _, found⟩ := (Slots.mapM_iff.mp mapped).exists_of_mem member
  exact writable_of_operand found

end Selection

section
variable {program : List Guest.Instruction} {instrs : List Instr}
  (selected : Queue.selectAll program = (instrs, .ok ()))
include selected

theorem map_select : program.map select = instrs.map .ok := by
  induction program generalizing instrs with
  | nil =>
    cases selected
    rfl
  | cons first rest ih =>
    obtain ⟨absurd, _⟩ | ⟨_, _, j, others, same, rfl, here, there⟩ := Lowering.selectAll_ok selected
    · cases absurd
    · cases same
      simp only [List.map_cons, here, ih there]

theorem select_of_mem {i : Guest.Instruction} (member : i ∈ program) : ∃ j ∈ instrs, select i = .ok j := by
  have inside : select i ∈ instrs.map .ok := map_select selected ▸ List.mem_map_of_mem member
  obtain ⟨j, member, same⟩ := List.mem_map.mp inside
  exact ⟨j, member, same.symm⟩

theorem selected_from {j : Instr} (member : j ∈ instrs) : ∃ i ∈ program, select i = .ok j := by
  have inside : .ok j ∈ program.map select := map_select selected ▸ List.mem_map_of_mem member
  exact List.mem_map.mp inside

theorem plain_of_selectAll : ∀ j ∈ instrs, Lowering.Plain j := by
  intro j member
  obtain ⟨i, _, ok⟩ := selected_from selected member
  exact Selection.plain_of_select ok

end

theorem compile_single [Linkage] {i : Guest.Instruction} {j : Instr} (ok : select i = .ok j) :
    (compile ⟨[i]⟩).2 = compileInstrs [j] :=
  compile_of_selectAll (by simp [Queue.selectAll, ok])

/-- A program whose instructions are all selected, beside which a base register is left, and whose code is shorter than
two gibibytes compiles exactly if each of its instructions does on its own; that is, if none accesses more than one
operand in memory, and what each becomes has an encoding. The code around the body and around each
instruction always has an encoding, no branch of it is to a label that it does not define, and whether what an
instruction becomes has an encoding is not affected by the rest of the program. -/
theorem acceptance_local [Linkage] {program : List Guest.Instruction} {instrs : List Instr} {usage : Usage}
    (selected : Queue.selectAll program = (instrs, .ok ())) (used : Usage.ofBody instrs = .ok usage)
    (short : ∀ nodes, Lowering.function usage instrs = .ok nodes → codeSize nodes < 0x80000000) :
    ((∃ compiled, (compile ⟨program⟩).2 = .ok compiled) ↔
      ∀ i ∈ program, ∃ compiled, (compile ⟨[i]⟩).2 = .ok compiled) ∧
    ((∃ compiled, (compile ⟨program⟩).2 = .ok compiled) ↔
      ∀ j ∈ instrs, Lowering.Single j ∧ (Lowering.carried usage j).Encodable) ∧
    (∀ nodes, Lowering.function usage instrs = .ok nodes →
      nodes = Lowering.entry usage ++ instrs.flatMap (Lowering.around usage) ++ Lowering.exit usage ++
        Lowering.fault usage ∧
      ∀ k l, .instr k ∈ nodes → k.BranchesTo l → .label l ∈ nodes) ∧
    (∀ k, .instr k ∈ Lowering.entry usage ++ Lowering.exit usage ++ Lowering.fault usage → k.Encodable) ∧
    ∀ j ∈ instrs,
      (∀ k, .instr k ∈ Lowering.leadIn usage j ++ Lowering.leadOut usage j → k.Encodable) ∧
      ∀ alone, Usage.ofBody [j] = .ok alone →
        ((Lowering.carried usage j).Encodable ↔ (Lowering.carried alone j).Encodable) := by
  have plain := plain_of_selectAll selected
  have accepts : (∃ compiled, (compile ⟨program⟩).2 = .ok compiled) ↔
      ∀ j ∈ instrs, Lowering.Single j ∧ (Lowering.carried usage j).Encodable := by
    rw [compile_of_selectAll selected]
    exact Lowering.compileInstrs_ok_iff used plain short
  refine ⟨?_, accepts, fun nodes lowered => ?_, fun k member => ?_,
    fun j member => ⟨fun k inside => ?_, fun alone small => ?_⟩⟩
  · have single {i : Guest.Instruction} {j : Instr} (member : j ∈ instrs) (found : select i = .ok j) :
        (∃ compiled, (compile ⟨[i]⟩).2 = .ok compiled) ↔
          Lowering.Single j ∧ (Lowering.carried usage j).Encodable := by
      rw [compile_single found]
      exact Lowering.compileInstrs_single_iff used member (plain j member)
    rw [accepts]
    constructor
    · intro each i member
      obtain ⟨j, inside, found⟩ := select_of_mem selected member
      exact (single inside found).mpr (each j inside)
    · intro each j member
      obtain ⟨i, inside, found⟩ := selected_from selected member
      exact (single member found).mp (each i inside)
  · obtain ⟨_, rfl⟩ := Lowering.function_eq_ok_iff.mp lowered
    exact ⟨rfl, fun k l inside branches => Lowering.branches_listing used plain inside branches⟩
  · have assembles : Assembles [Lowering.epilog] _ :=
      .append (.append (Lowering.assembles_entry usage) (Lowering.assembles_exit usage))
        (Lowering.assembles_fault usage (List.mem_singleton.mpr rfl))
    exact (assembles k member).1
  · have known := Lowering.faultExit_bound used member
    exact ((Lowering.assembles_leadIn (plain j member) known).append (Lowering.assembles_leadOut known) k inside).1
  · have here := Lowering.suits_of_ofBody used member
    have there := Lowering.suits_of_ofBody small (List.mem_singleton.mpr rfl)
    exact ⟨Lowering.encodable_carried (plain j member) there, Lowering.encodable_carried (plain j member) here⟩

/-- Loads the second byte of a register. -/
def sampleByte : Guest.Instruction where
  mnemonic := .op .mov
  operands :=
    { first := some (.reg (.general .rbx) .s8 true)
      second := some (.mem { base := some (.general .rsi), index := some (.general .rdi), scale := .x4 } .s8) }

/-- Computes an address from the register that is the base of the load alone. -/
def sampleAddressOf : Guest.Instruction where
  mnemonic := .op .lea
  operands :=
    { first := some (.reg (.general .rax) .s64 false)
      second := some (.mem { base := some (.general .rcx) } .s64) }

def samplePair : List Guest.Instruction := [sampleByte, sampleAddressOf]

section
attribute [local instance] Linkage.standard

/-- The load has `rcx` as its base on its own and `rdx` beside the other instruction, which takes `rcx`. Each compiles, so
both do. -/
theorem acceptance_local_sample :
    (∃ alone, Usage.ofBody (Queue.selectAll [sampleByte]).1 = .ok alone ∧ alone.base = .rcx) ∧
    ∃ usage, Usage.ofBody (Queue.selectAll samplePair).1 = .ok usage ∧ usage.base = .rdx ∧
      (∀ j ∈ (Queue.selectAll samplePair).1, ∀ k,
        .instr k ∈ Lowering.leadIn usage j ++ Lowering.leadOut usage j → k.Encodable) ∧
      ∃ compiled, (compile ⟨samplePair⟩).2 = .ok compiled := by
  have alone : (Footprint.ofBody (Queue.selectAll [sampleByte]).1).base? = some .rcx := by decide +kernel
  have found : (Footprint.ofBody (Queue.selectAll samplePair).1).base? = some .rdx := by decide +kernel
  have selected : Queue.selectAll samplePair = ((Queue.selectAll samplePair).1, .ok ()) := by rfl
  have short (usage : Usage) (nodes : List Node)
      (lowered : Lowering.function usage (Queue.selectAll samplePair).1 = .ok nodes) : codeSize nodes < 0x80000000 := by
    have size := Lowering.codeSize_function_le lowered
    have two : (Queue.selectAll samplePair).1.length = 2 := rfl
    omega
  have used := Usage.ofBody_of_base? found
  obtain ⟨accepted, _, _, _, inserted⟩ := acceptance_local selected used (short _)
  refine ⟨⟨_, Usage.ofBody_of_base? alone, rfl⟩, _, used, rfl, fun j member => (inserted j member).1, ?_⟩
  refine accepted.mpr fun i member => exists_of_isOk ?_
  simp only [samplePair, List.mem_cons, List.not_mem_nil, or_false] at member
  rcases member with rfl | rfl <;> decide +kernel

end

end Rehost
