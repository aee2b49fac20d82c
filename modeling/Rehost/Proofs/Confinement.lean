import Rehost.Proofs.Meaning

/-!
# Compiled code is confined

Whatever the functions it calls do, and however far it is run, compiled code accesses nothing but its own
frame and some slots of the context, which it finds through the base register (`accesses_confined`). The
slot of the handler is not among them. What the instructions of a program become (`Lowering.carried`)
changes neither the stack pointer nor the base register.
-/

namespace Rehost

open Guest (Context FlatMemory)
open Host (Instr Node Operand)
open Machine (Config Env Executed Layout Platform State)

variable {σ : Type}

/-! ### Bytes -/

namespace Machine

variable {usage : Usage} {contextAddress entry : Word} {e : Executed}

/-- An executed instruction accesses a byte, in an operand or in a word that it pushes or pops. -/
inductive Executed.Accesses (e : Executed) (byte : Nat) : Prop where
  | operand {m : Host.Mem} (accessed : e.instr.opcode ≠ .op .lea) (member : .mem m ∈ e.instr.operands.operands)
      (low : (m.address e.before.regs).toNat ≤ byte) (high : byte < (m.address e.before.regs).toNat + m.width.bytes)
  | stack {a : Word} (word : e.word? = some a) (low : a.toNat ≤ byte) (high : byte < a.toNat + 8)

/-- Different slots do not overlap. -/
theorem slots_apart {one two : Context.Slot} (other : one ≠ two) :
    one.offset + 8 ≤ two.offset ∨ two.offset + 8 ≤ one.offset := by
  have aligned (slot : Context.Slot) : slot.offset % 8 = 0 := by
    cases slot with
    | gp r => simp [Context.Slot.offset, Context.gpOffset]
    | _ => rfl
  have apart : one.offset ≠ two.offset := by
    intro same
    have found := Context.Slot.ofOffset?_offset one
    rw [same, Context.Slot.ofOffset?_offset two] at found
    exact other (Option.some.inj found).symm
  have first := aligned one
  have second := aligned two
  omega

/-- Confined instructions stay out of the slots that are not open. -/
theorem Executed.Confined.avoids (layout : Layout contextAddress entry)
    (confined : e.Confined usage contextAddress entry) {slot : Context.Slot} (closed : ¬ usage.Open slot)
    {byte : Nat} (accesses : e.Accesses byte) :
    byte < contextAddress.toNat + slot.offset ∨ contextAddress.toNat + slot.offset + 8 ≤ byte := by
  have inside := offset_le slot
  have apart := layout.apart
  cases accesses with
  | operand accessed member low high =>
    cases confined.operands accessed _ member with
    | frame deep above within => omega
    | slot found allowed _ _ above within =>
      have other : found ≠ slot := by
        rintro rfl
        exact closed allowed
      have offsets := slots_apart other
      omega
  | stack word low high =>
    obtain ⟨deep, within⟩ := confined.stack _ word
    omega

/-! ### Runs of any length -/

/-- Once a run has returned, nothing more is executed. -/
theorem mem_trace_of_returned {env : Env σ} {program : List Node} {n fuel : Nat} {config : Config σ} {world : σ}
    {s : State} (returned : run env program n config = .returned world s)
    (member : e ∈ trace env program fuel config) : e ∈ trace env program n config := by
  induction n generalizing fuel config with
  | zero => cases returned
  | succ n ih =>
    cases fuel with
    | zero => cases member
    | succ fuel =>
      simp only [trace, List.mem_append] at member ⊢
      refine member.imp_right fun later => ?_
      simp only [run] at returned
      cases advanced : advance env program config with
      | done outcome =>
        rw [advanced] at later
        cases later
      | going next =>
        rw [advanced] at returned later
        exact ih returned later

end Machine

/-! ### Instructions of the program -/

namespace Lowering

/-- What an instruction of a body becomes: an operand in memory is replaced by the slot for the value of an
access, unless it is only an address. -/
def carried (usage : Usage) (i : Instr) : Instr :=
  match i.memory? with
  | none => i
  | some (position, m) =>
    if i.opcode.effects.accessesMemory then
      { i with operands := i.operands.set position (.mem (valueMem usage m)) }
    else i

variable {usage : Usage} {i : Instr} {operation : Operation}

theorem opcode_carried : (carried usage i).opcode = i.opcode := by
  unfold carried
  split
  · rfl
  · split <;> rfl

theorem reg_mem_carried {q : Host.RegOperand} (member : .reg q ∈ (carried usage i).operands.operands) :
    .reg q ∈ i.operands.operands := by
  unfold carried at member
  split at member
  · exact member
  · split at member
    · exact (Machine.mem_of_mem_set member).resolve_left nofun
    · exact member

theorem Lowered.carries [Linkage] {code : List Node} (opcode : i.opcode = .op operation)
    (lowered : Lowered usage operation i code) : .instr (carried usage i) ∈ code := by
  have accesses : i.opcode.effects.accessesMemory = decide (operation ≠ .lea) := by
    rw [opcode]
    exact accessesMemory_eq operation
  cases lowered with
  | plain _ direct =>
    have same : carried usage i = i := by
      unfold carried
      split
      · rfl
      next found =>
        have isLea : operation = .lea := direct.resolve_left (by rw [found]; nofun)
        simp [accesses, isLea]
    rw [same]
    exact List.mem_singleton.mpr rfl
  | trip _ accessed found _ =>
    simp [carried, found, accesses, accessed, access, valueMem, Operand.based]

/-- An instruction of a body is selected for one of the program, and its code is part of the whole. -/
theorem Body.of_mem [Linkage] {program : List Guest.Instruction} {instrs : List Instr} {nodes : List Node}
    (body : Body usage program instrs nodes) (member : i ∈ instrs) :
    ∃ g operation code, Translated usage g i operation ∧ Lowered usage operation i code ∧
      ∀ node ∈ code, node ∈ nodes := by
  induction body with
  | nil => exact (List.not_mem_nil member).elim
  | cons translated lowered _ ih =>
    rcases List.mem_cons.mp member with rfl | later
    · exact ⟨_, _, _, translated, lowered, fun node inside => List.mem_append_left _ inside⟩
    · obtain ⟨g, operation, code, translated, lowered, part⟩ := ih later
      exact ⟨g, operation, code, translated, lowered, fun node inside => List.mem_append_right _ (part node inside)⟩

/-- What an instruction becomes changes no register that the body does not name. -/
theorem get_step_carried {env : Env σ} {g : Guest.Instruction} (translated : Translated usage g i operation)
    {world world' : σ} {s s' : State} {next : Machine.Next}
    (done : Machine.step env (carried usage i) world s = some (world', s', next)) {r : Reg}
    (unnamed : r ∉ usage.read) : s'.get r = s.get r := by
  have opcode : (carried usage i).opcode = .op operation := opcode_carried.trans translated.opcode
  simp only [Machine.step, opcode, Option.bind_eq_bind, Option.bind_eq_some_iff] at done
  obtain ⟨after, operated, done⟩ := done
  cases done
  refine Machine.get_operate operated fun q member same => unnamed ?_
  exact translated.named _ (reg_mem_carried member) r same

end Lowering

/-! ### Confinement -/

/-- However the functions it calls answer, no step of compiled code is stuck, neither of its listing nor of its bytes.
However many steps are taken, every access is to its frame or, through the base register, to a slot that is open to it,
and none to the slot of the handler. What the instructions of the program become is part of the code, and changes
neither the stack pointer nor the base register in any state. -/
theorem accesses_confined [Linkage] {env : Env σ} (obeys : env.Obeys .any) {queue : Queue}
    {compiled : Compiled} (ok : (compile queue).2 = .ok compiled) {s : State}
    (layout : Layout env.contextAddress (s.get .rsp))
    (argument : s.get Host.Convention.firstArgument = env.contextAddress) (world : σ) :
    (∃ world' s', Machine.run env compiled.nodes (compiled.nodes.length + 1) ⟨compiled.nodes, world, s⟩ =
      .returned world' s' ∧
      Machine.runCode env compiled.code (compiled.code.length + 1) ⟨0, world, s⟩ = .returned world' s') ∧
    (∀ fuel, ∀ e ∈ Machine.trace env compiled.nodes fuel ⟨compiled.nodes, world, s⟩,
      e.Confined compiled.usage env.contextAddress (s.get .rsp) ∧
      ∀ byte, e.Accesses byte → byte < env.contextAddress.toNat + Context.Slot.handler.offset ∨
        env.contextAddress.toNat + Context.Slot.handler.offset + 8 ≤ byte) ∧
    ∀ i ∈ (Queue.selectAll queue.instructions).1, .instr (Lowering.carried compiled.usage i) ∈ compiled.nodes ∧
      ∀ {world world' : σ} {s s' : State} {next : Machine.Next},
        Machine.step env (Lowering.carried compiled.usage i) world s = some (world', s', next) →
        s'.get .rsp = s.get .rsp ∧ s'.get compiled.usage.base = s.get compiled.usage.base := by
  obtain ⟨instrs, nodes, accepted⟩ := accepted_of_compile ok
  obtain ⟨world', last, way, returns, _⟩ := Machine.returns_of_accepted obeys layout accepted rfl argument world
  have coded := Machine.runCode_of_accepted accepted obeys layout argument world
  refine ⟨⟨world', _, returns.run, coded.trans returns.run⟩, ?_, ?_⟩
  · intro fuel e member
    have executed := Machine.mem_trace_of_returned returns.run member
    rw [returns.trace] at executed
    have confined : e.Confined compiled.usage env.contextAddress (s.get .rsp) := by
      rcases List.mem_append.mp executed with inside | isReturn
      · exact returns.confined e inside
      · cases List.mem_singleton.mp isReturn
        exact Machine.confined_of_none (fun m found => (List.not_mem_nil found).elim) rfl
    have closed : ¬ compiled.usage.Open .handler := id
    exact ⟨confined, fun byte accesses => confined.avoids layout closed accesses⟩
  · rw [accepted.selected]
    intro i member
    obtain ⟨g, operation, code, translated, lowered, part⟩ := accepted.body.of_mem member
    refine ⟨?_, fun done => ?_⟩
    · rw [accepted.listing]
      have inside := part _ (lowered.carries translated.opcode)
      simp [inside]
    · exact ⟨Lowering.get_step_carried translated done accepted.fit.stackUnnamed,
        Lowering.get_step_carried translated done accepted.fit.unnamed⟩

section
attribute [local instance] Linkage.standard

/-- The sample, called on the standard platform with only one of its words mapped. -/
theorem accesses_confined_sample : ∃ compiled, (compile sample).2 = .ok compiled ∧
    (∀ fuel, ∀ e ∈ Machine.trace (Platform.standard.env FlatMemory.handler) compiled.nodes fuel
        ⟨compiled.nodes, { state := .zeros 0x1008 8 }, Platform.standard.enter (sampleContext 0x1000)⟩,
      e.Confined compiled.usage Platform.standard.contextAddress Platform.standard.stackPointer) ∧
    ∀ i ∈ (Queue.selectAll sample.instructions).1, .instr (Lowering.carried compiled.usage i) ∈ compiled.nodes := by
  obtain ⟨compiled, ok⟩ := sample_compiles
  obtain ⟨_, confined, carries⟩ :=
    accesses_confined (Platform.standard.obeys FlatMemory.handler).any ok (layout_sample 0x1000)
      (Platform.standard.get_enter_argument (sampleContext 0x1000)) { state := .zeros 0x1008 8 }
  refine ⟨compiled, ok, fun fuel e member => ?_, fun i member => (carries i member).1⟩
  rw [← Platform.standard.get_enter_rsp (sampleContext 0x1000)]
  exact (confined fuel e member).1

end

end Rehost
