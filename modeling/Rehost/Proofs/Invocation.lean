import Rehost.Proofs.Fetching
import Rehost.Proofs.Simulation

/-!
# Calling a compiled function

On every platform whose caller leaves the stack and the context where they belong (`Layout`), a compiled
function called on a context returns, with what direct execution comes to in the context and in the state of
the handler (`realized_of_accepted`). Its machine code does what its listing does (`runCode_of_accepted`,
`call_eq_invoke`), since the code that lowering inserts has nothing that a run of bytes could take otherwise
(`runnable_of_accepted`).
-/

namespace Rehost

open Host (Instr Node Operand)

/-! ### Inserted code -/

namespace Lowering

section
variable (usage : Usage)

theorem proper_of_opcode {i : Instr} (push : i.opcode ≠ .push) (pop : i.opcode ≠ .pop) : (Node.instr i).Proper :=
  fun meant => meant.1.elim push pop

@[simp] theorem proper_op (operation : Operation) (dst src : Operand) : (op operation dst src).Proper :=
  proper_of_opcode (by simp [Instr.two]) (by simp [Instr.two])

@[simp] theorem proper_push (r : Reg) : (push (.full r)).Proper := by
  simp [push, Node.Proper, Instr.StacksHigh, Instr.one, Operand.full]

@[simp] theorem proper_push_slot (s : Guest.Context.Slot) : (push (slot usage s)).Proper := by
  simp [push, slot, Node.Proper, Instr.StacksHigh, Instr.one, Operand.based]

@[simp] theorem proper_pop (r : Reg) : (pop (.full r)).Proper := by
  simp [pop, Node.Proper, Instr.StacksHigh, Instr.one, Operand.full]

@[simp] theorem proper_bare (opcode : Host.Opcode) : (Node.instr (.bare opcode)).Proper := by
  simp [Node.Proper, Instr.StacksHigh, Instr.bare]

theorem proper_sync : (∀ node ∈ syncOut usage, node.Proper) ∧ ∀ node ∈ syncIn usage, node.Proper := by
  simp [syncOut, syncIn, storeRegisters, loadRegisters, or_imp, forall_and]

theorem proper_entry : ∀ node ∈ entry usage, node.Proper := by
  simp [entry, seedFlags, loadRegisters, or_imp, forall_and]

theorem proper_call [Linkage] (direction : Direction) (size : Nat) :
    ∀ node ∈ call usage direction size, node.Proper := by
  have called : (Node.instr (.one .call (.full .rax))).Proper := proper_of_opcode (by decide) (by decide)
  have branches : (Node.instr (.one .jnz (.label faultExit))).Proper := proper_of_opcode (by decide) (by decide)
  simp [call, or_imp, forall_and, called, branches]

theorem proper_access [Linkage] {i : Instr} {operation : Operation} (opcode : i.opcode = .op operation)
    (position : Nat) (m : Host.Mem) : ∀ node ∈ access usage i position m, node.Proper := by
  have replaced (operands : Slots Operand) : (Node.instr { i with operands }).Proper :=
    proper_of_opcode (by simp [opcode]) (by simp [opcode])
  obtain ⟨out, back⟩ := proper_sync usage
  have called {c : Prop} [Decidable c] (direction : Direction) (size : Nat) :
      ∀ node ∈ if c then call usage direction size else [], node.Proper := by
    split
    · exact proper_call usage direction size
    · simp
  have stored : ∀ node ∈ if (transfers i.opcode.effects position).2 then
      syncOut usage ++ call usage .write m.width.bytes ++ syncIn usage else [], node.Proper := by
    split
    · simp only [List.forall_mem_append]
      exact ⟨⟨out, proper_call usage .write _⟩, back⟩
    · simp
  simp only [access, List.forall_mem_append]
  exact ⟨⟨⟨⟨⟨out, by simp⟩, called .read _⟩, back⟩, by simp [replaced]⟩, stored⟩

theorem proper_of_body [Linkage] {program : List Guest.Instruction} {instrs : List Instr} {nodes : List Node}
    (body : Body usage program instrs nodes) : ∀ node ∈ nodes, node.Proper := by
  induction body with
  | nil => simp
  | cons translated lowered _ ih =>
    have opcode := translated.opcode
    refine List.forall_mem_append.mpr ⟨?_, ih⟩
    cases lowered with
    | plain => exact List.forall_mem_singleton.mpr (proper_of_opcode (by simp [opcode]) (by simp [opcode]))
    | trip => exact proper_access usage opcode _ _

/-- The instruction before the label has two bytes. -/
theorem runnable_exit : Machine.Runnable (exit usage) := by
  have restores : ∀ node ∈ usage.saved.toList.reverse.map (fun r => pop (.full r)) ++ [.instr (.bare .ret)],
      node.Proper := by
    simp [or_imp, forall_and]
  have stores : ∀ node ∈ if usage.flagsOut = 0 then storeRegisters usage else syncOut usage ++ storeFlags usage,
      node.Proper := by
    split
    · simp [storeRegisters]
    · simp [syncOut, storeFlags, storeRegisters, or_imp, forall_and]
  have clears : Machine.Runnable [op .xor (.half .rax) (.half .rax), .label epilog] := by
    refine ⟨fun i member => ?_, fun _ => by decide⟩
    obtain rfl : i = .two (.op .xor) (.half .rax) (.half .rax) := by simpa [op] using member
    exact proper_op _ _ _
  rw [exit, List.append_assoc]
  exact ((Machine.Runnable.of_proper stores).append clears).append (.of_proper restores)

/-- The instruction after the label has four bytes. -/
theorem runnable_fault : Machine.Runnable (fault usage) := by
  unfold fault
  split
  · have returns : ∀ node ∈ [op .mov (.half .rax) (.imm (Access.failed.setWidth 64) .b32),
        .instr (.one .jmp (.label epilog))], node.Proper := by
      simp [proper_of_opcode, Instr.one]
    have drops : Machine.Runnable [.label faultExit, op .add (.full .rsp) (constant 8)] := by
      refine ⟨fun i member => ?_, fun _ => by decide⟩
      obtain rfl : i = .two (.op .add) (.full .rsp) (constant 8) := by simpa [op] using member
      exact proper_op _ _ _
    exact drops.append (.of_proper returns)
  · exact .of_proper (by simp)

end

/-- The listing of a compiled program. -/
theorem runnable_of_accepted [Linkage] {program : List Guest.Instruction} {compiled : Compiled} {instrs : List Instr}
    {nodes : List Node} (accepted : Accepted program compiled instrs nodes) : Machine.Runnable compiled.nodes := by
  rw [accepted.listing]
  refine .append (.append (.of_proper ?_) (runnable_exit _)) (runnable_fault _)
  rw [List.forall_mem_append]
  exact ⟨proper_entry _, proper_of_body _ accepted.body⟩

/-- Compiled code is not empty. -/
theorem code_ne_nil_of_accepted [Linkage] {program : List Guest.Instruction} {compiled : Compiled} {instrs : List Instr}
    {nodes : List Node} (accepted : Accepted program compiled instrs nodes) : compiled.code ≠ [] := by
  intro empty
  obtain ⟨laid, linkable⟩ := Host.laid_of_encode accepted.assembled
  have dense := (runnable_of_accepted accepted).dense linkable.encodable
  rw [← laid.length, empty, accepted.listing] at dense
  simp [exit] at dense

end Lowering

/-! ### Calls -/

namespace Machine

open Guest (Context Handler)
open Guest.Interpreter (Stop)

variable {σ : Type}

/-- What a call has left behind, by what direct execution comes to. -/
inductive Realized (usage : Usage) (context : Context) :
    Except (Stop σ) (Guest.Interpreter.State σ) → Attached σ → State → Prop where
  | ended {g : Guest.Interpreter.State σ} {host : State} (result : host.result = Access.served)
      (gp : host.context.gp = g.context.gp) (flags : host.context.flags = g.context.flags)
      (outside : g.context.flags &&& ~~~Flag.status = context.flags &&& ~~~Flag.status)
      (unnamed : ∀ r, r ∉ usage.read → g.context.gp.get r = context.gp.get r) :
      Realized usage context (.ok g) { state := g.memory } host
  | refused {g : Guest.Interpreter.State σ} {host : State} {address : Word} {fault : Guest.Fault}
      (result : host.result = Access.failed) (synced : Synced context.flags address host.context g) :
      Realized usage context (.error (.refused g address fault)) { state := g.memory, fault := some fault } host

theorem Platform.get_enter_rsp (platform : Platform) (context : Context) :
    (platform.enter context).get .rsp = platform.stackPointer :=
  (RegFile.get_set_of_ne _ _ (by decide)).trans (RegFile.get_set_self ..)

theorem Platform.get_enter_argument (platform : Platform) (context : Context) :
    (platform.enter context).get Host.Convention.firstArgument = platform.contextAddress :=
  RegFile.get_set_self ..

section
variable [Linkage] {program : List Guest.Instruction} {compiled : Compiled} {instrs : List Instr} {nodes : List Node}
  (accepted : Accepted program compiled instrs nodes)
include accepted

/-- However called functions answer, the machine code of a compiled function returns what its listing returns. -/
theorem runCode_of_accepted {env : Env σ} {contract : Contract σ} (obeys : env.Obeys contract) {s : State}
    (layout : Layout env.contextAddress (s.get .rsp))
    (argument : s.get Host.Convention.firstArgument = env.contextAddress) (world : σ) :
    runCode env compiled.code (compiled.code.length + 1) ⟨0, world, s⟩ =
      run env compiled.nodes (compiled.nodes.length + 1) ⟨compiled.nodes, world, s⟩ := by
  obtain ⟨_, _, _, returns, -⟩ := returns_of_accepted obeys layout accepted rfl argument world
  have runnable := Lowering.runnable_of_accepted accepted
  obtain ⟨laid, linkable⟩ := Host.laid_of_encode accepted.assembled
  have ended := runCode_of_run accepted.assembled runnable.proper (List.nil_append _).symm returns.run (by simp)
  have enough : compiled.nodes.length + 1 ≤ compiled.code.length + 1 := by
    rw [laid.length]
    exact Nat.succ_le_succ (runnable.dense linkable.encodable)
  exact (runCode_of_le enough ended (by simp)).trans returns.run.symm

/-- A call of the machine code is a call of the listing. -/
theorem call_eq_invoke {platform : Platform} (layout : Layout platform.contextAddress platform.stackPointer)
    (handler : Handler σ) (context : Context) (memory : σ) :
    platform.call handler compiled.code context memory = platform.invoke handler compiled.nodes context memory := by
  rw [← platform.get_enter_rsp context] at layout
  exact runCode_of_accepted accepted (platform.obeys handler) layout (platform.get_enter_argument context) _

end

theorem realized_of_accepted [Linkage] {program : List Guest.Instruction} {compiled : Compiled} {instrs : List Instr}
    {nodes : List Node} (accepted : Accepted program compiled instrs nodes) {platform : Platform}
    (layout : Layout platform.contextAddress platform.stackPointer) (handler : Handler σ) {context : Context}
    (attached : context.handler ≠ 0) (memory : σ) :
    ∃ world host, platform.invoke handler compiled.nodes context memory = .returned world host ∧
      Realized compiled.usage context
        (Guest.Interpreter.run platform.latitude handler program ⟨context, memory⟩) world host := by
  have entered : (platform.enter context).context = context := rfl
  obtain ⟨world, last, way, returns, concluded⟩ :=
    returns_of_accepted (platform.obeys handler) layout accepted (platform.get_enter_rsp context)
      (platform.get_enter_argument context) { state := memory }
  have mirrors := mirrors_entered compiled.usage entered attached memory
  refine ⟨world, _, returns.run, ?_⟩
  have result : (last.set .rsp (platform.stackPointer + 8)).result = last.result :=
    congrArg (BitVec.setWidth 32) (State.get_set_of_ne _ _ (by decide))
  cases concluded with
  | served ended _ finished returned =>
    have tallies : Tallies _ _ _ _ (Guest.Interpreter.run platform.latitude handler program ⟨context, memory⟩) :=
      tallies_of_course accepted.body mirrors ended
    rw [← accepted.footprint] at tallies
    generalize Guest.Interpreter.run platform.latitude handler program ⟨context, memory⟩ = run at tallies
    cases tallies with
    | @onward _ _ g mirrors =>
      obtain rfl := mirrors.attached
      obtain ⟨gp, flags⟩ := mirrors.finished
      refine .ended (result.trans ?_) ?_ ?_ ?_ mirrors.unnamed
      · rw [State.result, returned]
        rfl
      · exact (congrArg Context.gp finished).trans gp
      · exact (congrArg Context.flags finished).trans flags
      · rw [mirrors.guest, Status.replace_and_not_status]
  | failed ended _ returned =>
    have tallies : Tallies _ _ _ _ (Guest.Interpreter.run platform.latitude handler program ⟨context, memory⟩) :=
      tallies_of_course accepted.body mirrors ended
    generalize Guest.Interpreter.run platform.latitude handler program ⟨context, memory⟩ = run at tallies
    cases tallies with
    | failed synced =>
      refine .refused (result.trans ?_) ⟨synced.gp, synced.flags, synced.attached, synced.address⟩
      rw [State.result, returned]
      rfl

end Machine

end Rehost
