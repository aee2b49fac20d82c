import Rehost.Guest.FlatMemory
import Rehost.Proofs.Accesses
import Rehost.Proofs.Invocation

/-!
# Compilation preserves meaning

Calling the code of a compiled program does to registers, flags and memory what its instructions do one
after the other (`meaning_preserved`), whatever the caller and the functions called leave in registers and
flags, and whatever the processor makes of undefined flags.
-/

namespace Rehost

open Guest (Context FlatMemory Handler Interpreter.run)
open Machine (Platform Layout)

variable {σ : Type}

/-- If an instruction is refused an access, the log says so. -/
theorem refused_in_log {latitude : Latitude} {handler : Handler σ} {program : List Guest.Instruction}
    (meant : ∀ i ∈ program, ∃ operation operands, Guest.Interpreter.Meant i operation operands)
    {s g : Guest.Interpreter.State (σ × List Guest.Event)} {address : Word} {fault : Guest.Fault}
    (stopped : Interpreter.run latitude handler.logged program s = .error (.refused g address fault)) :
    ∃ event ∈ g.memory.2, event.refusal ≠ none := by
  obtain ⟨before, i, after, between, rfl, _, refused⟩ := Guest.Interpreter.exists_of_run_error stopped
  obtain ⟨_, _, here⟩ := meant i (by simp)
  obtain ⟨log, access, refusal, _, same, _⟩ := Guest.Interpreter.refused_of_execute here refused
  exact ⟨⟨access, some refusal⟩, by rw [same]; simp, by simp⟩

/-! ### The two executions -/

/-- A call of compiled code returns, with what a call of its listing returns. If no access is refused, that is the
status of success, and registers, flags, memory and the accesses made are those of direct execution; flags other than
the arithmetic ones, and registers that the program does not name, are as they were. -/
theorem meaning_preserved [Linkage] {queue : Queue} {compiled : Compiled} (ok : (compile queue).2 = .ok compiled)
    {platform : Platform} (layout : Layout platform.contextAddress platform.stackPointer) (handler : Handler σ)
    {context : Context} (attached : context.handler ≠ 0) (memory : σ) :
    ∃ world host, platform.call handler.logged compiled.code context (memory, []) = .returned world host ∧
      platform.invoke handler.logged compiled.nodes context (memory, []) = .returned world host ∧
      ((∀ event ∈ world.state.2, event.refusal = none) →
        ∃ g, Interpreter.run platform.latitude handler.logged queue.instructions ⟨context, memory, []⟩ = .ok g ∧
          host.result = Access.served ∧ host.context.gp = g.context.gp ∧ host.context.flags = g.context.flags ∧
          world.state = g.memory ∧
          host.context.flags &&& ~~~Flag.status = context.flags &&& ~~~Flag.status ∧
          ∀ r, (∀ i ∈ queue.instructions, ∀ operand ∈ i.operands.operands, ¬ operand.Names r) →
            host.context.gp.get r = context.gp.get r) := by
  obtain ⟨instrs, nodes, accepted⟩ := accepted_of_compile ok
  obtain ⟨world, host, returned, realized⟩ :=
    Machine.realized_of_accepted accepted layout handler.logged attached (memory, [])
  refine ⟨world, host, ?_, returned, fun served => ?_⟩
  · exact (Machine.call_eq_invoke accepted layout handler.logged context (memory, [])).trans returned
  generalize direct : Interpreter.run platform.latitude handler.logged queue.instructions ⟨context, memory, []⟩ = run
    at realized
  cases realized with
  | @ended g _ result gp flags outside unnamed =>
    refine ⟨g, rfl, result, gp, flags, rfl, by rw [flags, outside], fun r other => ?_⟩
    rw [gp, unnamed r (accepted.not_mem_read other)]
  | refused =>
    obtain ⟨event, member, refused⟩ := refused_in_log (Guest.Interpreter.meant_of_body accepted.body) direct
    exact absurd (served event member) refused

/-! ### A program with accesses -/

/-- Adds to a word in memory. -/
def sampleAdd : Guest.Instruction where
  mnemonic := .op .add
  operands :=
    { first := some (.mem { base := some (.general .rbx), displacement := 8 } .s32)
      second := some (.reg (.general .rax) .s32 false) }

/-- Exchanges the word before it with a register. -/
def sampleExchange : Guest.Instruction where
  mnemonic := .op .xchg
  operands :=
    { first := some (.reg (.general .rcx) .s64 false)
      second := some (.mem { base := some (.general .rbx) } .s64) }

/-- Adds the exchanged word and the carry. -/
def sampleCarry : Guest.Instruction where
  mnemonic := .op .adc
  operands :=
    { first := some (.reg (.general .rdi) .s64 false)
      second := some (.reg (.general .rcx) .s64 false) }

def sample : Queue := ⟨[sampleAdd, sampleExchange, sampleCarry]⟩

/-- A context for the sample, with the address of its words. -/
def sampleContext (address : Word) : Context where
  flags := 0x203
  gp := (RegFile.zero.set .rbx address).set .rax 0xffffffff
  handler := Access.attachedMark

theorem layout_standard : Layout Platform.standard.contextAddress Platform.standard.stackPointer := by
  constructor <;> decide

theorem layout_sample (address : Word) :
    Layout Platform.standard.contextAddress ((Platform.standard.enter (sampleContext address)).get .rsp) := by
  rw [Platform.get_enter_rsp]
  exact layout_standard

section
attribute [local instance] Linkage.standard

theorem sample_compiles : ∃ compiled, (compile sample).2 = .ok compiled :=
  exists_of_isOk (by decide +kernel)

/-- Whether a call of the sample returns with every access served. -/
def sampleServed (memory : FlatMemory) : Bool :=
  match (compile sample).2 with
  | .ok compiled =>
    match Platform.standard.call FlatMemory.handler.logged compiled.code (sampleContext 0x1000) (memory, []) with
    | .returned world _ => world.state.2.all fun event => event.refusal = none
    | _ => false
  | .error _ => false

/-- The sample, with its words mapped: every access is served, and the two executions agree. -/
theorem meaning_preserved_sample : ∃ compiled world host g, (compile sample).2 = .ok compiled ∧
    Platform.standard.call FlatMemory.handler.logged compiled.code (sampleContext 0x1000)
      (.zeros 0x1000 16, []) = .returned world host ∧
    Interpreter.run Platform.standard.latitude FlatMemory.handler.logged sample.instructions
      ⟨sampleContext 0x1000, .zeros 0x1000 16, []⟩ = .ok g ∧
    host.result = Access.served ∧ host.context.gp = g.context.gp ∧ host.context.flags = g.context.flags ∧
    world.state = g.memory := by
  obtain ⟨compiled, ok⟩ := sample_compiles
  have attached : (sampleContext 0x1000).handler ≠ 0 := by decide
  obtain ⟨world, host, returned, _, meaning⟩ :=
    meaning_preserved ok layout_standard FlatMemory.handler attached (.zeros 0x1000 16)
  have mapped : sampleServed (.zeros 0x1000 16) = true := by decide +kernel
  unfold sampleServed at mapped
  simp only [ok, returned, List.all_eq_true, decide_eq_true_eq] at mapped
  obtain ⟨g, direct, result, gp, flags, memory, _⟩ := meaning mapped
  exact ⟨compiled, world, host, g, ok, returned, direct, result, gp, flags, memory⟩

end

end Rehost
