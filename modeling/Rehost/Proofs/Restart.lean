import Rehost.Proofs.Faults

/-!
# Starting again after a fault

Direct execution cannot tell states apart that have the same registers, arithmetic flags and memory (`alike_run`).
So a block of the instructions from the refused one on ends as the uninterrupted execution does, if it is entered with
the registers and arithmetic flags from before that instruction (`resumes_of_alike`). A fault leaves these registers,
and the flags of entry (`restart_after_fault`). It does not leave the state before the instruction in general: flags
set since are lost, and an exchange whose write is refused has changed its register (`fault_not_restartable`).
-/

namespace Rehost

open Guest (Context Handler Recorder Interpreter.run Interpreter.execute)
open Guest.Interpreter (Meant Stop)
open Machine (Platform Layout)

variable {σ : Type}

namespace Guest.Interpreter

/-! ### States that execution cannot tell apart -/

/-- The same registers, arithmetic flags and memory. -/
structure Alike (s t : State σ) : Prop where
  gp : s.context.gp = t.context.gp
  status : s.status = t.status
  memory : s.memory = t.memory

section
variable {handler : Handler σ} {s t s' : State σ} {w : Width} {address : Word}

theorem alike_fetch (alike : Alike s t) {value : BitVec w.bits}
    (fetched : fetch handler w s (.memory address) = .ok (value, s')) :
    ∃ t', fetch handler w t (.memory address) = .ok (value, t') ∧ Alike s' t' := by
  simp only [fetch, ← alike.memory] at fetched ⊢
  split at fetched
  next =>
    cases fetched
    exact ⟨_, rfl, alike.gp, alike.status, rfl⟩
  next => cases fetched

theorem alike_store (alike : Alike s t) {value : BitVec w.bits}
    (stored : store handler w value s (.memory address) = .ok s') :
    ∃ t', store handler w value t (.memory address) = .ok t' ∧ Alike s' t' := by
  simp only [store, ← alike.memory] at stored ⊢
  split at stored
  next =>
    cases stored
    exact ⟨_, rfl, alike.gp, alike.status, rfl⟩
  next => cases stored

theorem Alike.scene (alike : Alike s t) (value : BitVec w.bits) : s.scene value = t.scene value := by
  simp only [State.scene, alike.gp, alike.status]

theorem Alike.absorb (alike : Alike s t) (scene : Scene w) : Alike (s.absorb scene) (t.absorb scene) := by
  refine ⟨rfl, ?_, alike.memory⟩
  simp only [State.status, State.absorb, Status.ofWord_replace]

theorem alike_fetchIf (alike : Alike s t) {reads : Bool} {old value : BitVec w.bits}
    (fetched : fetchIf handler reads address old s = .ok (value, s')) :
    ∃ t', fetchIf handler reads address old t = .ok (value, t') ∧ Alike s' t' := by
  cases reads with
  | true => exact alike_fetch alike fetched
  | false =>
    cases fetched
    exact ⟨t, rfl, alike⟩

theorem alike_storeIf (alike : Alike s t) {writes : Bool} {value : BitVec w.bits}
    (stored : storeIf handler writes address value s = .ok s') :
    ∃ t', storeIf handler writes address value t = .ok t' ∧ Alike s' t' := by
  cases writes with
  | true => exact alike_store alike stored
  | false =>
    cases stored
    exact ⟨t, rfl, alike⟩

theorem alike_perform (alike : Alike s t) {latitude : Latitude} {action : Action} {dst src : Spot}
    {old : BitVec w.bits} (done : perform latitude handler address action dst src old s = .ok s') :
    ∃ t', perform latitude handler address action dst src old t = .ok t' ∧ Alike s' t' := by
  obtain ⟨⟨value, between⟩, fetched, stored⟩ := ok_of_bind done
  obtain ⟨between', fetched', alike'⟩ := alike_fetchIf alike fetched
  rw [perform, fetched']
  change ∃ t', storeIf handler _ address _ (between'.absorb _) = .ok t' ∧ Alike s' t'
  rw [← alike'.scene]
  exact alike_storeIf (alike'.absorb _) stored

theorem alike_execute (alike : Alike s t) {latitude : Latitude} {i : Instruction} {operation : Operation}
    {operands : Slots Host.Operand} (meant : Meant i operation operands)
    (done : execute latitude handler i s = .ok s') : ∃ t', execute latitude handler i t = .ok t' ∧ Alike s' t' := by
  rw [execute_eq meant.mnemonic meant.selected meant.formed 0] at done ⊢
  rw [← alike.gp]
  exact alike_perform alike done

end

theorem alike_run {handler : Handler σ} {latitude : Latitude} {program : List Instruction}
    (meant : ∀ i ∈ program, ∃ operation operands, Meant i operation operands) {s t s' : State σ} (alike : Alike s t)
    (done : run latitude handler program s = .ok s') : ∃ t', run latitude handler program t = .ok t' ∧ Alike s' t' := by
  induction program generalizing s t with
  | nil =>
    cases done
    exact ⟨t, rfl, alike⟩
  | cons i rest later =>
    obtain ⟨between, first, done⟩ := ok_of_bind done
    obtain ⟨_, _, here⟩ := meant i (List.mem_cons_self ..)
    obtain ⟨between', first', alike'⟩ := alike_execute alike here first
    rw [run, first']
    exact later (fun j member => meant j (List.mem_cons_of_mem _ member)) alike' done

end Guest.Interpreter

/-- Flags words have the same arithmetic flags if they are the same where these are. -/
theorem Status.ofWord_eq_iff {one two : Word} :
    Status.ofWord one = Status.ofWord two ↔ one &&& Flag.status = two &&& Flag.status := by
  rw [Status.and_status, Status.and_status]
  refine ⟨congrArg _, fun same => ?_⟩
  rw [← Status.ofWord_toWord (.ofWord one), same, Status.ofWord_toWord]

/-! ### Executions of a block -/

/-- The state in which direct execution of a block's program begins. -/
def Block.entry (context : Context) (memory : σ) : Guest.Interpreter.State σ :=
  ⟨{ context with handler := Access.attachedMark }, memory⟩

/-- An execution with this result, these flags, and the registers and memory of a state. -/
structure Block.Execution.Leaves (execution : Block.Execution σ) (result : Except Error Unit) (flags : Word)
    (g : Guest.Interpreter.State σ) : Prop where
  result : execution.result = result
  flags : execution.context.flags = flags
  gp : execution.context.gp = g.context.gp
  memory : execution.memory = g.memory

section
variable [Linkage] {queue : Queue} {compiled : Compiled} (ok : (compile queue).2 = .ok compiled) {block : Block}
  (installed : block.code = some compiled.code) {platform : Platform}
  (layout : Layout platform.contextAddress platform.stackPointer) {handler : Handler σ} {context : Context} {memory : σ}
include ok installed layout

/-- An execution ends as direct execution of the program does, or with the fault that stops it. -/
theorem execute_cases (handler : Handler σ) (context : Context) (memory : σ) :
    (∃ g, Interpreter.run platform.latitude handler queue.instructions (Block.entry context memory) = .ok g ∧
      (block.execute platform handler context memory).Leaves (.ok ()) g.context.flags g) ∨
    ∃ g address fault, Interpreter.run platform.latitude handler queue.instructions (Block.entry context memory) =
        .error (.refused g address fault) ∧
      (block.execute platform handler context memory).Leaves (.error (.memoryFault fault)) context.flags g := by
  obtain ⟨instrs, nodes, accepted⟩ := accepted_of_compile ok
  obtain ⟨world, host, _, executed, realized⟩ :=
    realized_of_execute accepted installed layout handler context memory
  rw [executed]
  generalize direct : Interpreter.run platform.latitude handler queue.instructions
    ⟨{ context with handler := Access.attachedMark }, memory⟩ = run at realized
  cases realized with
  | @ended g _ result gp flags =>
    exact .inl ⟨g, direct, by simp only [result]; rfl, flags, gp, rfl⟩
  | @refused g _ address fault result synced =>
    exact .inr ⟨g, address, fault, direct, by simp only [result]; rfl, synced.flags, synced.gp, rfl⟩

theorem leaves_of_run {g : Guest.Interpreter.State σ}
    (ran : Interpreter.run platform.latitude handler queue.instructions (Block.entry context memory) = .ok g) :
    (block.execute platform handler context memory).Leaves (.ok ()) g.context.flags g := by
  obtain ⟨g', ran', leaves⟩ | ⟨_, _, _, stopped, _⟩ := execute_cases ok installed layout handler context memory
  · cases ran.symm.trans ran'
    exact leaves
  · cases ran.symm.trans stopped

theorem leaves_of_refused {g : Guest.Interpreter.State σ} {address : Word} {fault : Guest.Fault}
    (stopped : Interpreter.run platform.latitude handler queue.instructions (Block.entry context memory) =
      .error (.refused g address fault)) :
    (block.execute platform handler context memory).Leaves (.error (.memoryFault fault)) context.flags g := by
  obtain ⟨_, ran, _⟩ | ⟨g', _, _, stopped', leaves⟩ := execute_cases ok installed layout handler context memory
  · cases stopped.symm.trans ran
  · cases stopped.symm.trans stopped'
    exact leaves

theorem run_of_succeeded (succeeded : (block.execute platform handler context memory).result = .ok ()) :
    ∃ g, Interpreter.run platform.latitude handler queue.instructions (Block.entry context memory) = .ok g := by
  obtain ⟨g, ran, _⟩ | ⟨_, _, _, _, leaves⟩ := execute_cases ok installed layout handler context memory
  · exact ⟨g, ran⟩
  · cases succeeded.symm.trans leaves.result

end

/-! ### Starting again -/

/-- A block of the remaining instructions, executed on `resumed`, ends as the uninterrupted execution of `block` on
`context` does, on a processor of this latitude, whatever else the two are executed on. The handler that now accepts
every access is arbitrary, but serves the instructions before so that they come to `reached` again, where the remaining
ones take over from it. -/
def Resumes [Linkage] (latitude : Latitude) (block : Block) (context : Context) (before rest : List Guest.Instruction)
    (reached resumed : Context) : Prop :=
  ∀ (one two : Platform), one.latitude = latitude → two.latitude = latitude →
    Layout one.contextAddress one.stackPointer → Layout two.contextAddress two.stackPointer →
    ∀ (τ : Type) (accepting : Handler τ) (start : τ) (memory : τ × List Guest.Event) (tail : Compiled) (later : Block),
    Interpreter.run latitude accepting.logged before (Block.entry context (start, [])) = .ok ⟨reached, memory⟩ →
    (block.execute one accepting.logged context (start, [])).result = .ok () →
    (compile ⟨rest⟩).2 = .ok tail → later.code = some tail.code →
    (later.execute two accepting.logged resumed memory).result = .ok () ∧
    (later.execute two accepting.logged resumed memory).context.gp =
      (block.execute one accepting.logged context (start, [])).context.gp ∧
    (later.execute two accepting.logged resumed memory).context.flags &&& Flag.status =
      (block.execute one accepting.logged context (start, [])).context.flags &&& Flag.status ∧
    (later.execute two accepting.logged resumed memory).memory =
      (block.execute one accepting.logged context (start, [])).memory

/-- Whether an access is the write of an exchange. -/
def Guest.Access.OfExchange (i : Guest.Instruction) : Guest.Access → Prop
  | .read _ _ => False
  | .write _ _ => i.mnemonic = .op .xchg

theorem resumes_of_alike [Linkage] {queue : Queue} {compiled : Compiled} (ok : (compile queue).2 = .ok compiled)
    {block : Block} (installed : block.code = some compiled.code) {before rest : List Guest.Instruction}
    (split : queue.instructions = before ++ rest) {context reached resumed : Context} (gp : resumed.gp = reached.gp)
    (flags : resumed.flags &&& Flag.status = reached.flags &&& Flag.status) (latitude : Latitude) :
    Resumes latitude block context before rest reached resumed := by
  intro one two first second layout layout' τ accepting start memory tail later ran succeeded compiles holds
  obtain ⟨g, whole⟩ := run_of_succeeded ok installed layout succeeded
  rw [← first] at second ran
  obtain ⟨instrs, nodes, accepted⟩ := accepted_of_compile ok
  have meant := Guest.Interpreter.meant_of_body accepted.body
  have uninterrupted := leaves_of_run ok installed layout whole
  rw [split, Guest.Interpreter.run_append, ran] at whole
  rw [split] at meant
  have alike : Guest.Interpreter.Alike ⟨reached, memory⟩ (Block.entry resumed memory) :=
    ⟨gp.symm, Status.ofWord_eq_iff.2 flags.symm, rfl⟩
  obtain ⟨g', again, alike'⟩ :=
    Guest.Interpreter.alike_run (fun i member => meant i (List.mem_append_right _ member)) alike whole
  rw [← second] at again
  have resumption := leaves_of_run compiles holds layout' again
  refine ⟨resumption.result, ?_, ?_, ?_⟩
  · rw [resumption.gp, uninterrupted.gp, alike'.gp]
  · rw [resumption.flags, uninterrupted.flags, Status.ofWord_eq_iff.1 alike'.status]
  · rw [resumption.memory, uninterrupted.memory, alike'.memory]

/-- What an execution on `context` leaves to start again from when `access` of `i` is refused: `s` is the state of
direct execution before `i`. -/
structure Restartable [Linkage] (latitude : Latitude) (handler : Handler σ) (block : Block) (context : Context)
    (before : List Guest.Instruction) (i : Guest.Instruction) (after : List Guest.Instruction)
    (s : Guest.Interpreter.State (σ × List Guest.Event)) (access : Guest.Access) (left : Context) : Prop where
  gp : ¬access.OfExchange i → left.gp = s.context.gp
  /-- The register of an exchange already holds the value read. -/
  exchanged : access.OfExchange i → ∃ r size high w, .reg (.general r) size high ∈ i.operands.operands ∧
    size.width? = some w ∧ left.gp = s.context.gp.setPart r high w
      (BitVec.ofNat w.bits (ofBytes (handler.read s.memory.1 access.address w.bytes).buffer.toList))
  flags : left.flags = context.flags
  resumes : ∀ resumed : Context, resumed.gp = s.context.gp →
    resumed.flags &&& Flag.status = s.context.flags &&& Flag.status →
    Resumes latitude block context before (i :: after) s.context resumed
  /-- If the instructions before `i` have kept the arithmetic flags, the context that is left will do. -/
  again : ¬access.OfExchange i → context.flags &&& Flag.status = s.context.flags &&& Flag.status →
    Resumes latitude block context before (i :: after) s.context left

/-- A fault leaves the registers from before the refused instruction and the flags of entry, but for the write of an
exchange. With the registers and arithmetic flags from before it, the instruction can be started again. -/
theorem restart_after_fault [Linkage] {queue : Queue} {compiled : Compiled} (ok : (compile queue).2 = .ok compiled)
    {block : Block} (installed : block.code = some compiled.code) {platform : Platform}
    (layout : Layout platform.contextAddress platform.stackPointer) (handler : Handler σ) (context : Context)
    (memory : σ) {before after : List Guest.Instruction} {i : Guest.Instruction}
    (split : queue.instructions = before ++ i :: after)
    {s g : Guest.Interpreter.State (σ × List Guest.Event)} {address : Word} {fault : Guest.Fault}
    (ran : Interpreter.run platform.latitude handler.logged before (Block.entry context (memory, [])) = .ok s)
    (stopped : Interpreter.execute platform.latitude handler.logged i s = .error (.refused g address fault)) :
    ∃ log access refusal,
      (block.execute platform handler.logged context (memory, [])).memory.2 = log ++ [⟨access, some refusal⟩] ∧
      Restartable platform.latitude handler block context before i after s access
        (block.execute platform handler.logged context (memory, [])).context := by
  obtain ⟨instrs, nodes, accepted⟩ := accepted_of_compile ok
  have meant := Guest.Interpreter.meant_of_body accepted.body
  rw [split] at meant
  obtain ⟨_, _, here⟩ := meant i (by simp)
  obtain ⟨log, access, refusal, _, same, _, _, registers⟩ := Guest.Interpreter.refused_of_execute here stopped
  have left := leaves_of_refused ok installed layout (split ▸ run_of_refused ran stopped)
  have gp : ¬access.OfExchange i →
      (block.execute platform handler.logged context (memory, [])).context.gp = s.context.gp := by
    intro other
    rw [left.gp]
    cases access with
    | read => exact registers
    | write => exact registers.2.1 other
  refine ⟨log, access, refusal, by rw [left.memory, same], gp, fun exchange => ?_, left.flags,
    fun resumed same kept => resumes_of_alike ok installed split same kept _, fun other kept => ?_⟩
  · rw [left.gp]
    cases access with
    | read => cases exchange
    | write => exact registers.2.2 exchange
  · exact resumes_of_alike ok installed split (gp other) (by rw [left.flags, kept]) _

/-! ### Refused samples -/

/-- Two words of memory, the first of them `5`. -/
def sampleWords (interruption : Option Guest.Interruption) : Recorder where
  memory := ⟨0x1000, 5 :: List.replicate 15 0⟩
  interruption := interruption

/-- The words of a memory that breaks down at the fourth access. -/
def refusingWords : Recorder := sampleWords (some ⟨4, .breakdown none⟩)

/-- Direct execution on the sample context. -/
def sampleRun (program : List Guest.Instruction) (memory : Recorder) :
    Except (Stop (Recorder × List Guest.Event)) (Guest.Interpreter.State (Recorder × List Guest.Event)) :=
  Interpreter.run Platform.standard.latitude Recorder.handler.logged program
    (Block.entry (sampleContext 0x1000) (memory, []))

/-- A block with some code. -/
def Block.holding (compiled : Compiled) : Block := { address := 0, code := some compiled.code }

theorem Block.code_holding (compiled : Compiled) : (Block.holding compiled).code = some compiled.code := rfl

section
attribute [local instance] Linkage.standard

/-- Execution of some code on the sample context. -/
def sampleExecution (compiled : Compiled) (memory : Recorder) : Block.Execution (Recorder × List Guest.Event) :=
  (Block.holding compiled).execute Platform.standard Recorder.handler.logged (sampleContext 0x1000) (memory, [])

/-- Whether `second` is refused an access after `first`, with states before and at the refusal that pass a check. -/
def refusedAfter (first second : Guest.Instruction)
    (check : (s g : Guest.Interpreter.State (Recorder × List Guest.Event)) → Bool) : Bool :=
  match sampleRun [first] refusingWords with
  | .ok s =>
    match Interpreter.execute Platform.standard.latitude Recorder.handler.logged second s with
    | .error (.refused g _ _) => check s g
    | _ => false
  | .error _ => false

theorem exists_of_refusedAfter {first second : Guest.Instruction}
    {check : (s g : Guest.Interpreter.State (Recorder × List Guest.Event)) → Bool}
    (refused : refusedAfter first second check = true) :
    ∃ s g address fault, sampleRun [first] refusingWords = .ok s ∧
      Interpreter.execute Platform.standard.latitude Recorder.handler.logged second s =
        .error (.refused g address fault) ∧ check s g = true := by
  unfold refusedAfter at refused
  split at refused
  next s ran =>
    split at refused
    next g address fault stopped => exact ⟨s, g, address, fault, ran, stopped, refused⟩
    next => cases refused
  next => cases refused

/-- An addition to memory is refused its write, after an exchange. The exchange leaves the flags alone, so the addition
and what follows it can be executed on the context that is left. -/
theorem restart_after_fault_sample : ∃ compiled tail s g address fault memory,
    (compile ⟨[sampleExchange, sampleAdd, sampleCarry]⟩).2 = .ok compiled ∧
    (compile ⟨[sampleAdd, sampleCarry]⟩).2 = .ok tail ∧
    sampleRun [sampleExchange] refusingWords = .ok s ∧
    Interpreter.execute Platform.standard.latitude Recorder.handler.logged sampleAdd s =
      .error (.refused g address fault) ∧
    sampleRun [sampleExchange] (sampleWords none) = .ok ⟨s.context, memory⟩ ∧
    (sampleExecution compiled (sampleWords none)).result = .ok () ∧
    ∃ left, left = (sampleExecution compiled refusingWords).context ∧ left.gp = s.context.gp ∧
      ((Block.holding tail).execute Platform.standard Recorder.handler.logged left memory).context.gp =
        (sampleExecution compiled (sampleWords none)).context.gp ∧
      ((Block.holding tail).execute Platform.standard Recorder.handler.logged left memory).memory =
        (sampleExecution compiled (sampleWords none)).memory := by
  obtain ⟨compiled, ok⟩ : ∃ compiled, (compile ⟨[sampleExchange, sampleAdd, sampleCarry]⟩).2 = .ok compiled :=
    exists_of_isOk (by decide +kernel)
  obtain ⟨tail, compiles⟩ : ∃ tail, (compile ⟨[sampleAdd, sampleCarry]⟩).2 = .ok tail :=
    exists_of_isOk (by decide +kernel)
  obtain ⟨⟨reached, memory⟩, served⟩ : ∃ t, sampleRun [sampleExchange] (sampleWords none) = .ok t :=
    exists_of_isOk (by decide +kernel)
  obtain ⟨_, whole⟩ : ∃ t, sampleRun [sampleExchange, sampleAdd, sampleCarry] (sampleWords none) = .ok t :=
    exists_of_isOk (by decide +kernel)
  have checked : refusedAfter sampleExchange sampleAdd (fun s _ =>
      (sampleContext 0x1000).flags &&& Flag.status = s.context.flags &&& Flag.status ∧
        (sampleRun [sampleExchange] (sampleWords none)).toOption.map (·.context) = some s.context) = true := by
    decide +kernel
  obtain ⟨s, g, address, fault, ran, stopped, check⟩ := exists_of_refusedAfter checked
  obtain ⟨kept, same⟩ := of_decide_eq_true check
  rw [served] at same
  cases Option.some.inj same
  have succeeded := (leaves_of_run ok (Block.code_holding compiled) layout_standard whole).result
  have split : Queue.instructions ⟨[sampleExchange, sampleAdd, sampleCarry]⟩ =
      [sampleExchange] ++ sampleAdd :: [sampleCarry] := rfl
  obtain ⟨_, access, _, _, restartable⟩ := restart_after_fault ok (Block.code_holding compiled) layout_standard
    Recorder.handler (sampleContext 0x1000) refusingWords split ran stopped
  have plain : ¬access.OfExchange sampleAdd := by
    intro exchange
    cases access with
    | read => cases exchange
    | write => cases exchange
  obtain ⟨_, registers, _, accesses⟩ := restartable.again plain kept .standard .standard rfl rfl layout_standard
    layout_standard Recorder Recorder.handler (sampleWords none) memory tail (.holding tail) served succeeded compiles
    rfl
  exact ⟨compiled, tail, s, g, address, fault, memory, ok, compiles, ran, stopped, served, succeeded, _, rfl,
    restartable.gp plain, registers, accesses⟩

/-- The exchange of the sample is refused its write. Neither its register nor the flags that the addition has set are
left as they were before it. -/
theorem fault_not_restartable : ∃ compiled s g address fault, (compile sample).2 = .ok compiled ∧
    sampleRun [sampleAdd] refusingWords = .ok s ∧
    Interpreter.execute Platform.standard.latitude Recorder.handler.logged sampleExchange s =
      .error (.refused g address fault) ∧
    (sampleExecution compiled refusingWords).context.gp ≠ s.context.gp ∧
    (sampleExecution compiled refusingWords).context.flags &&& Flag.status ≠ s.context.flags &&& Flag.status := by
  obtain ⟨compiled, ok⟩ := sample_compiles
  have checked : refusedAfter sampleAdd sampleExchange (fun s g => g.context.gp ≠ s.context.gp ∧
      (sampleContext 0x1000).flags &&& Flag.status ≠ s.context.flags &&& Flag.status) = true := by
    decide +kernel
  obtain ⟨s, g, address, fault, ran, stopped, check⟩ := exists_of_refusedAfter checked
  obtain ⟨gp, flags⟩ := of_decide_eq_true check
  have left : (sampleExecution compiled refusingWords).Leaves _ _ g :=
    leaves_of_refused ok (Block.code_holding compiled) layout_standard (run_of_refused ran stopped)
  refine ⟨compiled, s, g, address, fault, ok, ran, stopped, ?_, ?_⟩
  · rwa [left.gp]
  · rwa [left.flags]

end

end Rehost
