import Rehost.Guest.Recorder
import Rehost.Proofs.Compilation

/-!
# Accesses of direct execution

Any handler can keep a log of what it is asked and how it answers (`Handler.logged`). Under direct execution
the log of a run holds accesses that were served, and ends with the refused one if there is one
(`served_of_run`, `refused_of_execute`). A refused read leaves the registers alone; so does a refused
write, but for that of an exchange.
-/

namespace Rehost

namespace Guest

variable {σ : Type}

/-- An access and how it was refused, if it was. -/
structure Event where
  access : Access
  refusal : Option Refusal
  deriving DecidableEq, Repr

def Access.address : Access → Word
  | .read address _ => address
  | .write address _ => address

namespace Handler

/-- How an access was refused, if it was. -/
def refusal? : Except Refusal Unit → Option Refusal
  | .ok () => none
  | .error refusal => some refusal

/-- The handler with a log, latest access last. -/
def logged (handler : Handler σ) : Handler (σ × List Event) where
  read state address n :=
    let reply := handler.read state.1 address n
    ⟨(reply.state, state.2 ++ [⟨.read address n, refusal? reply.result⟩]), reply.result, reply.buffer⟩
  write state address bytes :=
    let (memory, result) := handler.write state.1 address bytes
    ((memory, state.2 ++ [⟨.write address bytes, refusal? result⟩]), result)

/-- The handler, except that no write is refused. -/
def lenient (handler : Handler σ) : Handler σ where
  read := handler.read
  write state address bytes := ((handler.write state address bytes).1, .ok ())

end Handler

/-- A log goes on with accesses that were served. -/
def Serves (log log' : List Event) : Prop := ∃ more, log' = log ++ more ∧ ∀ event ∈ more, event.refusal = none

namespace Serves

theorem refl (log : List Event) : Serves log log :=
  ⟨[], (List.append_nil log).symm, fun _ member => (List.not_mem_nil member).elim⟩

theorem trans {one two three : List Event} (first : Serves one two) (second : Serves two three) :
    Serves one three := by
  obtain ⟨more, rfl, served⟩ := first
  obtain ⟨rest, rfl, later⟩ := second
  refine ⟨more ++ rest, List.append_assoc .., fun event member => ?_⟩
  exact (List.mem_append.mp member).elim (served event) (later event)

theorem single (log : List Event) (access : Access) : Serves log (log ++ [⟨access, none⟩]) := by
  refine ⟨_, rfl, fun event member => ?_⟩
  obtain rfl := List.mem_singleton.mp member
  rfl

end Serves

namespace Interpreter

variable {handler : Handler σ} {w : Width} {s t : State (σ × List Event)} {address : Word}

/-! ### Single accesses -/

theorem served_of_fetch {value : BitVec w.bits}
    (fetched : fetch handler.logged w s (.memory address) = .ok (value, t)) :
    Serves s.memory.2 t.memory.2 ∧
      value = BitVec.ofNat w.bits (ofBytes (handler.read s.memory.1 address w.bytes).buffer.toList) := by
  simp only [fetch, Handler.logged] at fetched
  split at fetched
  next result =>
    cases fetched
    rw [result]
    exact ⟨.single _ _, rfl⟩
  next => cases fetched

theorem refused_of_fetch {a : Word} {fault : Fault}
    (stopped : fetch handler.logged w s (.memory address) = .error (.refused t a fault)) :
    a = address ∧ t.context = s.context ∧ ∃ refusal : Refusal, fault = refusal.toFault ∧
      t.memory.2 = s.memory.2 ++ [⟨.read address w.bytes, some refusal⟩] := by
  simp only [fetch, Handler.logged] at stopped
  split at stopped
  next => cases stopped
  next refusal result =>
    cases stopped
    rw [result]
    exact ⟨rfl, rfl, refusal, rfl, rfl⟩

theorem served_of_store {value : BitVec w.bits}
    (stored : store handler.logged w value s (.memory address) = .ok t) : Serves s.memory.2 t.memory.2 := by
  simp only [store, Handler.logged] at stored
  split at stored
  next memory result =>
    cases stored
    obtain ⟨rfl, done⟩ := Prod.mk.inj result
    rw [done]
    exact .single _ _
  next => cases stored

theorem refused_of_store {a : Word} {fault : Fault} {value : BitVec w.bits}
    (stopped : store handler.logged w value s (.memory address) = .error (.refused t a fault)) :
    a = address ∧ t.context = s.context ∧ ∃ refusal : Refusal, fault = refusal.toFault ∧
      t.memory.2 = s.memory.2 ++ [⟨.write address (toBytes value w.bytes), some refusal⟩] := by
  simp only [store, Handler.logged] at stopped
  split at stopped
  next => cases stopped
  next memory refusal result =>
    cases stopped
    obtain ⟨rfl, failed⟩ := Prod.mk.inj result
    rw [failed]
    exact ⟨rfl, rfl, refusal, rfl, rfl⟩

/-! ### One instruction -/

/-- What an instruction needs to be executed: operands of a form that its operation has. -/
structure Meant (i : Instruction) (operation : Operation) (operands : Slots Host.Operand) : Prop where
  mnemonic : i.mnemonic = .op operation
  selected : Selection.SelectedSlots i.operands operands
  formed : Host.Formed operation operands

/-- The registers when an access of an instruction is refused: on a read those before the instruction, on a
write those that it leaves if the write is served. Only an exchange has changed one by then, which holds the
value read. -/
def RegistersAt (latitude : Latitude) (handler : Handler σ) (i : Instruction) (s t : State (σ × List Event)) :
    Access → Prop
  | .read _ _ => t.context.gp = s.context.gp
  | .write address _ =>
    (∃ done, execute latitude handler.lenient.logged i s = .ok done ∧ done.context.gp = t.context.gp) ∧
    (i.mnemonic ≠ .op .xchg → t.context.gp = s.context.gp) ∧
    (i.mnemonic = .op .xchg → ∃ r size high w, .reg (.general r) size high ∈ i.operands.operands ∧
      size.width? = some w ∧ t.context.gp = s.context.gp.setPart r high w
        (BitVec.ofNat w.bits (ofBytes (handler.read s.memory.1 address w.bytes).buffer.toList)))

theorem served_of_fetchIf {reads : Bool} {old value : BitVec w.bits}
    (fetched : fetchIf handler.logged reads address old s = .ok (value, t)) : Serves s.memory.2 t.memory.2 := by
  unfold fetchIf at fetched
  split at fetched
  · exact (served_of_fetch fetched).1
  · cases fetched
    exact .refl _

theorem context_of_fetchIf {reads : Bool} {old value : BitVec w.bits}
    (fetched : fetchIf handler.logged reads address old s = .ok (value, t)) : t.context = s.context := by
  unfold fetchIf at fetched
  split at fetched
  · exact context_of_fetch fetched
  · cases fetched
    rfl

/-- Of the operations that write memory, only an exchange changes a register. -/
theorem regs_apply_of_writes (latitude : Latitude) {action : Action} {dst src : Spot}
    (writes : action.writes dst src = true) (scene : Scene w) :
    action = .swap ∨ (scene.apply latitude action dst src).regs = scene.regs := by
  cases action with
  | idle | address | compare f => cases writes
  | swap => exact .inl rfl
  | move | unary f | binary f | shift f =>
    obtain rfl : dst = .cell := by simpa [Action.writes] using writes
    exact .inr rfl

section
variable {latitude : Latitude} {i : Instruction} {operation : Operation} {operands : Slots Host.Operand}
  (meant : Meant i operation operands)
include meant

theorem served_of_execute (done : execute latitude handler.logged i s = .ok t) : Serves s.memory.2 t.memory.2 := by
  rw [execute_eq meant.mnemonic meant.selected meant.formed 0] at done
  obtain ⟨⟨value, between⟩, fetched, done⟩ := ok_of_bind done
  refine (served_of_fetchIf fetched).trans ?_
  simp only [storeIf] at done
  split at done
  · have later := served_of_store done
    exact later
  · cases done
    exact .refl _

/-- An exchange with memory puts the value read into its register. -/
theorem regs_exchange (latitude : Latitude) (xchg : operation = .xchg) {regs : RegFile} (scene : Scene operands.width)
    (writes : operation.action.writes (.ofDst operands) (.ofSrc operation regs operands) = true) :
    ∃ r size high, .reg (.general r) size high ∈ i.operands.operands ∧ size.width? = some operands.width ∧
      (scene.apply latitude operation.action (.ofDst operands) (.ofSrc operation regs operands)).regs =
        scene.regs.setPart r high operands.width scene.cell := by
  subst xchg
  obtain ⟨dst, src, w, rfl, paired, srcWidth⟩ := meant.formed
  obtain ⟨a, b, same, first, second⟩ := meant.selected.two
  have width : Slots.width { first := some dst, second := some src } = w := Machine.width_eq paired.destination _ _ _
  rw [Machine.ofSrc_eq (by decide)] at writes ⊢
  have cell : Spot.ofOperand dst = .cell ∨ Spot.ofOperand src = .cell := of_decide_eq_true writes
  rw [same]
  cases first with
  | imm v _ => cases paired.destination
  | @reg r size high _ wide =>
    cases second with
    | imm v _ => cases srcWidth
    | reg _ _ => cases cell <;> contradiction
    | mem _ =>
      exact ⟨r, size, high, by simp [Slots.operands, Slots.toList], wide, rfl⟩
  | mem _ =>
    cases second with
    | imm v _ => cases srcWidth
    | mem _ => exact absurd ⟨rfl, rfl⟩ paired.apart
    | @reg r size high _ wide =>
      refine ⟨r, size, high, by simp [Slots.operands, Slots.toList], ?_, rfl⟩
      rw [wide, width]
      exact srcWidth

/-- An instruction whose read was served goes through with a handler that refuses no write. -/
theorem lenient_execute {value : BitVec operands.width.bits}
    (fetched : fetchIf handler.logged (operation.action.reads (.ofDst operands) (.ofSrc operation s.context.gp operands))
      (operands.address s.context.gp) 0 s = .ok (value, t))
    (writes : operation.action.writes (.ofDst operands) (.ofSrc operation s.context.gp operands) = true) :
    ∃ memory, execute latitude handler.lenient.logged i s = .ok { t.absorb ((t.scene value).apply latitude
      operation.action (.ofDst operands) (.ofSrc operation s.context.gp operands)) with memory } := by
  rw [execute_eq meant.mnemonic meant.selected meant.formed 0]
  have same : fetchIf handler.lenient.logged
      (operation.action.reads (.ofDst operands) (.ofSrc operation s.context.gp operands))
      (operands.address s.context.gp) 0 s = .ok (value, t) := fetched
  simp only [perform, same, storeIf, if_pos writes]
  exact ⟨_, rfl⟩

/-- When an access is refused, those before it were served, and the registers are known. -/
theorem refused_of_execute {fault : Fault}
    (stopped : execute latitude handler.logged i s = .error (.refused t address fault)) :
    ∃ log access refusal, Serves s.memory.2 log ∧ t.memory.2 = log ++ [⟨access, some refusal⟩] ∧
      access.address = address ∧ fault = refusal.toFault ∧
      RegistersAt latitude handler i s t access := by
  rw [execute_eq meant.mnemonic meant.selected meant.formed 0] at stopped
  obtain refused | ⟨⟨value, between⟩, fetched, stopped⟩ := error_of_bind stopped
  · unfold fetchIf at refused
    split at refused
    · obtain ⟨rfl, same, refusal, rfl, log⟩ := refused_of_fetch refused
      exact ⟨_, _, refusal, .refl _, log, rfl, rfl, congrArg _ same⟩
    · cases refused
  · simp only [storeIf] at stopped
    split at stopped
    next writes =>
      obtain ⟨rfl, same, refusal, rfl, log⟩ := refused_of_store stopped
      have before : between.context.gp = s.context.gp := congrArg _ (context_of_fetchIf fetched)
      refine ⟨between.memory.2, _, refusal, served_of_fetchIf fetched, log, rfl, rfl, ?_, fun other => ?_, fun xchg => ?_⟩
      · obtain ⟨memory, done⟩ := lenient_execute meant fetched writes
        exact ⟨_, done, by rw [same]⟩
      · rw [same]
        refine ((regs_apply_of_writes latitude writes _).resolve_left fun swap => other ?_).trans before
        rw [meant.mnemonic, Machine.eq_xchg_of_action swap]
      · have exchange : operation = .xchg := by
          rw [meant.mnemonic] at xchg
          exact Mnemonic.op.inj xchg
        obtain ⟨r, size, high, member, width, regs⟩ := regs_exchange meant latitude exchange (between.scene value) writes
        refine ⟨r, size, high, _, member, width, ?_⟩
        -- An exchange that writes memory has read it.
        have reads : operation.action.reads (.ofDst operands) (.ofSrc operation s.context.gp operands) = true := by
          subst exchange
          exact writes
        rw [fetchIf, if_pos reads] at fetched
        rw [same, ← (served_of_fetch fetched).2]
        refine regs.trans ?_
        rw [← before]
        rfl
    · cases stopped

end

/-! ### Runs -/

/-- A run that stops does so in one of its instructions, after those before it. -/
theorem exists_of_run_error {latitude : Latitude} {handler : Handler σ} {program : List Instruction} {s : State σ}
    {stop : Stop σ} (stopped : run latitude handler program s = .error stop) :
    ∃ before i after between, program = before ++ i :: after ∧ run latitude handler before s = .ok between ∧
      execute latitude handler i between = .error stop := by
  induction program generalizing s with
  | nil => cases stopped
  | cons i rest ih =>
    obtain here | ⟨next, done, later⟩ := error_of_bind stopped
    · exact ⟨[], i, rest, s, rfl, rfl, here⟩
    · obtain ⟨before, j, after, between, rfl, ran, there⟩ := ih later
      refine ⟨i :: before, j, after, between, rfl, ?_, there⟩
      rw [run, done]
      exact ran

/-- Every access of a run that comes to its end was served. -/
theorem served_of_run {latitude : Latitude} {program : List Instruction}
    (meant : ∀ i ∈ program, ∃ operation operands, Meant i operation operands)
    (done : run latitude handler.logged program s = .ok t) : Serves s.memory.2 t.memory.2 := by
  induction program generalizing s with
  | nil =>
    cases done
    exact .refl _
  | cons i rest ih =>
    obtain ⟨next, first, later⟩ := ok_of_bind done
    obtain ⟨_, _, here⟩ := meant i (List.mem_cons_self ..)
    exact (served_of_execute here first).trans (ih (fun j member => meant j (List.mem_cons_of_mem _ member)) later)

/-- The instructions of a compiled body can be executed. -/
theorem meant_of_body [Linkage] {usage : Usage} {program : List Instruction} {instrs : List Host.Instr}
    {nodes : List Host.Node} (body : Lowering.Body usage program instrs nodes) :
    ∀ i ∈ program, ∃ operation operands, Meant i operation operands := by
  induction body with
  | nil => exact fun i member => (List.not_mem_nil member).elim
  | cons translated lowered _ ih =>
    intro i member
    rcases List.mem_cons.mp member with rfl | later
    · exact ⟨_, _, translated.mnemonic, translated.operands, lowered.formed⟩
    · exact ih i later

end Interpreter

end Guest

end Rehost
