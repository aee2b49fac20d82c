import Rehost.Proofs.Meaning

/-!
# Compiled code keeps to the calling convention

Compiled code calls functions that may return anything and leave anything in registers that are not
preserved. Whatever they do, it returns to its caller with the stack pointer, the preserved registers and
the memory of the caller as they were, says whether a call failed, and makes each call with an aligned stack
and its arguments in place (`convention_kept`).
-/

namespace Rehost

open Guest (FlatMemory)
open Host (Instr)
open Machine (Env State Layout Executed Platform Prepared Met Broken)

variable {σ : Type}

/-! ### The calls of a run -/

/-- A call of the right size was demanded. -/
theorem isAccessSize_of_mem_demands {i : Instr} {direction : Direction} {size : Nat}
    (member : (direction, size) ∈ Lowering.demands i) : Guest.isAccessSize size = true := by
  have sized (m : Host.Mem) : Guest.isAccessSize m.width.bytes = true := by cases m.width <;> rfl
  have single {wanted : Bool} {found : Direction} {m : Host.Mem}
      (inside : (direction, size) ∈ Lowering.demand wanted found m.width.bytes) :
      Guest.isAccessSize size = true := by
    unfold Lowering.demand at inside
    split at inside
    · obtain ⟨rfl, rfl⟩ := Prod.mk.inj (List.mem_singleton.mp inside)
      exact sized m
    · cases inside
  unfold Lowering.demands at member
  split at member
  · cases member
  · split at member
    · exact (List.mem_append.mp member).elim single single
    · cases member

namespace Machine

variable [Linkage] {contextAddress : Word} {demanded : List (Direction × Nat)} {calls : List Executed}

/-- The calls made are those demanded first, in order. -/
def Ordered (contextAddress : Word) (demanded : List (Direction × Nat)) (calls : List Executed) : Prop :=
  ∀ (k : Nat) (e : Executed), calls[k]? = some e → ∃ direction size,
    demanded[k]? = some (direction, size) ∧ Prepared contextAddress direction size e.before

theorem Ordered.nil : Ordered contextAddress demanded [] := by
  intro k e found
  cases found

theorem Ordered.cons {direction : Direction} {size : Nat} {e : Executed}
    (prepared : Prepared contextAddress direction size e.before) (rest : Ordered contextAddress demanded calls) :
    Ordered contextAddress ((direction, size) :: demanded) (e :: calls) := by
  intro k e' found
  cases k with
  | zero =>
    cases found
    exact ⟨direction, size, rfl, prepared⟩
  | succ k => exact rest k e' found

theorem Met.ordered (met : Met contextAddress demanded calls) : Ordered contextAddress demanded calls := by
  induction met with
  | nil => exact .nil
  | cons prepared _ _ ih => exact ih.cons prepared

theorem Broken.ordered (broken : Broken contextAddress demanded calls) : Ordered contextAddress demanded calls := by
  induction broken with
  | here prepared _ => exact Ordered.nil.cons prepared
  | later prepared _ _ ih => exact ih.cons prepared

theorem Met.all_served (met : Met contextAddress demanded calls) :
    (∀ e ∈ calls, e.after.result = 0) ∧ calls.length = demanded.length := by
  induction met with
  | nil => exact ⟨fun _ member => (List.not_mem_nil member).elim, rfl⟩
  | cons _ served _ ih => exact ⟨List.forall_mem_cons.mpr ⟨served, ih.1⟩, congrArg (· + 1) ih.2⟩

theorem Broken.exists_failed (broken : Broken contextAddress demanded calls) : ∃ e ∈ calls, e.after.result ≠ 0 := by
  induction broken with
  | here _ failed => exact ⟨_, List.mem_singleton.mpr rfl, failed⟩
  | later _ _ _ ih =>
    obtain ⟨e, member, failed⟩ := ih
    exact ⟨e, List.mem_cons_of_mem _ member, failed⟩

end Machine

/-! ### Returning to the caller -/

/-- However the functions it calls answer, compiled code reaches its return, as a listing and in bytes, with the stack
pointer, the preserved registers and the caller's memory as they were. It returns 0 exactly if every call did, and 1
otherwise. Its calls are those that the instructions demand, in order, and all of them if none fails; each
finds the stack aligned, the context as first argument, and the width of the access as second. -/
theorem convention_kept [Linkage] {env : Env σ} (obeys : env.Obeys .any) {queue : Queue}
    {compiled : Compiled} (ok : (compile queue).2 = .ok compiled) {s : State}
    (layout : Layout env.contextAddress (s.get .rsp))
    (argument : s.get Host.Convention.firstArgument = env.contextAddress) (world : σ) :
    ∃ world' s' last way,
      Machine.run env compiled.nodes (compiled.nodes.length + 1) ⟨compiled.nodes, world, s⟩ = .returned world' s' ∧
      Machine.runCode env compiled.code (compiled.code.length + 1) ⟨0, world, s⟩ = .returned world' s' ∧
      Machine.trace env compiled.nodes (compiled.nodes.length + 1) ⟨compiled.nodes, world, s⟩ =
        way ++ [⟨.bare .ret, last, s'⟩] ∧
      last.get .rsp = s.get .rsp ∧ (∀ r ∈ Host.Convention.calleeSaved, last.get r = s.get r) ∧
      (∀ a, (s.get .rsp).toNat ≤ a.toNat → last.cells a = s.cells a) ∧
      last.result = (if ∀ e ∈ way.filter Executed.isCall, e.after.result = 0 then Access.served else Access.failed) ∧
      ((∀ e ∈ way.filter Executed.isCall, e.after.result = 0) →
        (way.filter Executed.isCall).length =
          ((Queue.selectAll queue.instructions).1.flatMap Lowering.demands).length) ∧
      ∀ (k : Nat) (e : Executed), (way.filter Executed.isCall)[k]? = some e → ∃ direction size,
        ((Queue.selectAll queue.instructions).1.flatMap Lowering.demands)[k]? = some (direction, size) ∧
        Guest.isAccessSize size = true ∧ e.before.get .rax = Linkage.entryPoint direction ∧
        (e.before.get .rsp).toNat % 16 = 0 ∧ e.before.get Host.Convention.firstArgument = env.contextAddress ∧
        (e.before.get Host.Convention.secondArgument).setWidth 32 = BitVec.ofNat 32 size := by
  obtain ⟨instrs, nodes, accepted⟩ := accepted_of_compile ok
  obtain ⟨world', last, way, returns, concluded⟩ :=
    Machine.returns_of_accepted obeys layout accepted rfl argument world
  have selected : (Queue.selectAll queue.instructions).1 = instrs := by rw [accepted.selected]
  rw [selected]
  have coded := Machine.runCode_of_accepted accepted obeys layout argument world
  refine ⟨world', _, last, way, returns.run, coded.trans returns.run, returns.trace, returns.pointer, returns.saved,
    returns.cells, ?_⟩
  have finds (ordered : Machine.Ordered env.contextAddress (instrs.flatMap Lowering.demands)
      (way.filter Executed.isCall)) (k : Nat) (e : Executed) (found : (way.filter Executed.isCall)[k]? = some e) :
      ∃ direction size, (instrs.flatMap Lowering.demands)[k]? = some (direction, size) ∧
        Guest.isAccessSize size = true ∧ e.before.get .rax = Linkage.entryPoint direction ∧
        (e.before.get .rsp).toNat % 16 = 0 ∧ e.before.get Host.Convention.firstArgument = env.contextAddress ∧
        (e.before.get Host.Convention.secondArgument).setWidth 32 = BitVec.ofNat 32 size := by
    obtain ⟨direction, size, demanded, prepared⟩ := ordered k e found
    obtain ⟨i, _, member⟩ := List.mem_flatMap.mp (List.mem_of_getElem? demanded)
    exact ⟨direction, size, demanded, isAccessSize_of_mem_demands member, prepared.target, prepared.aligned,
      prepared.context, prepared.size⟩
  cases concluded with
  | served _ met _ result =>
    obtain ⟨zero, count⟩ := met.all_served
    refine ⟨?_, fun _ => count, finds met.ordered⟩
    rw [if_pos zero, State.result, result]
    rfl
  | failed _ broken result =>
    obtain ⟨e, member, failed⟩ := broken.exists_failed
    have notAll : ¬ ∀ e ∈ way.filter Executed.isCall, e.after.result = 0 := fun all => failed (all e member)
    refine ⟨?_, fun all => absurd all notAll, finds broken.ordered⟩
    rw [if_neg notAll, State.result, result]
    rfl

section
attribute [local instance] Linkage.standard

/-- The sample, called on the standard platform with only one of its words mapped. -/
theorem convention_kept_sample : ∃ compiled world' s' last way, (compile sample).2 = .ok compiled ∧
    Machine.run (Platform.standard.env FlatMemory.handler) compiled.nodes (compiled.nodes.length + 1)
      ⟨compiled.nodes, { state := .zeros 0x1008 8 }, Platform.standard.enter (sampleContext 0x1000)⟩ =
        .returned world' s' ∧
    Machine.trace (Platform.standard.env FlatMemory.handler) compiled.nodes (compiled.nodes.length + 1)
      ⟨compiled.nodes, { state := .zeros 0x1008 8 }, Platform.standard.enter (sampleContext 0x1000)⟩ =
        way ++ [⟨.bare .ret, last, s'⟩] ∧
    last.get .rsp = Platform.standard.stackPointer ∧
    (∀ r ∈ Host.Convention.calleeSaved, last.get r = (Platform.standard.enter (sampleContext 0x1000)).get r) ∧
    last.result = (if ∀ e ∈ way.filter Executed.isCall, e.after.result = 0 then Access.served else Access.failed) := by
  obtain ⟨compiled, ok⟩ := sample_compiles
  obtain ⟨world', s', last, way, run, _, trace, same, saved, _, result, _⟩ :=
    convention_kept (Platform.standard.obeys FlatMemory.handler).any ok (layout_sample 0x1000)
      (Platform.standard.get_enter_argument (sampleContext 0x1000)) { state := .zeros 0x1008 8 }
  exact ⟨compiled, world', s', last, way, ok, run, trace, same.trans (Platform.standard.get_enter_rsp _), saved, result⟩

end

end Rehost
