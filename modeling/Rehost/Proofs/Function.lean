import Rehost.Proofs.Course

/-!
# The whole function

A compiled function is entered with the address of a context as its argument and the stack pointer of a
call. However called functions answer, it returns: after a course of its body that ended, or from the
fault exit after one that failed (`returns_of_accepted`). Either way the stack pointer, the registers
that functions preserve and the memory of the caller are then as they were.
-/

namespace Rehost.Machine

open Guest (Context)
open Host (Instr Node Operand Label)

variable {σ : Type}

/-! ### Returning -/

theorem step_ret {env : Env σ} {entry : Word} (layout : Layout env.contextAddress entry) {s : State}
    (pointer : s.get .rsp = entry) (world : σ) :
    step env (.bare .ret) world s = some (world, s.set .rsp (entry + 8), .leave) := by
  have place := place_below layout (Nat.zero_le _)
  rw [below_zero] at place
  simp [step, Instr.bare, pop, pointer, place]

/-- A run that reaches a return ends there. -/
theorem Reaches.returned {env : Env σ} {entry : Word} (layout : Layout env.contextAddress entry)
    {program rest : List Node} {steps fuel : Nat} {start : Config σ} {way : List Executed} {world : σ} {s : State}
    (reaches : Reaches env program steps start way ⟨.instr (.bare .ret) :: rest, world, s⟩)
    (pointer : s.get .rsp = entry) (enough : steps + 1 ≤ fuel) :
    Machine.run env program fuel start = .returned world (s.set .rsp (entry + 8)) ∧
      Machine.trace env program fuel start = way ++ [⟨.bare .ret, s, s.set .rsp (entry + 8)⟩] := by
  obtain ⟨more, rfl⟩ := Nat.exists_eq_add_of_le enough
  have done := step_ret layout pointer world
  rw [Nat.add_assoc, Nat.add_comm 1 more]
  constructor
  · rw [reaches.run, Machine.run]
    simp only [advance, done]
  · rw [reaches.trace, Machine.trace]
    simp [executed?, advance, done]

/-! ### The way to the return -/

/-- The exit up to the label that the fault exit branches to. -/
def exitHead (usage : Usage) : List Node :=
  (if usage.flagsOut = 0 then Lowering.storeRegisters usage
    else Lowering.syncOut usage ++ Lowering.storeFlags usage) ++
  [Lowering.op .xor (.half .rax) (.half .rax), .label Lowering.epilog]

/-- The code that takes registers off the stack. -/
def restore (usage : Usage) : List Node := usage.saved.toList.reverse.map fun r => Lowering.pop (.full r)

theorem exit_eq (usage : Usage) :
    Lowering.exit usage = exitHead usage ++ (restore usage ++ [.instr (.bare .ret)]) := by
  simp [Lowering.exit, exitHead, restore]

theorem length_restore (usage : Usage) : (restore usage).length = usage.saved.size := by
  simp [restore, RegSet.size]

/-- The code of the fault exit behind its label. -/
def faultTail : List Node :=
  [Lowering.op .add (.full .rsp) (Lowering.constant 8),
   Lowering.op .mov (.half .rax) (.imm (Access.failed.setWidth 64) .b32),
   .instr (.one .jmp (.label Lowering.epilog))]

theorem fault_eq {usage : Usage} (touches : usage.touchesMemory = true) :
    Lowering.fault usage = .label Lowering.faultExit :: faultTail := by
  simp [Lowering.fault, touches, faultTail]

/-- The epilog lies behind its label. -/
theorem after?_epilog (usage : Usage) (nodes : List Node) :
    after? Lowering.epilog (nodes ++ Lowering.exit usage ++ Lowering.fault usage) =
      some (restore usage ++ .instr (.bare .ret) :: Lowering.fault usage) := by
  obtain ⟨before, listing⟩ : ∃ before, nodes ++ Lowering.exit usage ++ Lowering.fault usage =
      before ++ .label Lowering.epilog :: (restore usage ++ .instr (.bare .ret) :: Lowering.fault usage) :=
    ⟨nodes ++ ((if usage.flagsOut = 0 then Lowering.storeRegisters usage
      else Lowering.syncOut usage ++ Lowering.storeFlags usage) ++ [Lowering.op .xor (.half .rax) (.half .rax)]),
      by simp [Lowering.exit, restore]⟩
  rw [listing]
  refine after?_append_label fun node member => ?_
  rcases List.mem_append.mp member with restores | later
  · obtain ⟨r, _, rfl⟩ := List.mem_map.mp restores
    nofun
  · rcases List.mem_cons.mp later with rfl | faults
    · nofun
    · unfold Lowering.fault at faults
      split at faults
      · rintro rfl
        simp [Lowering.op, Lowering.epilog, Lowering.faultExit] at faults
      · cases faults

theorem after?_faultExit {usage : Usage} (touches : usage.touchesMemory = true) (nodes : List Node) :
    after? Lowering.faultExit (nodes ++ Lowering.fault usage) = some faultTail := by
  rw [fault_eq touches]
  refine after?_append_label fun node member => ?_
  rintro rfl
  simp [faultTail, Lowering.op] at member

/-- What a function hands back to its caller, and what it ended with. -/
structure Restored (entry : Word) (before t last : State) : Prop where
  pointer : last.get .rsp = entry
  saved : SameSaved before last
  cells : ∀ a, entry.toNat ≤ a.toNat → last.cells a = t.cells a
  context : last.context = t.context
  result : last.get .rax = t.get .rax

/-- The epilog restores registers from the stack. The body has kept those that are not there. -/
theorem restored_of_epilog {env : Env σ} {usage : Usage} {entry : Word} (layout : Layout env.contextAddress entry)
    (fit : usage.Fit) {before t s : State} (shows : Shows entry t (savedWords usage before) s)
    (kept : ∀ r ∈ Host.Convention.calleeSaved, r ∉ usage.read → r ≠ usage.base → t.get r = before.get r) (world : σ) :
    ∃ way last, Passage env (restore usage) world s way world last none ∧
      Restored entry before t last ∧ ∀ e ∈ way, e.Quiet usage env.contextAddress entry := by
  have few := usage.size_saved_le
  have epilog : Straight env usage entry (restore usage) t
      (savedWords usage before) fun t' stack =>
        t' = { t with regs := t.regs.setAll usage.saved.toList.reverse before.get } ∧ stack = [] := by
    rw [savedWords, ← List.map_reverse, ← List.append_nil (List.map before.get _), ← List.append_nil (restore usage)]
    refine .popAll layout (fun r member => ?_) ?_ (.nil ⟨rfl, rfl⟩)
    · exact ne_rsp_of_mem_saved (RegSet.mem_toList.mp (List.mem_reverse.mp member))
    · simp only [List.length_nil, List.length_reverse, Nat.zero_add, frameWords]
      rw [RegSet.size] at few
      omega
  obtain ⟨way, last, t', stack, passed, shown, ⟨state, words⟩, quiet⟩ := epilog world s shows
  subst state words
  have popped (r : Reg) (notStack : r ≠ .rsp) :
      last.get r = if r ∈ usage.saved then before.get r else t.get r := by
    rw [shown.regs r notStack]
    refine (RegFile.get_setAll ..).trans ?_
    simp only [List.mem_reverse, RegSet.mem_toList]
    rfl
  refine ⟨way, last, passed, ⟨shown.pointer.trans (below_zero entry), fun r member => ?_, shown.above, shown.context, ?_⟩,
    quiet⟩
  · rw [popped r (by rintro rfl; exact absurd member (by decide))]
    split
    · rfl
    next unsaved =>
      refine kept r member (fun read => unsaved ?_) (fun base => unsaved ?_)
      · exact RegSet.mem_inter.mpr ⟨RegSet.mem_insert.mpr (.inl ((fit.dirty r).mpr read)), member⟩
      · exact RegSet.mem_inter.mpr ⟨RegSet.mem_insert.mpr (.inr base), member⟩
  · refine (popped .rax (by decide)).trans (if_neg fun saved => ?_)
    exact absurd (RegSet.mem_inter.mp saved).2 (by decide)

/-! ### From entry to return -/

namespace State

variable (usage : Usage) (t : State)

theorem get_entered (r : Reg) : (t.entered usage).get r =
    if r ∈ usage.read then t.context.gp.get r
    else if usage.base = r then t.get Host.Convention.firstArgument else t.get r := by
  have pointed : (t.set usage.base (t.get Host.Convention.firstArgument)).get r =
      if usage.base = r then t.get Host.Convention.firstArgument else t.get r := get_set ..
  rw [← pointed]
  simp only [entered]
  split <;> exact get_reloaded ..

@[simp] theorem context_entered : (t.entered usage).context = t.context := by
  simp only [entered]
  split <;> rfl

@[simp] theorem cells_entered : (t.entered usage).cells = t.cells := by
  simp only [entered]
  split <;> rfl

end State

/-- What a function has done when it is about to return. -/
inductive Concluded [Linkage] (contextAddress : Word) (usage : Usage) (ends : Ending σ → Prop)
    (demanded : List (Direction × Nat)) (world : σ) (last : State) (calls : List Executed) : Prop where
  | served {t : State} (ended : ends (.onward world t)) (met : Met contextAddress demanded calls)
      (context : last.context = t.finished usage) (result : last.get .rax = 0)
  | failed (ended : ends (.failed world last.context)) (broken : Broken contextAddress demanded calls)
      (result : last.get .rax = 1)

/-- A function returns from its last state, after steps that are confined. -/
structure Returns (env : Env σ) (usage : Usage) (entry : Word) (program : List Node) (world : σ) (before : State)
    (world' : σ) (last : State) (way : List Executed) : Prop where
  run : run env program (program.length + 1) ⟨program, world, before⟩ = .returned world' (last.set .rsp (entry + 8))
  trace : trace env program (program.length + 1) ⟨program, world, before⟩ =
    way ++ [⟨.bare .ret, last, last.set .rsp (entry + 8)⟩]
  confined : ∀ e ∈ way, e.Confined usage env.contextAddress entry
  pointer : last.get .rsp = entry
  saved : SameSaved before last
  cells : ∀ a, entry.toNat ≤ a.toNat → last.cells a = before.cells a

/-- A run that reaches the epilog returns. -/
theorem returns_of_reaches {env : Env σ} {usage : Usage} {entry : Word} (layout : Layout env.contextAddress entry)
    (fit : usage.Fit) {program rest : List Node} {steps : Nat} {world world' : σ} {before t s : State}
    {way : List Executed}
    (reaches : Reaches env program steps ⟨program, world, before⟩ way
      ⟨restore usage ++ .instr (.bare .ret) :: rest, world', s⟩)
    (enough : steps + usage.saved.size ≤ program.length) (shows : Shows entry t (savedWords usage before) s)
    (kept : ∀ r ∈ Host.Convention.calleeSaved, r ∉ usage.read → r ≠ usage.base → t.get r = before.get r)
    (cells : t.cells = before.cells) (confined : ∀ e ∈ way, e.Confined usage env.contextAddress entry) :
    ∃ last whole, Returns env usage entry program world before world' last whole ∧
      whole.filter Executed.isCall = way.filter Executed.isCall ∧ last.context = t.context ∧
      last.get .rax = t.get .rax := by
  obtain ⟨more, last, passed, restored, quiet⟩ := restored_of_epilog layout fit shows kept world'
  have arrives := reaches.trans (reaches_of_passage program passed _)
  rw [length_restore] at arrives
  have fuel : steps + usage.saved.size + 1 ≤ program.length + 1 := by omega
  obtain ⟨run, trace⟩ := arrives.returned layout restored.pointer fuel
  refine ⟨last, way ++ more, ⟨run, trace, fun e member => ?_, restored.pointer, restored.saved, fun a above => ?_⟩,
    ?_, restored.context, restored.result⟩
  · exact (List.mem_append.mp member).elim (confined e) (fun later => (quiet e later).confined)
  · rw [restored.cells a above, cells]
  · rw [List.filter_append, filter_isCall_of_quiet quiet, List.append_nil]

section
variable {env : Env σ} {entry : Word} (layout : Layout env.contextAddress entry) {usage : Usage} (fit : usage.Fit)
  {nodes : List Node} {world world' : σ} {before t s : State} {way : List Executed}
  (steady : Steady usage (before.entered usage) t)
  (confined : ∀ e ∈ way, e.Confined usage env.contextAddress entry)
include layout fit steady confined

omit layout fit confined in
theorem Steady.kept {r : Reg} (member : r ∈ Host.Convention.calleeSaved) (other : r ∉ usage.read)
    (notBase : r ≠ usage.base) : t.get r = before.get r := by
  rw [steady.saved r member other, State.get_entered, if_neg other, if_neg notBase.symm]

/-- A body that comes to its end is followed by the exit. -/
theorem returns_of_onward (passed : Passage env (Lowering.entry usage ++ nodes) world before way world' s none)
    (shows : Shows entry t (savedWords usage before) s) (points : t.get usage.base = env.contextAddress) :
    ∃ last whole, Returns env usage entry
        (Lowering.entry usage ++ nodes ++ Lowering.exit usage ++ Lowering.fault usage) world before world' last whole ∧
      whole.filter Executed.isCall = way.filter Executed.isCall ∧ last.context = t.finished usage ∧
      last.get .rax = 0 := by
  have few := usage.size_saved_le
  have room : (savedWords usage before).length < frameWords := by rw [length_savedWords, frameWords]; omega
  have exits : Straight env usage entry (exitHead usage) t (savedWords usage before)
      fun t' stack => t'.context = t.finished usage ∧ t'.cells = t.cells ∧ SameSaved t t' ∧
        t'.get .rax = 0 ∧ stack = savedWords usage before :=
    .exit layout fit points room
      fun t' context cells saved result => .label (.nil ⟨context, cells, saved, result, rfl⟩)
  obtain ⟨more, s', t', _, passed', shows', ⟨context, cells, saved, result, words⟩, quiet⟩ := exits world' s shows
  subst words
  have listing : Lowering.entry usage ++ nodes ++ Lowering.exit usage ++ Lowering.fault usage =
      Lowering.entry usage ++ nodes ++ exitHead usage ++
        (restore usage ++ .instr (.bare .ret) :: Lowering.fault usage) := by
    simp only [exit_eq, List.append_assoc, List.singleton_append]
  have reaches := reaches_of_passage (Lowering.entry usage ++ nodes ++ Lowering.exit usage ++ Lowering.fault usage)
    (passed.append passed') (restore usage ++ .instr (.bare .ret) :: Lowering.fault usage)
  rw [← listing] at reaches
  have enough : (Lowering.entry usage ++ nodes ++ exitHead usage).length + usage.saved.size ≤
      (Lowering.entry usage ++ nodes ++ Lowering.exit usage ++ Lowering.fault usage).length := by
    rw [listing]
    simp only [List.length_append, length_restore]
    omega
  obtain ⟨last, whole, returns, calls, same, result'⟩ := returns_of_reaches layout fit reaches enough shows'
    (fun r member other notBase => (saved r member).trans (steady.kept member other notBase))
    (cells.trans (steady.cells.trans (State.cells_entered usage before)))
    (fun e member => (List.mem_append.mp member).elim (confined e) (fun later => (quiet e later).confined))
  refine ⟨last, whole, returns, ?_, same.trans context, result'.trans result⟩
  rw [calls, List.filter_append, filter_isCall_of_quiet quiet, List.append_nil]

/-- A body that fails is followed by the fault exit, which drops the flags and goes to the epilog. -/
theorem returns_of_failed {flags : Word} (touches : usage.touchesMemory = true)
    (passed : Passage env (Lowering.entry usage ++ nodes) world before way world' s (some Lowering.faultExit))
    (shows : Shows entry t (flags :: savedWords usage before) s) :
    ∃ last whole, Returns env usage entry
        (Lowering.entry usage ++ nodes ++ Lowering.exit usage ++ Lowering.fault usage) world before world' last whole ∧
      whole.filter Executed.isCall = way.filter Executed.isCall ∧ last.context = t.context ∧
      last.get .rax = 1 := by
  have exits : Straight env usage entry
      [Lowering.op .add (.full .rsp) (Lowering.constant 8),
        Lowering.op .mov (.half .rax) (.imm (Access.failed.setWidth 64) .b32)]
      t (flags :: savedWords usage before) fun t' stack => ∃ flags,
        t' = { t with flags }.set .rax 1 ∧ stack = savedWords usage before :=
    .release fun flags => .constantHalf (by decide) (.nil ⟨flags, rfl, rfl⟩)
  obtain ⟨more, s', t', _, passed', shows', ⟨flags', state, words⟩, quiet⟩ := exits world' s shows
  subst state words
  generalize listing : Lowering.entry usage ++ nodes ++ Lowering.exit usage ++ Lowering.fault usage = program
  have toFault : after? Lowering.faultExit program = some faultTail := by
    rw [← listing]
    exact after?_faultExit touches _
  have toEpilog : after? Lowering.epilog program =
      some (restore usage ++ .instr (.bare .ret) :: Lowering.fault usage) := by
    rw [← listing]
    exact after?_epilog usage _
  have jumped : step env (.one .jmp (.label Lowering.epilog)) world' s' = some (world', s', .goto Lowering.epilog) := rfl
  obtain ⟨steps, bound, arrives⟩ := reaches_of_jump toFault passed (Lowering.exit usage ++ Lowering.fault usage)
  rw [← List.append_assoc, listing] at arrives
  have reaches := (arrives.trans (reaches_of_passage program passed' _)).trans (.jump jumped toEpilog [])
  have enough : steps + 2 + 1 + usage.saved.size ≤ program.length := by
    rw [← listing, exit_eq, fault_eq touches]
    simp only [List.length_append, length_restore, List.length_cons, faultTail] at bound ⊢
    omega
  have quietly (e : Executed) (member : e ∈ more ++ [⟨.one .jmp (.label Lowering.epilog), s', s'⟩]) :
      e.Quiet usage env.contextAddress entry := by
    rcases List.mem_append.mp member with here | jump
    · exact quiet e here
    · obtain rfl := List.mem_singleton.mp jump
      exact ⟨nofun, confined_of_none (by simp [Instr.one, Slots.operands, Slots.toList]) rfl⟩
  rw [List.append_assoc] at reaches
  obtain ⟨last, whole, returns, calls, same, result⟩ := returns_of_reaches layout fit reaches enough shows'
    (fun r member other notBase => by
      refine (State.get_set_of_ne _ _ ?_).trans (steady.kept member other notBase)
      rintro rfl
      exact absurd member (by decide))
    (steady.cells.trans (State.cells_entered usage before))
    (fun e member => (List.mem_append.mp member).elim (confined e) (fun later => (quietly e later).confined))
  refine ⟨last, whole, returns, ?_, same, result.trans (State.get_set_self ..)⟩
  rw [calls, List.filter_append, filter_isCall_of_quiet quietly, List.append_nil]

end

/-- However called functions answer, a compiled function returns. -/
theorem returns_of_accepted [Linkage] {env : Env σ} {contract : Contract σ} {entry : Word} (obeys : env.Obeys contract)
    (layout : Layout env.contextAddress entry) {program : List Guest.Instruction} {compiled : Compiled}
    {instrs : List Instr} {nodes : List Node} (accepted : Accepted program compiled instrs nodes) {s : State}
    (pointer : s.get .rsp = entry) (argument : s.get Host.Convention.firstArgument = env.contextAddress) (world : σ) :
    ∃ world' last way, Returns env compiled.usage entry compiled.nodes world s world' last way ∧
      Concluded env.contextAddress compiled.usage
        (Course compiled.usage env.latitude contract instrs world (s.entered compiled.usage))
        (instrs.flatMap Lowering.demands) world' last (way.filter Executed.isCall) := by
  obtain ⟨_, _, fit, body, listing, _⟩ := accepted
  rw [listing]
  have points : (s.entered compiled.usage).get compiled.usage.base = env.contextAddress := by
    rw [State.get_entered, if_neg fit.unnamed, if_pos rfl, argument]
  have entering : Straight env compiled.usage entry (Lowering.entry compiled.usage) s [] fun t stack =>
      t = s.entered compiled.usage ∧ stack = savedWords compiled.usage s := by
    rw [← List.append_nil (Lowering.entry compiled.usage)]
    exact .entry layout fit argument (.nil ⟨rfl, rfl⟩)
  have leads := entering.leads <| by
    rintro _ _ ⟨rfl, rfl⟩
    exact leads_body obeys layout fit (length_savedWords compiled.usage s) body world points
  have shows : Shows entry s [] s :=
    ⟨fun _ _ => rfl, pointer.trans (below_zero entry).symm, rfl, rfl, trivial, fun _ _ => rfl⟩
  obtain ⟨way, world', s', t', stack', out, passed, shown, confined, went⟩ := leads s shows
  cases went with
  | onward steady ended met =>
    obtain ⟨last, whole, returns, calls, context, result⟩ :=
      returns_of_onward layout fit steady confined passed shown (steady.base.trans points)
    exact ⟨world', last, whole, returns, .served ended (by rw [calls]; exact met) context result⟩
  | failed steady ended broken =>
    obtain ⟨last, whole, returns, calls, context, result⟩ :=
      returns_of_failed layout fit steady confined (touchesMemory_of_failed body ended) passed shown
    exact ⟨world', last, whole, returns, .failed (by rw [context]; exact ended) (by rw [calls]; exact broken) result⟩

end Rehost.Machine
