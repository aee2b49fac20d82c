import Rehost.Machine.Platform
import Rehost.Proofs.Function

/-!
# Courses and direct execution

Where called functions serve accesses through a handler (`Contract.ofHandler`), the course of a body is
that of direct execution. A machine state mirrors a guest state (`Mirrors`) if it has the guest's value of
every register that the body names, in the register itself or else in its slot, and of every flag that
the body has read or written by then. Each instruction keeps this up, or is refused on both sides
(`tallies_of_takes`), and so does a body (`tallies_of_course`).
-/

namespace Rehost.Machine

open Guest (Context Handler)
open Guest.Interpreter (Stop fetch store fetchIf storeIf perform execute)
open Host (Instr Node Operand Formed)

variable {σ : Type}

/-! ### Access functions -/

/-- Calls answer as the access functions of a handler do. -/
def Contract.ofHandler (handler : Handler σ) : Contract (Attached σ) :=
  fun direction size attached context status attached' context' =>
    Access.call direction handler size context attached = (status, context', attached')

theorem Access.ofEntryPoint?_entryPoint [Linkage] (direction : Direction) :
    Access.ofEntryPoint? (Linkage.entryPoint direction) = some direction := by
  cases direction with
  | read => simp [Access.ofEntryPoint?]
  | write => simp [Access.ofEntryPoint?, Linkage.distinct]

/-- On every platform, the functions called keep to the calling convention and serve accesses. -/
theorem Platform.obeys [Linkage] (platform : Platform) (handler : Handler σ) :
    (platform.env handler).Obeys (.ofHandler handler) := by
  intro direction size attached s sized prepared
  have small : size ≤ 8 := by
    have listed : size = 1 ∨ size = 2 ∨ size = 4 ∨ size = 8 := by
      simpa [Guest.isAccessSize, Guest.accessSizes] using sized
    omega
  have bytes : ((s.get Host.Convention.secondArgument).setWidth 32).toNat = size := by
    rw [prepared.size, BitVec.toNat_ofNat]
    omega
  rcases called : Access.call direction handler size s.context attached with ⟨status, context, attached'⟩
  refine ⟨attached', platform.leave s status context, ?_, ⟨?_, fun r member => ?_, fun a above => ?_⟩, ?_⟩
  · have argument : s.get Host.Convention.firstArgument = platform.contextAddress := prepared.context
    simp [Platform.env, Platform.function, Access.ofEntryPoint?_entryPoint, argument, bytes, called]
  · exact (RegFile.get_ofFn ..).trans (by rw [if_neg (by decide), if_pos (.inl rfl)])
  · have notResult : r ≠ .rax := by
      rintro rfl
      exact absurd member (by decide)
    exact (RegFile.get_ofFn ..).trans (by rw [if_neg notResult, if_pos (.inr member)])
  · exact if_pos above
  · have result : (platform.leave s status context).result = status := by
      have low : (platform.leave s status context).get .rax = setLow ((platform.residue s).regs.get .rax) status :=
        (RegFile.get_ofFn ..).trans (if_pos rfl)
      rw [State.result, low]
      exact setWidth_setLow _ .b32 status
    rw [result]
    exact called

/-! ### One access on both sides -/

/-- A context as an access finds it: registers and flags are in their slots, and so is the address. -/
structure Synced (flags address : Word) (context : Context) (g : Guest.Interpreter.State σ) : Prop where
  gp : context.gp = g.context.gp
  flags : context.flags = flags
  attached : context.handler ≠ 0
  address : context.accessAddress = address

section
variable {handler : Handler σ} {w : Width} {flags address : Word} {context context' : Context}
  {g : Guest.Interpreter.State σ} {status : BitVec 32} {attached : Attached σ}
  (synced : Synced flags address context g)
include synced

/-- A read is served on both sides with the same value, or refused with the same fault. -/
theorem read_cases
    (answer : Contract.ofHandler handler .read w.bytes ⟨g.memory, none⟩ context status attached context') :
    (∃ g', fetch handler w g (.memory address) = .ok (context'.accessValue.setWidth w.bits, g') ∧ status = 0 ∧
        attached = { state := g'.memory } ∧ g'.context = g.context ∧ Synced flags address context' g') ∨
      ∃ g' fault, fetch handler w g (.memory address) = .error (.refused g' address fault) ∧ status = 1 ∧
        attached = { state := g'.memory, fault := some fault } ∧ Synced flags address context' g' := by
  have sized : Guest.isAccessSize w.bytes = true := by cases w <;> rfl
  simp only [Contract.ofHandler, Access.call, if_neg synced.attached, sized, Bool.not_true, Bool.false_eq_true,
    if_false, Access.read, synced.address] at answer
  simp only [fetch]
  cases result : (handler.read g.memory address w.bytes).result with
  | ok =>
    simp only [result, Prod.mk.injEq] at answer ⊢
    obtain ⟨rfl, rfl, rfl⟩ := answer
    refine .inl ⟨{ g with memory := (handler.read g.memory address w.bytes).state }, ?_, rfl, rfl, rfl,
      synced.gp, synced.flags, synced.attached, rfl⟩
    rw [BitVec.setWidth_ofNat_of_le w.bits_le]
  | error refusal =>
    simp only [result, Prod.mk.injEq] at answer ⊢
    obtain ⟨rfl, rfl, rfl⟩ := answer
    exact .inr ⟨_, _, rfl, rfl, rfl, synced.gp, synced.flags, synced.attached, synced.address⟩

/-- A write of the same value is served on both sides, or refused with the same fault. -/
theorem write_cases {value : BitVec w.bits} (shown : context.accessValue.setWidth w.bits = value)
    (answer : Contract.ofHandler handler .write w.bytes ⟨g.memory, none⟩ context status attached context') :
    (∃ g', store handler w value g (.memory address) = .ok g' ∧ status = 0 ∧
        attached = { state := g'.memory } ∧ g'.context = g.context ∧ Synced flags address context' g') ∨
      ∃ g' fault, store handler w value g (.memory address) = .error (.refused g' address fault) ∧ status = 1 ∧
        attached = { state := g'.memory, fault := some fault } ∧ Synced flags address context' g' := by
  have sized : Guest.isAccessSize w.bytes = true := by cases w <;> rfl
  simp only [Contract.ofHandler, Access.call, if_neg synced.attached, sized, Bool.not_true, Bool.false_eq_true,
    if_false, Access.write, synced.address] at answer
  have bytes : toBytes context.accessValue w.bytes = toBytes value w.bytes := by
    rw [← shown, toBytes_setWidth]
  rw [bytes] at answer
  simp only [store]
  rcases result : handler.write g.memory address (toBytes value w.bytes) with ⟨memory, refusal | done⟩
  · simp only [result, Prod.mk.injEq] at answer ⊢
    obtain ⟨rfl, rfl, rfl⟩ := answer
    exact .inr ⟨{ g with memory }, _, rfl, rfl, rfl, synced.gp, synced.flags, synced.attached, synced.address⟩
  · simp only [result, Prod.mk.injEq] at answer ⊢
    obtain ⟨rfl, rfl, rfl⟩ := answer
    exact .inl ⟨{ g with memory }, rfl, rfl, rfl, rfl, synced.gp, synced.flags, synced.attached, synced.address⟩

end

/-! ### Mirrored states -/

/-- A machine state that mirrors a guest state, both after some of a body that was entered with the context
`initial`. `known` are the flags that the machine has right. -/
structure Mirrors (usage : Usage) (initial : Context) (known : Word) (attached : Attached σ) (t : State)
    (g : Guest.Interpreter.State σ) : Prop where
  attached : attached = { state := g.memory }
  regs : ∀ r ∈ usage.read, t.get r = g.context.gp.get r
  slots : ∀ r, r ∉ usage.read → t.context.gp.get r = initial.gp.get r
  unnamed : ∀ r, r ∉ usage.read → g.context.gp.get r = initial.gp.get r
  status : Status.Agree known t.status g.status
  needed : Flag.Within usage.flagsIn known
  handler : t.context.handler ≠ 0
  flags : t.context.flags = initial.flags
  guest : g.context.flags = Status.replace initial.flags g.status
  kept : Status.Agree (~~~usage.flagsOut) (Status.ofWord initial.flags) g.status

/-- A course and direct execution have come to the same end. -/
inductive Tallies (usage : Usage) (initial : Context) (known : Word) :
    Ending (Attached σ) → Except (Stop σ) (Guest.Interpreter.State σ) → Prop where
  | onward {attached : Attached σ} {t : State} {g : Guest.Interpreter.State σ}
      (mirrors : Mirrors usage initial known attached t g) :
      Tallies usage initial known (.onward attached t) (.ok g)
  | failed {context : Context} {g : Guest.Interpreter.State σ} {address : Word} {fault : Guest.Fault}
      (synced : Synced initial.flags address context g) :
      Tallies usage initial known (.failed { state := g.memory, fault := some fault } context)
        (.error (.refused g address fault))

section
variable {usage : Usage} {initial : Context} {known : Word} {attached : Attached σ} {t : State}
  {g : Guest.Interpreter.State σ} (mirrors : Mirrors usage initial known attached t g)
include mirrors

/-- Once registers are in their slots, they are all there. -/
theorem Mirrors.spilled : (t.spilled usage).gp = g.context.gp := by
  apply RegFile.ext_get
  intro r
  rw [State.get_gp_spilled]
  split
  next read => exact mirrors.regs r read
  next other => exact (mirrors.slots r other).trans (mirrors.unnamed r other).symm

/-- After a call the state mirrors one that differs from before in memory only. -/
theorem Mirrors.resumed {context : Context} {t' : State} {g' : Guest.Interpreter.State σ} {address : Word}
    {attached' : Attached σ} (synced : Synced initial.flags address context g') (same : g'.context = g.context)
    (memory : attached' = { state := g'.memory }) (resumed : Resumed usage t context t') :
    Mirrors usage initial known attached' t' g' := by
  refine ⟨memory, fun r read => ?_, fun r other => ?_, fun r other => ?_, ?_, mirrors.needed, ?_, ?_, ?_, ?_⟩
  · rw [resumed.regs r read, synced.gp]
  · rw [resumed.context, synced.gp, same, mirrors.unnamed r other]
  · rw [same, mirrors.unnamed r other]
  · have status : t'.status = t.status := by rw [State.status, resumed.flags]; rfl
    rw [status, Guest.Interpreter.State.status, same]
    exact mirrors.status
  · rw [resumed.context]
    exact synced.attached
  · rw [resumed.context, synced.flags]
  · rw [Guest.Interpreter.State.status, same]
    exact mirrors.guest
  · rw [Guest.Interpreter.State.status, same]
    exact mirrors.kept

/-- An operation on both sides. -/
theorem Mirrors.performed {i : Guest.Instruction} {j : Instr} {operation : Operation}
    (translated : Lowering.Translated usage i j operation) (latitude : Latitude) {value : BitVec j.operands.width.bits}
    (shown : t.context.accessValue.setWidth j.operands.width.bits = value) {after : Scene j.operands.width}
    (applied : (g.scene value).apply latitude operation.action (.ofDst j.operands)
      (.ofSrc operation g.context.gp j.operands) = after) :
    Mirrors usage initial (known ||| (Host.operationEffects operation).flagsWritten) attached
        (t.performed latitude operation j.operands) (g.absorb after) ∧
      (t.performed latitude operation j.operands).context.accessValue.setWidth j.operands.width.bits = after.cell := by
  have source : Spot.ofSrc operation t.regs j.operands = Spot.ofSrc operation g.context.gp j.operands :=
    Spot.ofSrc_congr fun operand member r named => mirrors.regs r (translated.named operand member r named)
  have dst (r : Reg) (named : (Spot.ofDst j.operands).Names r) : r ∈ usage.read := by
    obtain ⟨operand, member, names⟩ := Spot.names_ofDst named
    exact translated.named operand member r names
  have src (r : Reg) (named : (Spot.ofSrc operation g.context.gp j.operands).Names r) : r ∈ usage.read := by
    obtain ⟨operand, member, names⟩ := Spot.names_ofSrc named
    exact translated.named operand member r names
  have before : Scene.Agree (· ∈ usage.read) known (t.scene j.operands.width) (g.scene value) :=
    ⟨mirrors.regs, mirrors.status, shown⟩
  have agree := before.apply latitude operation (translated.flagsRead.trans mirrors.needed) dst src
  have kept := Scene.status_apply latitude operation (.ofDst j.operands) (.ofSrc operation g.context.gp j.operands)
    (g.scene value)
  have same (r : Reg) (other : r ∉ usage.read) : after.regs.get r = g.context.gp.get r := by
    rw [← applied]
    exact Scene.regs_apply latitude _ _ (fun named => other (dst r named)) (fun named => other (src r named))
  rw [applied] at agree kept
  rw [State.performed, source]
  generalize (t.scene j.operands.width).apply latitude operation.action _ _ = scene at agree
  have status : (g.absorb after).status = after.status := Status.ofWord_replace ..
  refine ⟨⟨mirrors.attached, agree.regs, mirrors.slots, fun r other => ?_, ?_, ?_, mirrors.handler, mirrors.flags, ?_, ?_⟩,
    ?_⟩
  · exact (same r other).trans (mirrors.unnamed r other)
  · rw [status_absorb, status]
    exact agree.status
  · exact mirrors.needed.trans (Flag.within_or_left _ _)
  · rw [status]
    refine (congrArg (Status.replace · after.status) mirrors.guest).trans ?_
    exact Status.replace_replace ..
  · rw [status]
    exact mirrors.kept.trans (kept.mono translated.flagsWritten.not)
  · exact (setWidth_setLow ..).trans agree.cell

end

/-! ### One instruction -/

section
variable {usage : Usage} {initial : Context} {known : Word} {attached : Attached σ} {t : State}
  {g : Guest.Interpreter.State σ} (mirrors : Mirrors usage initial known attached t g) {handler : Handler σ}
include mirrors

theorem Mirrors.requesting (m : Host.Mem) : Synced initial.flags (m.address t.regs) (t.requesting usage m) g :=
  ⟨mirrors.spilled, mirrors.flags, mirrors.handler, rfl⟩

/-- The write of an instruction and that of direct execution. -/
theorem tallies_of_wrote {w : Width} {value : BitVec w.bits} {address : Word} {writes : Bool}
    {ending : Ending (Attached σ)} (shown : t.context.accessValue.setWidth w.bits = value)
    (there : t.context.accessAddress = address)
    (wrote : Wrote usage (.ofHandler handler) w.bytes attached t writes ending) :
    Tallies usage initial known ending (storeIf handler writes address value g) := by
  have synced : Synced initial.flags address (t.spilled usage) g :=
    ⟨mirrors.spilled, mirrors.flags, mirrors.handler, there⟩
  have memory := mirrors.attached
  subst memory
  cases wrote with
  | skipped => exact .onward mirrors
  | served write resumed =>
    obtain ⟨g', stored, _, memory, same, synced'⟩ | ⟨_, _, _, failed, _⟩ := write_cases synced shown write
    · rw [storeIf, if_pos rfl, stored]
      exact .onward (mirrors.resumed synced' same memory resumed)
    · exact absurd failed (by decide)
  | refused write refused =>
    obtain ⟨_, _, served, _⟩ | ⟨g', fault, stopped, _, memory, synced'⟩ := write_cases synced shown write
    · exact absurd served refused
    · rw [storeIf, if_pos rfl, stopped, memory]
      exact .failed synced'

/-- The value that an instruction finds in memory is the one that direct execution finds there. -/
theorem fetched_of_asked {m : Host.Mem} {w : Width} (width : m.width = w) {reads : Bool} {status : BitVec 32}
    {attached' : Attached σ} {context : Context}
    (read : Asked (.ofHandler handler) .read m.width.bytes attached (t.requesting usage m) reads status attached'
      context) :
    (∃ g', fetchIf handler reads (m.address t.regs) (t.context.accessValue.setWidth w.bits) g =
          .ok (context.accessValue.setWidth w.bits, g') ∧
        status = 0 ∧ attached' = { state := g'.memory } ∧ g'.context = g.context ∧
        Synced initial.flags (m.address t.regs) context g') ∨
      ∃ g' fault, fetchIf handler reads (m.address t.regs) (t.context.accessValue.setWidth w.bits) g =
          .error (.refused g' (m.address t.regs) fault) ∧
        status = 1 ∧ attached' = { state := g'.memory, fault := some fault } ∧
        Synced initial.flags (m.address t.regs) context g' := by
  have memory := mirrors.attached
  subst memory width
  cases read with
  | skipped => exact .inl ⟨g, rfl, rfl, rfl, rfl, mirrors.requesting m⟩
  | answered answer => exact read_cases (mirrors.requesting m) answer

theorem tallies_of_takes {i : Guest.Instruction} {j : Instr} {operation : Operation} {latitude : Latitude}
    (translated : Lowering.Translated usage i j operation) (formed : Formed operation j.operands)
    {ending : Ending (Attached σ)}
    (takes : Takes usage latitude (.ofHandler handler) operation j attached t ending) :
    Tallies usage initial (known ||| (Host.operationEffects operation).flagsWritten) ending
      (execute latitude handler i g) := by
  rw [Guest.Interpreter.execute_eq translated.mnemonic translated.operands formed
    (t.context.accessValue.setWidth j.operands.width.bits)]
  cases takes with
  | plain direct =>
    have none (accesses : operation ≠ .lea) := Lowering.memory?_eq_none (direct.resolve_right accesses)
    obtain ⟨reads, writes⟩ := no_transfers none g.context.gp
    simp only [perform, reads, writes]
    exact .onward (mirrors.performed translated latitude rfl rfl).1
  | @trip position m _ accesses placed trip =>
    have regular := formed.regular accesses
    have width := regular.width _ _ placed
    have address : j.operands.address g.context.gp = m.address t.regs := by
      rw [placed.address regular]
      exact Straight.address_congr fun r named =>
        (mirrors.regs r (translated.named _ placed.mem_operands r named)).symm
    simp only [transfers_eq formed accesses placed g.context.gp] at trip
    simp only [perform, address]
    generalize operation.action.reads _ _ = reads at trip
    generalize operation.action.writes _ _ = writes at trip
    cases trip with
    | refused read refused =>
      obtain ⟨_, _, served, _⟩ | ⟨g', fault, stopped, _, memory, synced⟩ := fetched_of_asked mirrors width read
      · exact absurd served refused
      · rw [stopped, memory]
        exact .failed synced
    | served read resumed rest =>
      obtain ⟨g', found, _, memory, same, synced⟩ | ⟨_, _, _, failed, _⟩ := fetched_of_asked mirrors width read
      · rw [found]
        have after := mirrors.resumed synced same memory resumed
        obtain ⟨done, cell⟩ := after.performed translated latitude (congrArg _ (by rw [resumed.context])) rfl
        rw [same] at done cell
        rw [width] at rest
        refine tallies_of_wrote done cell ?_ rest
        rw [← synced.address, ← resumed.context]
        rfl
      · exact absurd failed (by decide)

end

/-! ### A body -/

/-- A course comes to what direct execution comes to. -/
theorem tallies_of_course [Linkage] {usage : Usage} {initial : Context} {handler : Handler σ} {latitude : Latitude}
    {program : List Guest.Instruction} {instrs : List Instr} {nodes : List Node}
    (body : Lowering.Body usage program instrs nodes) {known : Word} {attached : Attached σ} {t : State}
    {g : Guest.Interpreter.State σ} (mirrors : Mirrors usage initial known attached t g)
    {ending : Ending (Attached σ)} (course : Course usage latitude (.ofHandler handler) instrs attached t ending) :
    Tallies usage initial (known ||| (Footprint.ofBody instrs).flagsOut) ending
      (Guest.Interpreter.run latitude handler program g) := by
  induction body generalizing known attached t g with
  | nil =>
    cases course with
    | nil =>
      rw [Footprint.flagsOut_nil, BitVec.or_zero]
      exact .onward mirrors
  | @cons i j operation _ _ _ _ translated lowered _ ih =>
    have effects : j.opcode.effects = Host.operationEffects operation := by rw [translated.opcode]; rfl
    rw [Footprint.flagsOut_cons, effects, ← BitVec.or_assoc, Guest.Interpreter.run]
    cases course with
    | cons opcode first rest =>
      obtain rfl := Host.Opcode.op.inj (opcode.symm.trans translated.opcode)
      have tallies := tallies_of_takes mirrors translated lowered.formed first
      generalize execute latitude handler i g = result at tallies
      cases tallies with
      | onward mirrors => exact ih mirrors rest
    | fault opcode first =>
      obtain rfl := Host.Opcode.op.inj (opcode.symm.trans translated.opcode)
      have tallies := tallies_of_takes mirrors translated lowered.formed first
      generalize execute latitude handler i g = result at tallies
      cases tallies with
      | failed synced => exact .failed synced

/-! ### Entry and exit -/

/-- The flags that the machine has right on entry. -/
def seeded (usage : Usage) : Word := if Lowering.seedsFlags usage then BitVec.allOnes 64 else 0

/-- Flags that a body reads are right on entry. -/
theorem flagsIn_within_seeded (usage : Usage) : Flag.Within usage.flagsIn (seeded usage) := by
  unfold seeded
  split
  · exact Flag.within_allOnes _
  next unseeded =>
    have none : usage.flagsIn = 0 := by
      simp only [Lowering.seedsFlags, Bool.or_eq_true, not_or] at unseeded
      simpa using unseeded.1
    intro i inside
    simp [none] at inside

/-- If a body writes some flags, all flags are right at its end. -/
theorem status_within_seeded {usage : Usage} (writes : usage.flagsOut ≠ 0) :
    Flag.Within Flag.status (seeded usage ||| usage.flagsOut) := by
  unfold seeded
  split
  · exact (Flag.within_allOnes _).trans (Flag.within_or_left _ _)
  next unseeded =>
    have all : usage.flagsOut &&& Flag.status = Flag.status := by
      simp only [Lowering.seedsFlags, Bool.or_eq_true, not_or] at unseeded
      have implied : ¬ usage.flagsOut = 0#64 → usage.flagsOut &&& Flag.status = Flag.status := by
        simpa using unseeded.2
      exact implied writes
    intro i inside
    rw [← all, BitVec.getLsbD_and, Bool.and_eq_true] at inside
    exact Flag.within_or_right _ _ i inside.1

theorem status_entered (usage : Usage) (s : State) :
    Status.Agree (seeded usage) (s.entered usage).status (Status.ofWord s.context.flags) := by
  unfold seeded State.entered
  by_cases seeds : Lowering.seedsFlags usage = true
  · simp only [if_pos seeds, State.status, State.reloaded, Status.and_status, Status.ofWord_toWord]
    exact Status.Agree.refl _ _
  · simp only [if_neg seeds]
    exact Status.agree_zero _ _

theorem mirrors_entered (usage : Usage) {s : State} {context : Context} (same : s.context = context)
    (handler : context.handler ≠ 0) (memory : σ) :
    Mirrors usage context (seeded usage) { state := memory } (s.entered usage) ⟨context, memory⟩ := by
  subst same
  refine ⟨rfl, fun r read => ?_, fun r _ => ?_, fun r _ => rfl, ?_, ?_, ?_, ?_, ?_, Status.Agree.refl _ _⟩
  · rw [State.get_entered, if_pos read]
  · rw [State.context_entered]
  · exact status_entered usage s
  · exact flagsIn_within_seeded usage
  · rw [State.context_entered]
    exact handler
  · rw [State.context_entered]
  · exact (Status.replace_ofWord _).symm

/-- At the end of a body, the context receives the guest's registers and flags. -/
theorem Mirrors.finished {usage : Usage} {initial : Context} {attached : Attached σ} {t : State}
    {g : Guest.Interpreter.State σ} (mirrors : Mirrors usage initial (seeded usage ||| usage.flagsOut) attached t g) :
    (t.finished usage).gp = g.context.gp ∧ (t.finished usage).flags = g.context.flags := by
  refine ⟨mirrors.spilled, ?_⟩
  by_cases clean : usage.flagsOut = 0
  · have all : ~~~usage.flagsOut = BitVec.allOnes 64 := by
      rw [clean]
      rfl
    have untouched : Status.ofWord initial.flags = g.status :=
      mirrors.kept.eq (by rw [all]; exact Flag.within_allOnes _)
    rw [State.finished, if_pos clean, mirrors.flags, mirrors.guest, ← untouched, Status.replace_ofWord]
  · have right : t.status = g.status := mirrors.status.eq (status_within_seeded clean)
    rw [State.finished, if_neg clean, mirrors.guest, ← right, Status.and_status, mirrors.flags]
    rfl

end Rehost.Machine
