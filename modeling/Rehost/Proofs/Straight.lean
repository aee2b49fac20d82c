import Rehost.Proofs.Confined

/-!
# Straight code

`Straight` says of code without calls that it passes from a state with words on the stack to others, and
that every access on the way is confined. There is one rule for each form of instruction that surrounds
the instructions of a program.
-/

namespace Rehost.Machine

open Guest (Context)
open Host (Instr Node Operand)

variable {σ : Type}

/-- From a state with words on the stack, code without calls passes to states and stacks of `post`, and
every access on the way is confined. -/
def Straight (env : Env σ) (usage : Usage) (entry : Word) (code : List Node) (t : State) (stack : List Word)
    (post : State → List Word → Prop) : Prop :=
  ∀ world s, Shows entry t stack s → ∃ way s' t' stack', Passage env code world s way world s' none ∧
    Shows entry t' stack' s' ∧ post t' stack' ∧ ∀ e ∈ way, e.Quiet usage env.contextAddress entry

namespace Straight

variable {env : Env σ} {usage : Usage} {entry : Word} {code one two : List Node} {t : State}
  {stack : List Word} {post mid : State → List Word → Prop}

theorem nil (done : post t stack) : Straight env usage entry [] t stack post :=
  fun _ s shows => ⟨[], s, t, stack, .nil, shows, done, fun _ member => (List.not_mem_nil member).elim⟩

/-- Code with one instruction more, given the state that the instruction leads to. -/
theorem cons {i : Instr} (notCall : i.opcode ≠ .call)
    (first : ∀ s, Shows entry t stack s → ∃ s' t' stack',
      (∀ world, step env i world s = some (world, s', .onward)) ∧
      Executed.Confined usage env.contextAddress entry ⟨i, s, s'⟩ ∧ Shows entry t' stack' s' ∧
      Straight env usage entry code t' stack' post) :
    Straight env usage entry (.instr i :: code) t stack post := by
  intro world s shows
  obtain ⟨s', t', stack', done, confined, shows, rest⟩ := first s shows
  obtain ⟨way, s'', t'', stack'', passed, shows, ended, quiet⟩ := rest world s' shows
  refine ⟨_, s'', t'', stack'', .onward (done world) passed, shows, ended, fun e member => ?_⟩
  rcases List.mem_cons.mp member with rfl | later
  · exact ⟨notCall, confined⟩
  · exact quiet e later

end Straight

section
variable {usage : Usage} {contextAddress entry : Word} {e : Executed}

/-- An instruction without memory operands, and not one of the stack, is confined. -/
theorem confined_of_none (direct : ∀ m, .mem m ∉ e.instr.operands.operands) (apart : e.word? = none) :
    e.Confined usage contextAddress entry :=
  ⟨fun _ m member => absurd member (direct m), fun a word => by rw [apart] at word; cases word⟩

/-- An operation is confined if its operands are. -/
theorem confined_of_op {operation : Operation} (opcode : e.instr.opcode = .op operation)
    (operands : operation ≠ .lea → ∀ m, .mem m ∈ e.instr.operands.operands →
      Confined usage contextAddress entry e.before m) : e.Confined usage contextAddress entry := by
  refine ⟨fun accesses => operands (by rintro rfl; exact accesses opcode), fun a word => ?_⟩
  simp [Executed.word?, opcode] at word

/-- An instruction of the stack is confined if its operands are and the stack is not too deep. -/
theorem confined_of_word (layout : Layout contextAddress entry) {stack : List Word}
    (small : stack.length < frameWords) (word : e.word? = some (below entry (stack.length + 1)))
    (operands : ∀ m, .mem m ∈ e.instr.operands.operands → Confined usage contextAddress entry e.before m) :
    e.Confined usage contextAddress entry := by
  refine ⟨fun _ => operands, fun a found => ?_⟩
  have room := layout.room
  obtain rfl : below entry (stack.length + 1) = a := Option.some.inj (word.symm.trans found)
  rw [toNat_below layout small]
  simp only [frameWords] at room small ⊢
  omega

end

theorem step_op {env : Env σ} {i : Instr} {operation : Operation} {s s' : State} (opcode : i.opcode = .op operation)
    (done : operate env.latitude env.contextAddress operation i.operands s = some s') (world : σ) :
    step env i world s = some (world, s', .onward) := by
  obtain ⟨lead, _, operands⟩ := i
  cases opcode
  simp [step, done]

theorem step_push {env : Env σ} {operand : Operand} {target : Target} {value : Word} {s s' : State}
    (found : Target.ofOperand? env.contextAddress s.regs operand = some target)
    (whole : target.width? = some .b64) (read : target.get? s .b64 = some value)
    (pushed : push env.contextAddress value s = some s') (world : σ) :
    step env (.one .push operand) world s = some (world, s', .onward) := by
  simp only [step, Instr.one, stackTarget?, found, whole, if_true, Option.bind_eq_bind, Option.bind_some]
  rw [read]
  change (push env.contextAddress value s).bind _ = _
  rw [pushed]
  rfl

/-! ### The stack -/

namespace Straight

variable {env : Env σ} {usage : Usage} {entry : Word} {code : List Node} {t : State}
  {stack : List Word} {value : Word} {post : State → List Word → Prop}

section
variable (layout : Layout env.contextAddress entry)
include layout

theorem push {r : Reg} (other : r ≠ .rsp) (room : stack.length < frameWords)
    (rest : Straight env usage entry code t (t.get r :: stack) post) :
    Straight env usage entry (Lowering.push (.full r) :: code) t stack post := by
  refine cons nofun fun s shows => ?_
  obtain ⟨s', pushed, shown⟩ := shows.push layout room (t.get r)
  refine ⟨s', t, _, step_push rfl rfl ?_ pushed,
    confined_of_word layout room (congrArg some shown.pointer) ?_, shown, rest⟩
  · rw [← shows.regs r other]
    exact congrArg some (RegFile.part_full s.regs r)
  · simp [Instr.one, Operand.full, Slots.operands, Slots.toList]

theorem pushSlot {slot : Context.Slot} (points : t.get usage.base = env.contextAddress)
    (notStack : usage.base ≠ .rsp) (allowed : usage.Open slot) (room : stack.length < frameWords)
    (rest : Straight env usage entry code t (t.context.get slot :: stack) post) :
    Straight env usage entry (Lowering.push (Lowering.slot usage slot) :: code) t stack post := by
  refine cons nofun fun s shows => ?_
  have pointed : s.get usage.base = env.contextAddress := (shows.regs _ notStack).trans points
  obtain ⟨s', pushed, shown⟩ := shows.push layout room (t.context.get slot)
  refine ⟨s', t, _, step_push (ofOperand?_slotMem pointed slot .b64) rfl ?_ pushed,
    confined_of_word layout room (congrArg some shown.pointer) fun m member => ?_, shown, rest⟩
  · simp [Target.get?, State.load, shows.context, Width.bits]
  · have same : m = slotMem usage.base slot .b64 := by
      simpa [Instr.one, Lowering.slot, Operand.based, Slots.operands, Slots.toList, slotMem] using member
    rw [same]
    exact confined_slotMem layout pointed allowed .b64

theorem pop {r : Reg} (other : r ≠ .rsp) (small : stack.length < frameWords)
    (rest : Straight env usage entry code (t.set r value) stack post) :
    Straight env usage entry (Lowering.pop (.full r) :: code) t (value :: stack) post := by
  refine cons nofun fun s shows => ?_
  obtain ⟨s', popped, shown⟩ := shows.pop layout small
  refine ⟨s'.set r value, _, _, fun world => ?_,
    confined_of_word layout small (congrArg some shows.pointer) ?_, shown.set other value, rest⟩
  · simp [step, Instr.one, Operand.full, popped]
  · simp [Instr.one, Operand.full, Slots.operands, Slots.toList]

theorem pushfq (room : stack.length < frameWords)
    (rest : Straight env usage entry code t (t.flags :: stack) post) :
    Straight env usage entry (.instr (.bare .pushfq) :: code) t stack post := by
  refine cons nofun fun s shows => ?_
  obtain ⟨s', pushed, shown⟩ := shows.push layout room t.flags
  refine ⟨s', t, _, fun world => ?_, confined_of_word layout room (congrArg some shown.pointer) ?_, shown, rest⟩
  · simp [step, Instr.bare, shows.flags, pushed]
  · simp [Instr.bare, Slots.operands, Slots.toList]

theorem popfq (small : stack.length < frameWords)
    (rest : Straight env usage entry code { t with flags := value } stack post) :
    Straight env usage entry (.instr (.bare .popfq) :: code) t (value :: stack) post := by
  refine cons nofun fun s shows => ?_
  obtain ⟨s', popped, shown⟩ := shows.pop layout small
  refine ⟨{ s' with flags := value }, _, _, fun world => ?_,
    confined_of_word layout small (congrArg some shows.pointer) ?_, shown.setFlags value, rest⟩
  · simp [step, Instr.bare, popped]
  · simp [Instr.bare, Slots.operands, Slots.toList]

end

/-! ### Operations -/

/-- An operation on registers and constants. -/
theorem op {operation : Operation} {dst src : Operand} (direct : ∀ m, dst ≠ .mem m ∧ src ≠ .mem m)
    (first : ∀ s, Shows entry t stack s → ∃ s' t' stack',
      operate env.latitude env.contextAddress operation { first := some dst, second := some src } s = some s' ∧
      Shows entry t' stack' s' ∧ Straight env usage entry code t' stack' post) :
    Straight env usage entry (Lowering.op operation dst src :: code) t stack post := by
  refine cons nofun fun s shows => ?_
  obtain ⟨s', t', stack', done, shown, rest⟩ := first s shows
  refine ⟨s', t', stack', step_op rfl done, confined_of_none (fun m member => ?_) rfl, shown, rest⟩
  have found : dst = .mem m ∨ src = .mem m := by
    simpa [Instr.two, Slots.operands, Slots.toList, eq_comm] using member
  exact found.elim (direct m).1 (direct m).2

theorem mov {r q : Reg} (other : r ≠ .rsp) (readable : q ≠ .rsp)
    (rest : Straight env usage entry code (t.set r (t.get q)) stack post) :
    Straight env usage entry (Lowering.op .mov (.full r) (.full q) :: code) t stack post := by
  refine op (fun _ => ⟨nofun, nofun⟩) fun s shows => ⟨_, _, _, operate_mov_full .., ?_, rest⟩
  rw [shows.regs q readable]
  exact shows.set other _

theorem constant {r : Reg} {value : Word} (other : r ≠ .rsp)
    (rest : Straight env usage entry code (t.set r value) stack post) :
    Straight env usage entry (Lowering.op .mov (.full r) (Lowering.constant value) :: code) t stack post :=
  op (fun _ => ⟨nofun, nofun⟩) fun _ shows =>
    ⟨_, _, _, operate_mov_constant .., shows.set other value, rest⟩

theorem constantHalf {r : Reg} {value : Word} (other : r ≠ .rsp)
    (rest : Straight env usage entry code (t.set r ((value.setWidth 32).setWidth 64)) stack post) :
    Straight env usage entry (Lowering.op .mov (.half r) (.imm value .b32) :: code) t stack post :=
  op (fun _ => ⟨nofun, nofun⟩) fun _ shows => ⟨_, _, _, operate_mov_half .., shows.set other _, rest⟩

theorem andConstant {r : Reg} {value : Word} (other : r ≠ .rsp)
    (rest : ∀ flags, Straight env usage entry code { t.set r (t.get r &&& value) with flags } stack post) :
    Straight env usage entry (Lowering.op .and (.full r) (Lowering.constant value) :: code) t stack post := by
  refine op (fun _ => ⟨nofun, nofun⟩) fun s shows => ?_
  obtain ⟨flags, done⟩ := operate_and_full env.latitude env.contextAddress s r value
  refine ⟨_, _, _, done, ?_, rest flags⟩
  rw [shows.regs r other]
  exact (shows.set other _).setFlags flags

theorem clear {r : Reg} (other : r ≠ .rsp)
    (rest : ∀ flags, Straight env usage entry code { t.set r 0 with flags } stack post) :
    Straight env usage entry (Lowering.op .xor (.half r) (.half r) :: code) t stack post := by
  refine op (fun _ => ⟨nofun, nofun⟩) fun s shows => ?_
  obtain ⟨flags, done⟩ := operate_xor_half env.latitude env.contextAddress s r
  exact ⟨_, _, _, done, (shows.set other _).setFlags flags, rest flags⟩

theorem test {r : Reg} (other : r ≠ .rsp)
    (rest : ∀ flags, (Status.ofWord flags).zero = ((t.get r).setWidth 32 == 0) →
      Straight env usage entry code { t with flags } stack post) :
    Straight env usage entry (Lowering.op .test (.half r) (.half r) :: code) t stack post := by
  refine op (fun _ => ⟨nofun, nofun⟩) fun s shows => ?_
  obtain ⟨flags, done, zero⟩ := operate_test_half env.latitude env.contextAddress s r
  rw [shows.regs r other] at zero
  exact ⟨_, _, _, done, shows.setFlags flags, rest flags zero⟩

/-- An address depends on the registers it names only. -/
theorem address_congr {one two : RegFile} {m : Host.Mem} (same : ∀ r, m.base = some r ∨ m.index = some r →
    one.get r = two.get r) : m.address one = m.address two := by
  have base : m.base.elim 0 one.get = m.base.elim 0 two.get := by
    cases found : m.base with
    | none => rfl
    | some r => exact same r (.inl found)
  have index : m.index.elim 0 one.get = m.index.elim 0 two.get := by
    cases found : m.index with
    | none => rfl
    | some r => exact same r (.inr found)
  simp only [Host.Mem.address, base, index]

theorem lea {r : Reg} {m : Host.Mem} (other : r ≠ .rsp) (unnamed : ¬ (Operand.mem m).Names .rsp)
    (rest : Straight env usage entry code (t.set r (m.address t.regs)) stack post) :
    Straight env usage entry (Lowering.op .lea (.full r) (.mem m) :: code) t stack post := by
  refine cons nofun fun s shows => ?_
  have address : m.address s.regs = m.address t.regs := by
    apply address_congr
    intro q named
    exact shows.regs q (by rintro rfl; exact unnamed named)
  refine ⟨_, _, _, step_op rfl (operate_lea ..), confined_of_op rfl fun accesses => absurd rfl accesses, ?_, rest⟩
  rw [address]
  exact shows.set other _

/-- The stack grows by a word of no account. -/
theorem reserve (rest : ∀ flags value, Straight env usage entry code { t with flags } (value :: stack) post) :
    Straight env usage entry (Lowering.op .sub (.full .rsp) (Lowering.constant 8) :: code) t stack post := by
  refine op (fun _ => ⟨nofun, nofun⟩) fun s shows => ?_
  obtain ⟨flags, done⟩ := operate_sub_full env.latitude env.contextAddress s .rsp 8
  refine ⟨_, _, _, done, ?_, rest flags (s.cells (below entry (stack.length + 1)))⟩
  refine ⟨fun r other => ?_, ?_, rfl, shows.context, ⟨rfl, shows.words⟩, shows.above⟩
  · exact (State.get_set_of_ne s _ other.symm).trans (shows.regs r other)
  · rw [shows.pointer, below_sub]
    exact State.get_set_self ..

/-- The word on top of the stack is dropped. -/
theorem release (rest : ∀ flags, Straight env usage entry code { t with flags } stack post) :
    Straight env usage entry (Lowering.op .add (.full .rsp) (Lowering.constant 8) :: code) t (value :: stack) post := by
  refine op (fun _ => ⟨nofun, nofun⟩) fun s shows => ?_
  obtain ⟨flags, done⟩ := operate_add_full env.latitude env.contextAddress s .rsp 8
  refine ⟨_, _, _, done, ?_, rest flags⟩
  refine ⟨fun r other => ?_, ?_, rfl, shows.context, shows.words.2, shows.above⟩
  · exact (State.get_set_of_ne s _ other.symm).trans (shows.regs r other)
  · rw [shows.pointer, List.length_cons, below_add]
    exact State.get_set_self ..

theorem andTop (layout : Layout env.contextAddress entry) {mask : Word} (small : stack.length < frameWords)
    (rest : ∀ flags, Straight env usage entry code { t with flags } ((value &&& mask) :: stack) post) :
    Straight env usage entry (Lowering.op .and (.based .rsp 0 .b64) (Lowering.constant mask) :: code)
      t (value :: stack) post := by
  refine cons nofun fun s shows => ?_
  have top : s.get .rsp = below entry (stack.length + 1) := shows.pointer
  have address (m : Host.Mem) (same : Operand.mem m = .based .rsp 0 .b64) : m.address s.regs = s.get .rsp := by
    cases same
    simp [Host.Mem.address, State.get]
  have place := place_below layout small
  obtain ⟨flags, done⟩ := operate_and_cell env.latitude env.contextAddress s (address _ rfl)
    (by rw [top]; exact place) mask rfl
  refine ⟨_, _, _, step_op rfl done, confined_of_op rfl fun _ m member => ?_, ?_, rest flags⟩
  · have same : m.address s.regs = s.get .rsp ∧ m.width = .b64 := by
      have found : Operand.mem m = .based .rsp 0 .b64 := by
        simpa [Instr.two, Lowering.constant, Operand.based, Slots.operands, Slots.toList] using member
      refine ⟨address m found, ?_⟩
      cases found
      rfl
    have room := layout.room
    have here := toNat_below layout small
    simp only [frameWords] at small room
    refine .frame ?_ (Nat.le_of_eq (congrArg BitVec.toNat same.1).symm) ?_
    · rw [top, here, frameWords]
      omega
    · rw [same.1, same.2, top, here]
      simp only [Width.bytes]
      omega
  · refine ⟨shows.regs, shows.pointer, rfl, shows.context, ⟨?_, ?_⟩, fun a high => ?_⟩
    · simp only [top, if_true, shows.words.1]
    · refine Words.mono layout (Nat.le_of_lt small) (Nat.le_refl _) (fun a high => ?_) shows.words.2
      simp [top, ne_below layout small high]
    · have other := ne_below layout small (Nat.le_trans (below_le layout (Nat.le_of_lt small)) high)
      simp only [top, other, if_false]
      exact shows.above a high

/-! ### Slots of the context -/

section
variable (layout : Layout env.contextAddress entry) (points : t.get usage.base = env.contextAddress)
  (notStack : usage.base ≠ .rsp) {slot : Context.Slot} (allowed : usage.Open slot)
include layout points notStack allowed

/-- An operation of which one operand is a slot. -/
theorem opSlot {operation : Operation} {dst src : Operand}
    (only : ∀ m, dst = .mem m ∨ src = .mem m → m = slotMem usage.base slot .b64)
    (first : ∀ s, Shows entry t stack s → s.get usage.base = env.contextAddress → ∃ s' t',
      operate env.latitude env.contextAddress operation { first := some dst, second := some src } s = some s' ∧
      Shows entry t' stack s' ∧ Straight env usage entry code t' stack post) :
    Straight env usage entry (Lowering.op operation dst src :: code) t stack post := by
  refine cons nofun fun s shows => ?_
  have pointed : s.get usage.base = env.contextAddress := (shows.regs _ notStack).trans points
  obtain ⟨s', t', done, shown, rest⟩ := first s shows pointed
  refine ⟨s', t', stack, step_op rfl done, confined_of_op rfl fun _ m member => ?_, shown, rest⟩
  have found : dst = .mem m ∨ src = .mem m := by
    simpa [Instr.two, Slots.operands, Slots.toList, eq_comm] using member
  rw [only m found]
  exact confined_slotMem layout pointed allowed .b64

theorem load {r : Reg} (other : r ≠ .rsp)
    (rest : Straight env usage entry code (t.set r (t.context.get slot)) stack post) :
    Straight env usage entry (Lowering.op .mov (.full r) (Lowering.slot usage slot) :: code) t stack post := by
  refine opSlot layout points notStack allowed ?_ fun s shows pointed => ?_
  · rintro m (found | found) <;> cases found
    rfl
  · refine ⟨_, _, operate_load env.latitude pointed r slot, ?_, rest⟩
    rw [shows.context]
    exact shows.set other _

theorem save {r : Reg} (other : r ≠ .rsp)
    (rest : Straight env usage entry code { t with context := t.context.set slot (t.get r) } stack post) :
    Straight env usage entry (Lowering.op .mov (Lowering.slot usage slot) (.full r) :: code) t stack post := by
  refine opSlot layout points notStack allowed ?_ fun s shows pointed => ?_
  · rintro m (found | found) <;> cases found
    rfl
  · refine ⟨_, _, operate_save env.latitude pointed slot r, ?_, rest⟩
    rw [shows.context, shows.regs r other]
    exact shows.setContext _

theorem andSlot {value : Word}
    (rest : ∀ flags, Straight env usage entry code
      { t with flags, context := t.context.set slot (t.context.get slot &&& value) } stack post) :
    Straight env usage entry (Lowering.op .and (Lowering.slot usage slot) (Lowering.constant value) :: code)
      t stack post := by
  refine opSlot layout points notStack allowed ?_ fun s shows pointed => ?_
  · rintro m (found | found) <;> cases found
    rfl
  · obtain ⟨flags, done⟩ := operate_and_slot env.latitude pointed slot value
    refine ⟨_, _, done, ?_, rest flags⟩
    rw [shows.context]
    exact (shows.setFlags flags).setContext _

theorem orSlot {r : Reg} (other : r ≠ .rsp)
    (rest : ∀ flags, Straight env usage entry code
      { t with flags, context := t.context.set slot (t.context.get slot ||| t.get r) } stack post) :
    Straight env usage entry (Lowering.op .or (Lowering.slot usage slot) (.full r) :: code) t stack post := by
  refine opSlot layout points notStack allowed ?_ fun s shows pointed => ?_
  · rintro m (found | found) <;> cases found
    rfl
  · obtain ⟨flags, done⟩ := operate_or_slot env.latitude pointed slot r
    refine ⟨_, _, done, ?_, rest flags⟩
    rw [shows.context, shows.regs r other]
    exact (shows.setFlags flags).setContext _

end

end Straight

end Rehost.Machine
