import Rehost.Proofs.Fragment

/-!
# Calls

Called functions keep to the calling convention and to a `Contract` on what they answer (`Env.Obeys`).
`Leads` extends what `Straight` says to code with calls: the world may change, the code may be left by a
branch, and the calls made are listed. A call of generated code finds the stack aligned and its arguments
in place, and leads on if the function returns zero and to the fault exit otherwise (`leads_call`).
-/

namespace Rehost.Machine

open Guest (Context)
open Host (Instr Node Operand Label)

variable {σ : Type}

/-! ### Functions -/

/-- The low half of the result register. -/
def State.result (s : State) : BitVec 32 := (s.get .rax).setWidth 32

/-- What a function hands back as it found it. -/
structure Kept (s s' : State) : Prop where
  pointer : s'.get .rsp = s.get .rsp
  saved : SameSaved s s'
  cells : ∀ a, (s.get .rsp).toNat ≤ a.toNat → s'.cells a = s.cells a

/-- The state in which the function for an access is called. -/
structure Prepared [Linkage] (contextAddress : Word) (direction : Direction) (size : Nat) (s : State) : Prop where
  target : s.get .rax = Linkage.entryPoint direction
  aligned : (s.get .rsp).toNat % 16 = 0
  context : s.get Host.Convention.firstArgument = contextAddress
  size : (s.get Host.Convention.secondArgument).setWidth 32 = BitVec.ofNat 32 size

/-- What a call may answer: for a direction, a size, a world and a context, a status and the world and
context afterwards. -/
abbrev Contract (σ : Type) : Type := Direction → Nat → σ → Context → BitVec 32 → σ → Context → Prop

/-- Any answer at all. -/
def Contract.any : Contract σ := fun _ _ _ _ _ _ _ => True

/-- Functions return, keep what they must keep, and answer within a contract. -/
def Env.Obeys [Linkage] (env : Env σ) (contract : Contract σ) : Prop :=
  ∀ direction size world s, Guest.isAccessSize size = true → Prepared env.contextAddress direction size s →
    ∃ world' s', env.function (Linkage.entryPoint direction) world s = some (world', s') ∧ Kept s s' ∧
      contract direction size world s.context s'.result world' s'.context

theorem Env.Obeys.any [Linkage] {env : Env σ} {contract : Contract σ} (obeys : env.Obeys contract) :
    env.Obeys .any := by
  intro direction size world s sized prepared
  obtain ⟨world', s', returned, kept, _⟩ := obeys direction size world s sized prepared
  exact ⟨world', s', returned, kept, trivial⟩

/-! ### Code with calls -/

def Executed.isCall (e : Executed) : Bool := e.instr.opcode == .call

/-- From a state with words on the stack, code passes to a world, a state, a stack and perhaps a label of
`post`, given the calls on the way. Every access on the way is confined. -/
def Leads (env : Env σ) (usage : Usage) (entry : Word) (code : List Node) (world : σ) (t : State)
    (stack : List Word) (post : σ → State → List Word → Option Label → List Executed → Prop) : Prop :=
  ∀ s, Shows entry t stack s → ∃ way world' s' t' stack' out, Passage env code world s way world' s' out ∧
    Shows entry t' stack' s' ∧ (∀ e ∈ way, e.Confined usage env.contextAddress entry) ∧
    post world' t' stack' out (way.filter Executed.isCall)

theorem filter_isCall_of_quiet {usage : Usage} {contextAddress entry : Word} {way : List Executed}
    (quiet : ∀ e ∈ way, e.Quiet usage contextAddress entry) : way.filter Executed.isCall = [] := by
  rw [List.filter_eq_nil_iff]
  intro e member
  simp [Executed.isCall, (quiet e member).notCall]

section
variable {env : Env σ} {usage : Usage} {entry : Word} {code one two : List Node} {world : σ} {t : State}
  {stack : List Word} {mid : State → List Word → Prop}
  {post between : σ → State → List Word → Option Label → List Executed → Prop}

theorem Straight.leads (straight : Straight env usage entry one t stack mid)
    (rest : ∀ t stack, mid t stack → Leads env usage entry two world t stack post) :
    Leads env usage entry (one ++ two) world t stack post := by
  intro s shows
  obtain ⟨way, s', t', stack', passed, shown, middle, quiet⟩ := straight world s shows
  obtain ⟨way', world'', s'', t'', stack'', out, passed', shown', confined, ended⟩ := rest t' stack' middle s' shown
  refine ⟨way ++ way', world'', s'', t'', stack'', out, passed.append passed', shown', fun e member => ?_, ?_⟩
  · exact (List.mem_append.mp member).elim (fun here => (quiet e here).confined) (confined e)
  · rw [List.filter_append, filter_isCall_of_quiet quiet]
    exact ended

namespace Leads

theorem nil (done : post world t stack none []) : Leads env usage entry [] world t stack post := by
  intro s shows
  exact ⟨[], world, s, t, stack, none, .nil, shows, fun _ member => (List.not_mem_nil member).elim, done⟩

theorem append (first : Leads env usage entry one world t stack between)
    (left : ∀ world t stack l calls, between world t stack (some l) calls → post world t stack (some l) calls)
    (rest : ∀ world t stack calls, between world t stack none calls →
      Leads env usage entry two world t stack fun world t stack out more => post world t stack out (calls ++ more)) :
    Leads env usage entry (one ++ two) world t stack post := by
  intro s shows
  obtain ⟨way, world', s', t', stack', out, passed, shown, confined, middle⟩ := first s shows
  cases out with
  | some l => exact ⟨way, world', s', t', stack', some l, passed.append_jump, shown, confined, left _ _ _ _ _ middle⟩
  | none =>
    obtain ⟨way', world'', s'', t'', stack'', out, passed', shown', confined', ended⟩ :=
      rest world' t' stack' _ middle s' shown
    refine ⟨way ++ way', world'', s'', t'', stack'', out, passed.append passed', shown', fun e member => ?_, ?_⟩
    · exact (List.mem_append.mp member).elim (confined e) (confined' e)
    · rw [List.filter_append]
      exact ended

theorem mono (first : Leads env usage entry one world t stack between)
    (weaker : ∀ world t stack out calls, between world t stack out calls → post world t stack out calls) :
    Leads env usage entry one world t stack post := by
  intro s shows
  obtain ⟨way, world', s', t', stack', out, passed, shown, confined, middle⟩ := first s shows
  exact ⟨way, world', s', t', stack', out, passed, shown, confined, weaker _ _ _ _ _ middle⟩

end Leads

end

/-! ### The call of an access function -/

/-- The code of a call before the call itself. -/
def callSetup [Linkage] (usage : Usage) (direction : Direction) (size : Nat) : List Node :=
  (if Lowering.keepsBase usage then [Lowering.push (.full usage.base)] else []) ++
  ((if Lowering.padding usage = 0 then []
    else [Lowering.op .sub (.full .rsp) (Lowering.constant (BitVec.ofNat 64 (Lowering.padding usage)))]) ++
  ((if Host.Convention.firstArgument = usage.base then []
    else [Lowering.op .mov (.full Host.Convention.firstArgument) (.full usage.base)]) ++
  [Lowering.op .mov (.half Host.Convention.secondArgument) (.imm (BitVec.ofNat 64 size) .b32),
   Lowering.op .mov (.full .rax) (Lowering.constant (Linkage.entryPoint direction))]))

/-- The code of a call after the call itself, but for the branch. -/
def callReturn (usage : Usage) : List Node :=
  (if Lowering.padding usage = 0 then []
    else [Lowering.op .add (.full .rsp) (Lowering.constant (BitVec.ofNat 64 (Lowering.padding usage)))]) ++
  ((if Lowering.keepsBase usage then [Lowering.pop (.full usage.base)] else []) ++
  [Lowering.op .test (.half .rax) (.half .rax)])

theorem call_eq [Linkage] (usage : Usage) (direction : Direction) (size : Nat) :
    Lowering.call usage direction size =
      callSetup usage direction size ++ (.instr (.one .call (.full .rax)) ::
        (callReturn usage ++ [.instr (.one .jnz (.label Lowering.faultExit))])) := by
  simp [Lowering.call, callSetup, callReturn]

theorem padding_cases (usage : Usage) :
    (Lowering.padding usage = 0 ∨ Lowering.padding usage = 8) ∧
      (Lowering.depth usage + Lowering.padding usage) % 16 = 0 := by
  have multiple : Lowering.depth usage % 8 = 0 := by
    unfold Lowering.depth
    split <;> omega
  unfold Lowering.padding Host.Convention.shadowSpace
  omega

/-- The word of the base register that a call leaves on the stack, if it does. -/
def baseWord (usage : Usage) (contextAddress : Word) : List Word :=
  if Lowering.keepsBase usage then [contextAddress] else []

/-- The word that aligns the stack, if there is one. -/
def Pads (usage : Usage) (pad : List Word) : Prop := 8 * pad.length = Lowering.padding usage

theorem aligned_below {usage : Usage} {contextAddress entry : Word} (layout : Layout contextAddress entry)
    {pad stack : List Word} (pads : Pads usage pad) (deep : stack.length = usage.saved.size + 1) :
    (below entry (pad ++ baseWord usage contextAddress ++ stack).length).toNat % 16 = 0 ∧
      (pad ++ baseWord usage contextAddress ++ stack).length ≤ frameWords := by
  -- With the return address of the block, the words make up the depth and the padding.
  have total : 8 * (pad ++ baseWord usage contextAddress ++ stack).length + 8 =
      Lowering.depth usage + Lowering.padding usage := by
    unfold Pads at pads
    rw [← pads, Lowering.depth]
    by_cases keeps : Lowering.keepsBase usage = true <;> simp [baseWord, keeps, deep] <;> omega
  have bounded : Lowering.depth usage ≤ 72 := by
    have few := usage.size_saved_le
    unfold Lowering.depth
    split <;> omega
  obtain ⟨small, multiple⟩ := padding_cases usage
  have inside : (pad ++ baseWord usage contextAddress ++ stack).length ≤ frameWords := by
    rw [frameWords]
    omega
  have aligned := layout.aligned
  have room := layout.room
  rw [frameWords] at room
  refine ⟨?_, inside⟩
  rw [toNat_below layout inside]
  omega

/-- A state with the arguments and the address of a call in place. -/
def State.calling [Linkage] (t : State) (contextAddress : Word) (direction : Direction) (size : Nat) (flags : Word) :
    State :=
  (({ t with flags }.set Host.Convention.firstArgument contextAddress).set Host.Convention.secondArgument
    (((BitVec.ofNat 64 size).setWidth 32).setWidth 64)).set .rax (Linkage.entryPoint direction)

theorem State.get_calling [Linkage] (t : State) (contextAddress : Word) (direction : Direction) (size : Nat)
    (flags : Word) (r : Reg) : (t.calling contextAddress direction size flags).get r =
      if .rax = r then Linkage.entryPoint direction
      else if Host.Convention.secondArgument = r then ((BitVec.ofNat 64 size).setWidth 32).setWidth 64
      else if Host.Convention.firstArgument = r then contextAddress
      else t.get r := by
  simp only [calling, get_set]
  rfl

namespace Straight

variable {env : Env σ} {usage : Usage} {entry : Word} {code : List Node} {t : State}
  {stack pad : List Word} {post : State → List Word → Prop}

section
variable (points : t.get usage.base = env.contextAddress)
include points

theorem pushBase (layout : Layout env.contextAddress entry) (fit : usage.Fit) (room : stack.length < frameWords)
    (rest : Straight env usage entry code t (baseWord usage env.contextAddress ++ stack) post) :
    Straight env usage entry
      ((if Lowering.keepsBase usage then [Lowering.push (.full usage.base)] else []) ++ code) t stack post := by
  by_cases keeps : Lowering.keepsBase usage = true
  · rw [if_pos keeps]
    rw [baseWord, if_pos keeps, ← points] at rest
    exact push layout fit.notStack room rest
  · rw [if_neg keeps]
    rw [baseWord, if_neg keeps] at rest
    exact rest

theorem passContext (fit : usage.Fit)
    (rest : Straight env usage entry code (t.set Host.Convention.firstArgument env.contextAddress) stack post) :
    Straight env usage entry
      ((if Host.Convention.firstArgument = usage.base then []
        else [Lowering.op .mov (.full Host.Convention.firstArgument) (.full usage.base)]) ++ code) t stack post := by
  rw [← points] at rest
  by_cases here : Host.Convention.firstArgument = usage.base
  · rw [if_pos here]
    rw [here, State.set_get_self] at rest
    exact rest
  · rw [if_neg here]
    exact mov (by decide) fit.notStack rest

end

theorem popBase (layout : Layout env.contextAddress entry) (fit : usage.Fit) (small : stack.length < frameWords)
    (points : Lowering.keepsBase usage = false → t.get usage.base = env.contextAddress)
    (rest : Straight env usage entry code (t.set usage.base env.contextAddress) stack post) :
    Straight env usage entry
      ((if Lowering.keepsBase usage then [Lowering.pop (.full usage.base)] else []) ++ code) t
      (baseWord usage env.contextAddress ++ stack) post := by
  by_cases keeps : Lowering.keepsBase usage = true
  · rw [if_pos keeps, baseWord, if_pos keeps]
    exact pop layout fit.notStack small rest
  · rw [if_neg keeps, baseWord, if_neg keeps]
    rw [← points (by simpa using keeps), State.set_get_self] at rest
    exact rest

theorem align (rest : ∀ flags pad, Pads usage pad → Straight env usage entry code { t with flags } (pad ++ stack) post) :
    Straight env usage entry
      ((if Lowering.padding usage = 0 then []
        else [Lowering.op .sub (.full .rsp) (Lowering.constant (BitVec.ofNat 64 (Lowering.padding usage)))]) ++ code)
      t stack post := by
  rcases (padding_cases usage).1 with none | word
  · rw [if_pos none]
    exact rest t.flags [] (by rw [Pads, none]; rfl)
  · rw [if_neg (by omega), word]
    exact reserve fun flags value => rest flags [value] (by rw [Pads, word]; rfl)

theorem unalign (pads : Pads usage pad) (rest : ∀ flags, Straight env usage entry code { t with flags } stack post) :
    Straight env usage entry
      ((if Lowering.padding usage = 0 then []
        else [Lowering.op .add (.full .rsp) (Lowering.constant (BitVec.ofNat 64 (Lowering.padding usage)))]) ++ code)
      t (pad ++ stack) post := by
  unfold Pads at pads
  rcases (padding_cases usage).1 with none | word
  · obtain rfl : pad = [] := List.eq_nil_of_length_eq_zero (by omega)
    rw [if_pos none]
    exact rest t.flags
  · obtain ⟨value, rfl⟩ : ∃ value, pad = [value] := List.length_eq_one_iff.mp (by omega)
    rw [if_neg (by omega), word]
    exact release rest

variable (layout : Layout env.contextAddress entry) (fit : usage.Fit)
include layout fit

/-- Before a call: the stack is aligned, and the arguments and the address of the function are in place. -/
theorem callSetup [Linkage] {direction : Direction} {size : Nat} (points : t.get usage.base = env.contextAddress)
    (room : stack.length < frameWords)
    (rest : ∀ flags pad, Pads usage pad →
      Straight env usage entry code (t.calling env.contextAddress direction size flags)
        (pad ++ (baseWord usage env.contextAddress ++ stack)) post) :
    Straight env usage entry (Machine.callSetup usage direction size ++ code) t stack post := by
  simp only [Machine.callSetup, List.append_assoc]
  refine pushBase points layout fit room (align fun flags pad pads => ?_)
  refine passContext points fit (constantHalf (by decide) (constant (by decide) ?_))
  exact rest flags pad pads

/-- After a call: the stack is as it was, the base register points to the context again, and the zero flag
says whether the function returned zero. -/
theorem callReturn (notResult : usage.base ≠ .rax) (pads : Pads usage pad) (small : stack.length < frameWords)
    (points : Lowering.keepsBase usage = false → t.get usage.base = env.contextAddress)
    (rest : ∀ flags, (Status.ofWord flags).zero = (t.result == 0) →
      Straight env usage entry code { t.set usage.base env.contextAddress with flags } stack post) :
    Straight env usage entry (Machine.callReturn usage ++ code) t
      (pad ++ (baseWord usage env.contextAddress ++ stack)) post := by
  simp only [Machine.callReturn, List.append_assoc]
  refine unalign pads fun _ => popBase layout fit small points (test (by decide) fun flags zero => rest flags ?_)
  rw [zero, State.result, State.get_set_of_ne _ _ notResult]
  rfl

end Straight

/-- A called function leaves the words on the stack alone. -/
theorem Shows.returned {contextAddress entry : Word} (layout : Layout contextAddress entry) {t s s' : State}
    {stack : List Word} (small : stack.length ≤ frameWords) (shows : Shows entry t stack s) (kept : Kept s s') :
    Shows entry { s' with cells := t.cells } stack s' := by
  have high (a : Word) (above : (below entry stack.length).toNat ≤ a.toNat) : s'.cells a = s.cells a := by
    rw [← shows.pointer] at above
    exact kept.cells a above
  refine ⟨fun r _ => rfl, kept.pointer.trans shows.pointer, rfl, rfl, ?_, fun a above => ?_⟩
  · exact Words.mono layout small (Nat.le_refl _) high shows.words
  · rw [high a (Nat.le_trans (below_le layout small) above)]
    exact shows.above a above

namespace Leads

variable {env : Env σ} {usage : Usage} {entry : Word} {code : List Node} {world : σ} {t : State}
  {stack : List Word} {post : σ → State → List Word → Option Label → List Executed → Prop}

theorem call [Linkage] {contract : Contract σ} (obeys : env.Obeys contract) (layout : Layout env.contextAddress entry)
    {direction : Direction} {size : Nat} (sized : Guest.isAccessSize size = true)
    (small : stack.length ≤ frameWords) (aligned : (below entry stack.length).toNat % 16 = 0)
    (target : t.get .rax = Linkage.entryPoint direction)
    (context : t.get Host.Convention.firstArgument = env.contextAddress)
    (sizes : (t.get Host.Convention.secondArgument).setWidth 32 = BitVec.ofNat 32 size)
    (rest : ∀ world' t' e, Prepared env.contextAddress direction size e.before → e.after.result = t'.result →
      contract direction size world t.context t'.result world' t'.context → SameSaved t t' → t'.cells = t.cells →
      Leads env usage entry code world' t' stack fun world t stack out more => post world t stack out (e :: more)) :
    Leads env usage entry (.instr (.one .call (.full .rax)) :: code) world t stack post := by
  intro s shows
  have prepared : Prepared env.contextAddress direction size s := by
    refine ⟨?_, ?_, ?_, ?_⟩
    · rw [shows.regs _ (by decide), target]
    · rw [shows.pointer, aligned]
    · rw [shows.regs _ (by decide), context]
    · rw [shows.regs _ (by decide), sizes]
  obtain ⟨world', s', returned, kept, answered⟩ := obeys direction size world s sized prepared
  have done : step env (.one .call (.full .rax)) world s = some (world', s', .onward) := by
    simp [step, Instr.one, Operand.full, prepared.target, returned]
  have shown := shows.returned layout small kept
  have saved : SameSaved t { s' with cells := t.cells } := by
    intro r member
    have notStack : r ≠ .rsp := by rintro rfl; exact absurd member (by decide)
    exact (kept.saved r member).trans (shows.regs r notStack)
  rw [shows.context] at answered
  obtain ⟨way, world'', s'', t'', stack'', out, passed, shown', confined, ended⟩ :=
    rest world' { s' with cells := t.cells } ⟨.one .call (.full .rax), s, s'⟩ prepared rfl answered saved rfl s' shown
  refine ⟨_, world'', s'', t'', stack'', out, .onward done passed, shown', fun e member => ?_, ended⟩
  rcases List.mem_cons.mp member with rfl | later
  · exact confined_of_none (by simp [Instr.one, Operand.full, Slots.operands, Slots.toList]) rfl
  · exact confined e later

theorem branch {l : Label} (onward : (Status.ofWord t.flags).zero = true → post world t stack none [])
    (away : (Status.ofWord t.flags).zero = false → post world t stack (some l) []) :
    Leads env usage entry [.instr (.one .jnz (.label l))] world t stack post := by
  intro s shows
  have confined (e : Executed) (member : e ∈ [⟨.one .jnz (.label l), s, s⟩]) :
      e.Confined usage env.contextAddress entry := by
    obtain rfl := List.mem_singleton.mp member
    exact confined_of_none (by simp [Instr.one, Slots.operands, Slots.toList]) rfl
  cases zero : (Status.ofWord t.flags).zero with
  | true =>
    have done : step env (.one .jnz (.label l)) world s = some (world, s, .onward) := by
      simp [step, Instr.one, State.status, shows.flags, zero]
    exact ⟨_, world, s, t, stack, none, .onward done .nil, shows, confined, onward zero⟩
  | false =>
    have done : step env (.one .jnz (.label l)) world s = some (world, s, .goto l) := by
      simp [step, Instr.one, State.status, shows.flags, zero]
    exact ⟨_, world, s, t, stack, some l, .jump done, shows, confined, away zero⟩

end Leads

/-- What holds after a call of generated code. -/
structure Called [Linkage] (env : Env σ) (usage : Usage) (contract : Contract σ) (direction : Direction) (size : Nat)
    (world : σ) (t : State) (world' : σ) (t' : State) (out : Option Label) (calls : List Executed) : Prop where
  points : t'.get usage.base = env.contextAddress
  saved : SameSaved t t'
  cells : t'.cells = t.cells
  call : ∃ e, calls = [e] ∧ Prepared env.contextAddress direction size e.before ∧
    contract direction size world t.context e.after.result world' t'.context ∧
    out = if e.after.result = 0 then none else some Lowering.faultExit

theorem leads_call [Linkage] {env : Env σ} {usage : Usage} {entry : Word} {contract : Contract σ} {world : σ}
    {t : State} {stack : List Word} (obeys : env.Obeys contract) (layout : Layout env.contextAddress entry) (fit : usage.Fit)
    (notResult : usage.base ≠ .rax) (direction : Direction) {size : Nat} (sized : Guest.isAccessSize size = true)
    (points : t.get usage.base = env.contextAddress) (deep : stack.length = usage.saved.size + 1) :
    Leads env usage entry (Lowering.call usage direction size) world t stack
      fun world' t' stack' out calls => stack' = stack ∧
        Called env usage contract direction size world t world' t' out calls := by
  have few := usage.size_saved_le
  have room : stack.length < frameWords := by rw [deep, frameWords]; omega
  rw [call_eq]
  have setup : Straight env usage entry (callSetup usage direction size) t stack fun t' stack' => ∃ flags pad,
      Pads usage pad ∧ t' = t.calling env.contextAddress direction size flags ∧
        stack' = pad ++ (baseWord usage env.contextAddress ++ stack) := by
    rw [← List.append_nil (callSetup usage direction size)]
    exact .callSetup layout fit points room fun flags pad pads => .nil ⟨flags, pad, pads, rfl, rfl⟩
  refine setup.leads ?_
  rintro _ _ ⟨flags, pad, pads, rfl, rfl⟩
  obtain ⟨aligned, inside⟩ := aligned_below layout pads deep
  rw [List.append_assoc] at aligned inside
  have prepares : SameSaved t (t.calling env.contextAddress direction size flags) := by
    intro r member
    rw [State.get_calling, if_neg, if_neg, if_neg] <;> rintro rfl <;> exact absurd member (by decide)
  have target : (t.calling env.contextAddress direction size flags).get .rax = Linkage.entryPoint direction :=
    State.get_set_self ..
  have first : (t.calling env.contextAddress direction size flags).get Host.Convention.firstArgument =
      env.contextAddress := by
    rw [State.get_calling, if_neg (by decide), if_neg (by decide), if_pos rfl]
  have second : ((t.calling env.contextAddress direction size flags).get Host.Convention.secondArgument).setWidth 32 =
      BitVec.ofNat 32 size := by
    rw [State.get_calling, if_neg (by decide), if_pos rfl]
    apply BitVec.eq_of_toNat_eq
    simp only [BitVec.toNat_setWidth, BitVec.toNat_ofNat]
    omega
  refine .call obeys layout sized inside aligned target first second
    fun world' t' e prepared result answered saved cells => ?_
  have kept : SameSaved t t' := fun r member => (saved r member).trans (prepares r member)
  have returns : Straight env usage entry (callReturn usage) t' (pad ++ (baseWord usage env.contextAddress ++ stack))
      fun t'' stack' => ∃ flags, (Status.ofWord flags).zero = (t'.result == 0) ∧
        t'' = { t'.set usage.base env.contextAddress with flags } ∧ stack' = stack := by
    rw [← List.append_nil (callReturn usage)]
    refine .callReturn layout fit notResult pads room (fun keeps => ?_)
      fun flags zero => .nil ⟨flags, zero, rfl, rfl⟩
    have member : Host.Convention.calleeSaved.contains usage.base = true := by
      simpa [Lowering.keepsBase] using keeps
    rw [kept _ member, points]
  refine returns.leads ?_
  rintro _ _ ⟨flags, zero, rfl, rfl⟩
  -- The branch is taken exactly if the function did not return zero.
  have called (out : Option Label) (leaves : out = if e.after.result = 0 then none else some Lowering.faultExit) :
      Called env usage contract direction size world t world' { t'.set usage.base env.contextAddress with flags }
        out [e] := by
    refine ⟨State.get_set_self .., fun r member => ?_, cells, e, rfl, prepared, by rw [result]; exact answered, leaves⟩
    by_cases same : usage.base = r
    · subst same
      exact (State.get_set_self ..).trans points.symm
    · exact (State.get_set_of_ne _ _ same).trans (kept r member)
  refine .branch (fun set => ⟨rfl, called none ?_⟩) (fun unset => ⟨rfl, called _ ?_⟩)
  · have zeroed : t'.result = 0 := by simpa [zero] using set
    rw [result, if_pos zeroed]
  · have other : t'.result ≠ 0 := by simpa [zero] using unset
    rw [result, if_neg other]

end Rehost.Machine
