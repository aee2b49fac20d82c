import Rehost.Proofs.Call
import Rehost.Proofs.Perform

/-!
# The course of a body

What the code of a body comes to, seen from the states between its instructions: `Takes` for one
instruction, `Course` for a body. An instruction with an operand in memory asks for a read, is performed,
and asks for a write (`Trip`); a call that fails ends the body. The machine takes such a course however
called functions answer, and makes the calls that the instructions demand until one fails
(`leads_lowered`, `leads_body`).
-/

namespace Rehost

open Guest (Context)
open Host (Instr Node Operand Label Formed)

namespace Lowering

/-- A call, if it is wanted. -/
def demand (wanted : Bool) (direction : Direction) (size : Nat) : List (Direction × Nat) :=
  if wanted then [(direction, size)] else []

/-- The calls that an instruction demands, each with the bytes of its operand in memory. -/
def demands (i : Instr) : List (Direction × Nat) :=
  match i.memory? with
  | none => []
  | some (position, m) =>
    if i.opcode.effects.accessesMemory then
      demand (transfers i.opcode.effects position).1 .read m.width.bytes ++
        demand (transfers i.opcode.effects position).2 .write m.width.bytes
    else []

end Lowering

namespace Machine

variable {σ : Type}

/-! ### The calls made -/

/-- Calls were made as demanded, and each returned zero. -/
inductive Met [Linkage] (contextAddress : Word) : List (Direction × Nat) → List Executed → Prop where
  | nil : Met contextAddress [] []
  | cons {direction : Direction} {size : Nat} {demanded : List (Direction × Nat)} {e : Executed}
      {calls : List Executed} (prepared : Prepared contextAddress direction size e.before)
      (served : e.after.result = 0) (rest : Met contextAddress demanded calls) :
      Met contextAddress ((direction, size) :: demanded) (e :: calls)

/-- Calls were made as demanded up to one that did not return zero. -/
inductive Broken [Linkage] (contextAddress : Word) : List (Direction × Nat) → List Executed → Prop where
  | here {direction : Direction} {size : Nat} {demanded : List (Direction × Nat)} {e : Executed}
      (prepared : Prepared contextAddress direction size e.before) (failed : e.after.result ≠ 0) :
      Broken contextAddress ((direction, size) :: demanded) [e]
  | later {direction : Direction} {size : Nat} {demanded : List (Direction × Nat)} {e : Executed}
      {calls : List Executed} (prepared : Prepared contextAddress direction size e.before)
      (served : e.after.result = 0) (rest : Broken contextAddress demanded calls) :
      Broken contextAddress ((direction, size) :: demanded) (e :: calls)

section
variable {contextAddress : Word} {one two : List (Direction × Nat)} {first second : List Executed}

theorem Met.append [Linkage] (met : Met contextAddress one first) (rest : Met contextAddress two second) :
    Met contextAddress (one ++ two) (first ++ second) := by
  induction met with
  | nil => exact rest
  | cons prepared served _ ih => exact .cons prepared served ih

theorem Met.append_broken [Linkage] (met : Met contextAddress one first) (rest : Broken contextAddress two second) :
    Broken contextAddress (one ++ two) (first ++ second) := by
  induction met with
  | nil => exact rest
  | cons prepared served _ ih => exact .later prepared served ih

theorem Broken.append_right [Linkage] (broken : Broken contextAddress one first) :
    Broken contextAddress (one ++ two) first := by
  induction broken with
  | here prepared failed => exact .here prepared failed
  | later prepared served _ ih => exact .later prepared served ih

end

/-! ### What an instruction comes to -/

/-- The end of an instruction or of a body: between two instructions, or at the fault exit. -/
inductive Ending (σ : Type) where
  | onward (world : σ) (t : State)
  | failed (world : σ) (context : Context)

/-- The context in which an access is asked for. -/
def State.requesting (usage : Usage) (m : Host.Mem) (t : State) : Context :=
  { t.spilled usage with accessAddress := m.address t.regs }

/-- After a call, registers are taken from a context, and flags are as they were. -/
structure Resumed (usage : Usage) (t : State) (context : Context) (t' : State) : Prop where
  regs : ∀ r ∈ usage.read, t'.get r = context.gp.get r
  flags : t'.flags = t.flags
  context : t'.context = context

/-- A call that is made only if it is wanted. -/
inductive Asked (contract : Contract σ) (direction : Direction) (size : Nat) (world : σ) (context : Context) :
    Bool → BitVec 32 → σ → Context → Prop where
  | skipped : Asked contract direction size world context false 0 world context
  | answered {status : BitVec 32} {world' : σ} {context' : Context}
      (answer : contract direction size world context status world' context') :
      Asked contract direction size world context true status world' context'

/-- What the write of an instruction may come to, if it is wanted and calls answer by a contract. -/
inductive Wrote (usage : Usage) (contract : Contract σ) (size : Nat) (world : σ) (t : State) :
    Bool → Ending σ → Prop where
  | skipped : Wrote usage contract size world t false (.onward world t)
  | served {world' : σ} {context : Context} {t' : State}
      (write : contract .write size world (t.spilled usage) 0 world' context) (resumed : Resumed usage t context t') :
      Wrote usage contract size world t true (.onward world' t')
  | refused {status : BitVec 32} {world' : σ} {context : Context}
      (write : contract .write size world (t.spilled usage) status world' context) (refused : status ≠ 0) :
      Wrote usage contract size world t true (.failed world' context)

/-- What the round trip of an instruction may come to, if calls answer by a contract. -/
inductive Trip (usage : Usage) (latitude : Latitude) (contract : Contract σ) (operation : Operation)
    (operands : Slots Operand) (m : Host.Mem) (world : σ) (t : State) (reads writes : Bool) : Ending σ → Prop where
  | refused {status : BitVec 32} {world' : σ} {context : Context}
      (read : Asked contract .read m.width.bytes world (t.requesting usage m) reads status world' context)
      (refused : status ≠ 0) :
      Trip usage latitude contract operation operands m world t reads writes (.failed world' context)
  | served {world' : σ} {context : Context} {t' : State} {ending : Ending σ}
      (read : Asked contract .read m.width.bytes world (t.requesting usage m) reads 0 world' context)
      (resumed : Resumed usage t context t')
      (rest : Wrote usage contract m.width.bytes world' (t'.performed latitude operation operands) writes ending) :
      Trip usage latitude contract operation operands m world t reads writes ending

/-- What an instruction may come to, if calls answer by a contract. -/
inductive Takes (usage : Usage) (latitude : Latitude) (contract : Contract σ) (operation : Operation) (i : Instr)
    (world : σ) (t : State) : Ending σ → Prop where
  | plain (direct : i.memory? = none ∨ operation = .lea) :
      Takes usage latitude contract operation i world t
        (.onward world (t.performed latitude operation i.operands))
  | trip {position : Nat} {m : Host.Mem} {ending : Ending σ} (accesses : operation ≠ .lea)
      (placed : Host.Placed i.operands position m)
      (trip : Trip usage latitude contract operation i.operands m world t
        (Lowering.transfers (Host.operationEffects operation) position).1
        (Lowering.transfers (Host.operationEffects operation) position).2 ending) :
      Takes usage latitude contract operation i world t ending

/-- What a body may come to, if calls answer by a contract. -/
inductive Course (usage : Usage) (latitude : Latitude) (contract : Contract σ) :
    List Instr → σ → State → Ending σ → Prop where
  | nil {world : σ} {t : State} : Course usage latitude contract [] world t (.onward world t)
  | cons {i : Instr} {instrs : List Instr} {operation : Operation} {world world' : σ} {t t' : State}
      {ending : Ending σ} (opcode : i.opcode = .op operation)
      (first : Takes usage latitude contract operation i world t (.onward world' t'))
      (rest : Course usage latitude contract instrs world' t' ending) :
      Course usage latitude contract (i :: instrs) world t ending
  | fault {i : Instr} {instrs : List Instr} {operation : Operation} {world world' : σ} {t : State}
      {context : Context} (opcode : i.opcode = .op operation)
      (first : Takes usage latitude contract operation i world t (.failed world' context)) :
      Course usage latitude contract (i :: instrs) world t (.failed world' context)

/-! ### What stays -/

/-- Code of a body leaves the base register, the registers that functions preserve and the body does not
name, and the memory of the caller as they are. -/
structure Steady (usage : Usage) (t t' : State) : Prop where
  base : t'.get usage.base = t.get usage.base
  saved : ∀ r ∈ Host.Convention.calleeSaved, r ∉ usage.read → t'.get r = t.get r
  cells : t'.cells = t.cells

namespace Steady

variable {usage : Usage} {t t' t'' : State}

theorem refl (usage : Usage) (t : State) : Steady usage t t := ⟨rfl, fun _ _ _ => rfl, rfl⟩

theorem trans (first : Steady usage t t') (second : Steady usage t' t'') : Steady usage t t'' :=
  ⟨second.base.trans first.base, fun r member other => (second.saved r member other).trans (first.saved r member other),
    second.cells.trans first.cells⟩

/-- Registers are taken from their slots. -/
theorem reloaded (fit : usage.Fit) (t : State) (flags : Word) : Steady usage t { t.reloaded usage with flags } := by
  refine ⟨?_, fun r _ other => ?_, rfl⟩
  · exact (State.get_reloaded usage t _).trans (if_neg fit.unnamed)
  · exact (State.get_reloaded usage t r).trans (if_neg other)

theorem of_called [Linkage] {env : Env σ} {contract : Contract σ} {direction : Direction} {size : Nat}
    {world world' : σ} {out : Option Label} {calls : List Executed} (points : t.get usage.base = env.contextAddress)
    (called : Called env usage contract direction size world t world' t' out calls) : Steady usage t t' :=
  ⟨called.points.trans points.symm, fun r member _ => called.saved r member, called.cells⟩

/-- Operations change registers that their operands name. -/
theorem performed (fit : usage.Fit) (latitude : Latitude) (operation : Operation) {operands : Slots Operand}
    (named : ∀ operand ∈ operands.operands, ∀ r, operand.Names r → r ∈ usage.read) (t : State) :
    Steady usage t (t.performed latitude operation operands) := by
  have kept (r : Reg) (other : r ∉ usage.read) : (t.performed latitude operation operands).get r = t.get r := by
    refine Scene.regs_apply latitude _ _ (fun dst => other ?_) (fun src => other ?_)
    · obtain ⟨operand, member, names⟩ := Spot.names_ofDst dst
      exact named operand member r names
    · obtain ⟨operand, member, names⟩ := Spot.names_ofSrc src
      exact named operand member r names
  exact ⟨kept _ fit.unnamed, fun r _ other => kept r other, rfl⟩

end Steady

/-! ### One instruction on the machine -/

/-- To an operation, one place in memory is as good as another of the same width. -/
theorem performed_set {operation : Operation} {operands : Slots Operand} {position : Nat} {m n : Host.Mem}
    (accesses : operation ≠ .lea) (placed : Host.Placed operands position m) (width : n.width = m.width)
    (latitude : Latitude) (t : State) :
    t.performed latitude operation (operands.set position (.mem n)) = t.performed latitude operation operands := by
  obtain ⟨first, second, third, fourth⟩ := operands
  obtain ⟨base, index, scale, displacement, w, addr32⟩ := n
  cases width
  obtain ⟨rfl, same⟩ | ⟨rfl, same⟩ := placed
  · cases same
    rfl
  · cases same
    simp only [State.performed, Slots.set, Spot.ofDst, Spot.ofSrc, if_neg accesses]
    rfl

/-- Once its operand in memory is replaced, no operand of an instruction is elsewhere in memory. -/
theorem eq_of_mem_set {operation : Operation} {operands : Slots Operand} {position : Nat} {m n k : Host.Mem}
    (formed : Formed operation operands) (accesses : operation ≠ .lea) (placed : Host.Placed operands position m)
    (member : .mem k ∈ (operands.set position (.mem n)).operands) : k = n := by
  obtain ⟨third, fourth⟩ := formed.narrow
  have apart := (formed.regular accesses).apart
  rw [Lowering.mem_operands] at member
  obtain ⟨rfl, same⟩ | ⟨rfl, same⟩ := placed
  · have other : operands.second ≠ some (.mem k) := apart m k same
    simpa [Slots.set, Slots.toList, third, fourth, other.symm] using member
  · have other : operands.first ≠ some (.mem k) := fun first => apart k m first same
    simpa [Slots.set, Slots.toList, third, fourth, other.symm] using member

theorem mem_of_mem_set {operands : Slots Operand} {position : Nat} {n : Host.Mem}
    {operand : Operand} (member : operand ∈ (operands.set position (.mem n)).operands) :
    operand = .mem n ∨ operand ∈ operands.operands := by
  rw [Lowering.mem_operands] at member ⊢
  obtain ⟨first, second, third, fourth⟩ := operands
  match position with
  | 0 | 1 | 2 | 3 =>
    simp only [Slots.set, Slots.toList, List.mem_cons, Option.some.injEq, List.not_mem_nil, or_false] at member ⊢
    grind
  | _ + 4 => exact .inr member

section
variable {env : Env σ} {usage : Usage} {entry : Word} {code : List Node} {t : State} {stack : List Word}
  {post : State → List Word → Prop} (layout : Layout env.contextAddress entry) (fit : usage.Fit)
  (points : t.get usage.base = env.contextAddress)
include layout fit points

/-- The code before a read: an access is asked for, and the flags are on the stack. -/
theorem Straight.request {m : Host.Mem} (unnamed : ¬ (Operand.mem m).Names .rsp) (room : stack.length < frameWords)
    (rest : ∀ t', t'.context = t.requesting usage m → Steady usage t t' →
      Straight env usage entry code t' (t.flags :: stack) post) :
    Straight env usage entry
      (Lowering.syncOut usage ++ (Lowering.op .lea (.full (Lowering.scratch usage)) (.mem m) ::
        Lowering.op .mov (Lowering.slot usage .accessAddress) (.full (Lowering.scratch usage)) :: code))
      t stack post := by
  have notStack := scratch_ne_rsp usage
  have notBase := scratch_ne_base usage
  have allowed : usage.Open .accessAddress := trivial
  refine syncOut layout fit points room (lea notStack unnamed ?_)
  refine save layout ?_ fit.notStack allowed notStack (rest _ ?_ ⟨?_, fun r member _ => ?_, rfl⟩)
  · exact (State.get_set_of_ne _ _ notBase).trans points
  · rw [State.get_set_self]
    rfl
  · exact State.get_set_of_ne _ _ notBase
  · refine State.get_set_of_ne _ _ ?_
    rintro rfl
    exact scratch_not_saved usage member

/-- The code after a call: registers come from their slots, and flags from the stack. -/
theorem Straight.resume {before : State} (small : stack.length < frameWords)
    (rest : ∀ t', Resumed usage before t.context t' → Steady usage t t' →
      Straight env usage entry code t' stack post) :
    Straight env usage entry (Lowering.syncIn usage ++ code) t (before.flags :: stack) post := by
  refine syncIn layout fit points small (rest _ ⟨fun r member => ?_, rfl, rfl⟩ (.reloaded fit t _))
  exact (State.get_reloaded usage t r).trans (if_pos member)

end

/-- How code of a body is left: at its end with the stack as it was, or to the fault exit with the flags
still on the stack. -/
inductive Went [Linkage] (contextAddress : Word) (usage : Usage) (ends : Ending σ → Prop)
    (demanded : List (Direction × Nat)) (t : State) (stack : List Word) : σ → State → List Word → Option Label → List Executed → Prop where
  | onward {world' : σ} {t' : State} {calls : List Executed} (steady : Steady usage t t')
      (ended : ends (.onward world' t')) (met : Met contextAddress demanded calls) :
      Went contextAddress usage ends demanded t stack world' t' stack none calls
  | failed {world' : σ} {t' : State} {flags : Word} {calls : List Executed} (steady : Steady usage t t')
      (ended : ends (.failed world' t'.context)) (broken : Broken contextAddress demanded calls) :
      Went contextAddress usage ends demanded t stack world' t' (flags :: stack) (some Lowering.faultExit) calls

section
variable [Linkage] {env : Env σ} {usage : Usage} {entry : Word} {contract : Contract σ} (world : σ) {t : State}
  {stack : List Word} (obeys : env.Obeys contract) (layout : Layout env.contextAddress entry) (fit : usage.Fit)
  (notResult : usage.base ≠ .rax) (points : t.get usage.base = env.contextAddress)
include obeys layout fit notResult points

theorem leads_asked (direction : Direction) {size : Nat} (sized : Guest.isAccessSize size = true)
    (deep : stack.length = usage.saved.size + 1) (wanted : Bool) :
    Leads env usage entry (if wanted then Lowering.call usage direction size else []) world t stack
      fun world' t' stack' out calls => stack' = stack ∧ Steady usage t t' ∧ ∃ status,
        Asked contract direction size world t.context wanted status world' t'.context ∧
        (out = none ∧ status = 0 ∧ Met env.contextAddress (Lowering.demand wanted direction size) calls ∨
          out = some Lowering.faultExit ∧ status ≠ 0 ∧
            Broken env.contextAddress (Lowering.demand wanted direction size) calls) := by
  cases wanted with
  | false => exact .nil ⟨rfl, .refl usage t, 0, .skipped, .inl ⟨rfl, rfl, .nil⟩⟩
  | true =>
    refine (leads_call obeys layout fit notResult direction sized points deep).mono ?_
    rintro world' t' stack' out calls ⟨rfl, called⟩
    obtain ⟨e, rfl, prepared, answer, leaves⟩ := called.call
    refine ⟨rfl, .of_called points called, e.after.result, .answered answer, ?_⟩
    by_cases served : e.after.result = 0
    · rw [if_pos served] at leaves
      exact .inl ⟨leaves, served, .cons prepared served .nil⟩
    · rw [if_neg served] at leaves
      exact .inr ⟨leaves, served, .here prepared served⟩

theorem leads_wrote {size : Nat} (sized : Guest.isAccessSize size = true) (deep : stack.length = usage.saved.size)
    (writes : Bool) :
    Leads env usage entry
      (if writes then Lowering.syncOut usage ++ (Lowering.call usage .write size ++ Lowering.syncIn usage) else [])
      world t stack
      (Went env.contextAddress usage (Wrote usage contract size world t writes) (Lowering.demand writes .write size)
        t stack) := by
  have few := usage.size_saved_le
  have room : stack.length < frameWords := by rw [deep, frameWords]; omega
  cases writes with
  | false => exact .nil (.onward (.refl usage t) .skipped .nil)
  | true =>
    rw [if_pos rfl]
    have out : Straight env usage entry (Lowering.syncOut usage) t stack fun t' stack' =>
        t' = { t with context := t.spilled usage } ∧ stack' = t.flags :: stack := by
      rw [← List.append_nil (Lowering.syncOut usage)]
      exact .syncOut layout fit points room (.nil ⟨rfl, rfl⟩)
    refine out.leads ?_
    rintro _ _ ⟨rfl, rfl⟩
    have deeper : (t.flags :: stack).length = usage.saved.size + 1 := by rw [List.length_cons, deep]
    have asked := leads_asked world (t := { t with context := t.spilled usage }) obeys layout fit notResult points
      .write sized deeper true
    refine asked.append ?_ ?_
    · rintro world' t' stack' l calls ⟨rfl, steady, status, answer, ⟨none, _⟩ | ⟨leaves, failed, broken⟩⟩
      · cases none
      · cases leaves
        cases answer with
        | answered answer =>
          exact .failed ⟨steady.base, steady.saved, steady.cells⟩ (.refused answer failed) broken
    · rintro world' t' stack' calls ⟨rfl, steady, status, answer, ⟨_, rfl, met⟩ | ⟨none, _⟩⟩
      · cases answer with
        | answered answer =>
          have back : Straight env usage entry (Lowering.syncIn usage) t' (t.flags :: stack) fun t'' stack' =>
              Resumed usage t t'.context t'' ∧ Steady usage t' t'' ∧ stack' = stack := by
            rw [← List.append_nil (Lowering.syncIn usage)]
            exact .resume layout fit (steady.base.trans points) room fun t'' resumed kept => .nil ⟨resumed, kept, rfl⟩
          rw [← List.append_nil (Lowering.syncIn usage)]
          refine back.leads ?_
          rintro t'' _ ⟨resumed, kept, rfl⟩
          refine .nil ?_
          rw [List.append_nil]
          exact .onward (.trans ⟨steady.base, steady.saved, steady.cells⟩ kept) (.served answer resumed) met
      · cases none

end

section
variable [Linkage] {env : Env σ} {usage : Usage} {entry : Word} {contract : Contract σ} (world : σ) {t : State}
  {stack : List Word} (obeys : env.Obeys contract) (layout : Layout env.contextAddress entry) (fit : usage.Fit)
  (points : t.get usage.base = env.contextAddress) (deep : stack.length = usage.saved.size)
  {guest : Guest.Instruction} {i : Instr} {operation : Operation} (translated : Lowering.Translated usage guest i operation)
include obeys layout fit points deep translated

/-- The round trip of an instruction with an operand in memory. -/
theorem leads_access {position : Nat} {m : Host.Mem} (formed : Formed operation i.operands)
    (accesses : operation ≠ .lea) (placed : Host.Placed i.operands position m) :
    Leads env usage entry (Lowering.access usage i position m) world t stack
      (Went env.contextAddress usage (Takes usage env.latitude contract operation i world t)
        (Lowering.demand (Lowering.transfers (Host.operationEffects operation) position).1 .read m.width.bytes ++
          Lowering.demand (Lowering.transfers (Host.operationEffects operation) position).2 .write m.width.bytes)
        t stack) := by
  have few := usage.size_saved_le
  have room : stack.length < frameWords := by rw [deep, frameWords]; omega
  have present := placed.mem_operands
  have notResult := fit.notResult (translated.touches accesses m present)
  have unnamed (r : Reg) (other : r ∉ usage.read) : Unnamed r i.operands :=
    fun operand member names => other (translated.named operand member r names)
  have sized : Guest.isAccessSize m.width.bytes = true := by cases m.width <;> rfl
  have width : (Lowering.valueMem usage m).width = m.width := rfl
  have effects : i.opcode.effects = Host.operationEffects operation := by rw [translated.opcode]; rfl
  simp only [Lowering.access, List.append_assoc, effects]
  generalize reading : (Lowering.transfers (Host.operationEffects operation) position).1 = reads
  generalize writing : (Lowering.transfers (Host.operationEffects operation) position).2 = writes
  have takes {ending : Ending σ}
      (trip : Trip usage env.latitude contract operation i.operands m world t reads writes ending) :
      Takes usage env.latitude contract operation i world t ending :=
    .trip accesses placed (by rw [reading, writing]; exact trip)
  have request : Straight env usage entry
      (Lowering.syncOut usage ++ [Lowering.op .lea (.full (Lowering.scratch usage)) (.mem m),
        Lowering.op .mov (Lowering.slot usage .accessAddress) (.full (Lowering.scratch usage))]) t stack
      fun t' stack' => t'.context = t.requesting usage m ∧ Steady usage t t' ∧ stack' = t.flags :: stack :=
    .request layout fit points (unnamed .rsp fit.stackUnnamed _ present) room
      fun t' context steady => .nil ⟨context, steady, rfl⟩
  rw [← List.append_assoc]
  refine request.leads ?_
  rintro t₁ _ ⟨context, steady, rfl⟩
  have deeper : (t.flags :: stack).length = usage.saved.size + 1 := by rw [List.length_cons, deep]
  have asked := leads_asked world obeys layout fit notResult (steady.base.trans points) .read sized deeper reads
  rw [context] at asked
  refine asked.append ?_ ?_
  · rintro world' t' stack' l calls ⟨rfl, kept, status, answer, ⟨none, _⟩ | ⟨leaves, failed, broken⟩⟩
    · cases none
    · cases leaves
      exact .failed (steady.trans kept) (takes (.refused answer failed)) broken.append_right
  · rintro world' t' stack' calls ⟨rfl, kept, status, answer, ⟨_, rfl, met⟩ | ⟨none, _⟩⟩
    · have same : Steady usage t t' := steady.trans kept
      have back : Straight env usage entry
          (Lowering.syncIn usage ++
            [.instr { i with operands := i.operands.set position (.mem (Lowering.valueMem usage m)) }])
          t' (t.flags :: stack) fun t'' stack' => ∃ t₂, Resumed usage t t'.context t₂ ∧ Steady usage t t₂ ∧
            t'' = t₂.performed env.latitude operation i.operands ∧ stack' = stack := by
        refine .resume layout fit (same.base.trans points) room fun t₂ resumed after => ?_
        refine .perform translated.opcode (formed.set width accesses placed) ?_ ?_ layout
          ((same.trans after).base.trans points) fit.notStack ?_
        · intro operand member names
          rcases mem_of_mem_set member with rfl | other
          · obtain base | none := names
            · exact fit.notStack (Option.some.inj base)
            · cases none
          · exact unnamed .rsp fit.stackUnnamed operand other names
        · intro _ k member
          rw [eq_of_mem_set formed accesses placed member]
          rfl
        · exact .nil ⟨t₂, resumed, same.trans after, performed_set accesses placed width env.latitude t₂, rfl⟩
      rw [← List.append_assoc]
      refine back.leads ?_
      rintro _ _ ⟨t₂, resumed, after, rfl, rfl⟩
      have whole := after.trans (.performed fit env.latitude operation translated.named t₂)
      refine (leads_wrote world' obeys layout fit notResult (whole.base.trans points) sized deep writes).mono ?_
      intro world'' t'' stack'' out calls' went
      cases went with
      | onward later ended met' =>
        exact .onward (whole.trans later) (takes (.served answer resumed ended)) (met.append met')
      | failed later ended broken =>
        exact .failed (whole.trans later) (takes (.served answer resumed ended)) (met.append_broken broken)
    · cases none

/-- The code of an instruction takes a course of the instruction. -/
theorem leads_lowered {code : List Node} (lowered : Lowering.Lowered usage operation i code) :
    Leads env usage entry code world t stack
      (Went env.contextAddress usage (Takes usage env.latitude contract operation i world t) (Lowering.demands i)
        t stack) := by
  cases lowered with
  | plain formed direct =>
    have demanded : Lowering.demands i = [] := by
      cases found : i.memory? with
      | none => simp [Lowering.demands, found]
      | some operand =>
        obtain rfl : operation = .lea := by simpa [found] using direct
        simp [Lowering.demands, found, translated.opcode, Host.Opcode.effects, Lowering.accessesMemory_eq]
    have performed : Straight env usage entry [.instr i] t stack fun t' stack' =>
        t' = t.performed env.latitude operation i.operands ∧ stack' = stack := by
      refine .perform translated.opcode formed ?_ ?_ layout points fit.notStack (.nil ⟨rfl, rfl⟩)
      · exact fun operand member names => fit.stackUnnamed (translated.named operand member _ names)
      · intro accesses m member
        obtain none | lea := direct
        · obtain ⟨first, second⟩ := Lowering.memory?_eq_none none m
          obtain ⟨third, fourth⟩ := formed.narrow
          simp [Lowering.mem_operands, Slots.toList, third, fourth, first.symm, second.symm] at member
        · exact absurd lea accesses
    rw [demanded, ← List.append_nil [Node.instr i]]
    refine performed.leads ?_
    rintro _ _ ⟨rfl, rfl⟩
    refine .nil ?_
    exact .onward (.performed fit env.latitude operation translated.named t) (.plain direct) .nil
  | @trip position m formed accesses found placed =>
    have demanded : Lowering.demands i =
        Lowering.demand (Lowering.transfers (Host.operationEffects operation) position).1 .read m.width.bytes ++
          Lowering.demand (Lowering.transfers (Host.operationEffects operation) position).2 .write m.width.bytes := by
      simp [Lowering.demands, found, translated.opcode, Host.Opcode.effects, Lowering.accessesMemory_eq, accesses]
    rw [demanded]
    exact leads_access world obeys layout fit points deep translated formed accesses placed

end

/-! ### The body on the machine -/

/-- The code of a body takes a course of the body. -/
theorem leads_body [Linkage] {env : Env σ} {usage : Usage} {entry : Word} {contract : Contract σ} {stack : List Word}
    (obeys : env.Obeys contract) (layout : Layout env.contextAddress entry) (fit : usage.Fit)
    (deep : stack.length = usage.saved.size) {program : List Guest.Instruction} {instrs : List Instr}
    {nodes : List Node} (body : Lowering.Body usage program instrs nodes) (world : σ) {t : State}
    (points : t.get usage.base = env.contextAddress) :
    Leads env usage entry nodes world t stack
      (Went env.contextAddress usage (Course usage env.latitude contract instrs world t)
        (instrs.flatMap Lowering.demands) t stack) := by
  induction body generalizing world t with
  | nil => exact .nil (.onward (.refl usage t) .nil .nil)
  | cons translated lowered _ ih =>
    have first := leads_lowered world obeys layout fit points deep translated lowered
    rw [List.flatMap_cons]
    refine first.append ?_ ?_
    · intro world' t' stack' l calls went
      cases went with
      | failed steady ended broken => exact .failed steady (.fault translated.opcode ended) broken.append_right
    · intro world' t' stack' calls went
      cases went with
      | onward steady ended met =>
        refine (ih world' (steady.base.trans points)).mono fun world'' t'' stack'' out more went => ?_
        cases went with
        | onward later rest met' =>
          exact .onward (steady.trans later) (.cons translated.opcode ended rest) (met.append met')
        | failed later rest broken =>
          exact .failed (steady.trans later) (.cons translated.opcode ended rest) (met.append_broken broken)

/-- Only a body that touches memory can fail. -/
theorem touchesMemory_of_failed [Linkage] {usage : Usage} {latitude : Latitude} {contract : Contract σ}
    {program : List Guest.Instruction} {instrs : List Instr} {nodes : List Node}
    (body : Lowering.Body usage program instrs nodes) {world world' : σ} {t : State} {context : Context}
    (failed : Course usage latitude contract instrs world t (.failed world' context)) :
    usage.touchesMemory = true := by
  induction body generalizing world t with
  | nil => cases failed
  | cons translated _ _ ih =>
    cases failed with
    | cons _ _ rest => exact ih rest
    | fault opcode first =>
      obtain rfl := Host.Opcode.op.inj (opcode.symm.trans translated.opcode)
      cases first with
      | trip accesses placed _ =>
        exact translated.touches accesses _ placed.mem_operands

end Machine

end Rehost
