import Rehost.Proofs.BaseChoice
import Rehost.Proofs.Direct
import Rehost.Proofs.Meaning

/-!
# What a body reads and changes

The usage of a body bounds what its execution can do. No register but a modified one changes, and no flag but one that
the body writes (`frame_run`). Executions that begin alike in the registers and flags that the body reads go on alike:
they access memory in the same way, and end alike in these registers and in the flags that the body reads or writes
(`agree_run`). Flags that the body reads after it has written them need not be alike at first, so what is compared grows
with every instruction.
-/

namespace Rehost

namespace Guest.Interpreter

variable {σ α β : Type} {handler : Handler σ} {w : Width}

/-- Whether a location, if it is in a register, is in one of these. -/
def Location.Within (regs : Reg → Prop) : Location → Prop
  | .reg r _ => regs r
  | .memory _ => True
  | .value _ => True

/-! ### What changes -/

/-- What holds of the result of a computation, and of the state in which an access of it is refused. -/
def Leads (result : α → Prop) (refusal : State σ → Prop) : Except (Stop σ) α → Prop
  | .ok a => result a
  | .error (.refused t _ _) => refusal t
  | .error .undefined => True

theorem Leads.bind {result : α → Prop} {last : β → Prop} {refusal : State σ → Prop} {first : Except (Stop σ) α}
    {next : α → Except (Stop σ) β} (leads : Leads result refusal first)
    (onward : ∀ a, result a → Leads last refusal (next a)) : Leads last refusal (first >>= next) := by
  cases first with
  | ok a => exact onward a leads
  | error stop =>
    cases stop with
    | refused t address fault => exact leads
    | undefined => trivial

/-- A state after another, with changes to no registers but these and no flags but those of the mask. -/
structure Frame (regs : Reg → Prop) (mask : Word) (s t : State σ) : Prop where
  regs : ∀ r, ¬ regs r → t.context.gp.get r = s.context.gp.get r
  status : Status.Agree (~~~mask) s.status t.status

section
variable {regs : Reg → Prop} {mask : Word} {s t : State σ}

theorem Frame.refl (s : State σ) : Frame regs mask s s := ⟨fun _ _ => rfl, Status.Agree.refl _ _⟩

theorem status_setStatus (s : State σ) (status : Status) : (s.setStatus status).status = status := by
  simp [State.setStatus, State.status]

theorem Frame.setStatus {status : Status} (frame : Frame regs mask s t)
    (keeps : Status.Agree (~~~mask) t.status status) : Frame regs mask s (t.setStatus status) :=
  ⟨frame.regs, by rw [status_setStatus]; exact frame.status.trans keeps⟩

theorem frame_fetch (frame : Frame regs mask s t) (location : Location) :
    Leads (fun result => Frame regs mask s result.2) (Frame regs mask s) (fetch handler w t location) := by
  cases location with
  | reg r high => exact frame
  | value v => exact frame
  | memory address =>
    simp only [fetch]
    split
    · exact ⟨frame.regs, frame.status⟩
    · exact ⟨frame.regs, frame.status⟩

theorem frame_store (frame : Frame regs mask s t) {location : Location} (within : location.Within regs)
    (value : BitVec w.bits) :
    Leads (Frame regs mask s) (Frame regs mask s) (store handler w value t location) := by
  cases location with
  | reg r high =>
    refine ⟨fun q outside => ?_, frame.status⟩
    have other : r ≠ q := fun same => outside (same ▸ within)
    exact (RegFile.get_setPart_of_ne _ high w value other).trans (frame.regs q outside)
  | value v => trivial
  | memory address =>
    simp only [store]
    split
    · exact ⟨frame.regs, frame.status⟩
    · exact ⟨frame.regs, frame.status⟩

variable {dst src : Location} (frame : Frame regs mask s t) (dstWithin : dst.Within regs)
include frame

theorem frame_compare {f : (n : Nat) → BitVec n → BitVec n → Status}
    (keeps : ∀ n a b p, Status.Agree (~~~mask) p (f n a b)) :
    Leads (Frame regs mask s) (Frame regs mask s) (compare handler f w dst src t) := by
  refine (frame_fetch frame dst).bind fun first frame => (frame_fetch frame src).bind fun second frame => ?_
  exact frame.setStatus (keeps _ _ _ _)

include dstWithin

theorem frame_unary {f : (n : Nat) → BitVec n → Status → BitVec n × Status}
    (keeps : ∀ n a p, Status.Agree (~~~mask) p (f n a p).2) :
    Leads (Frame regs mask s) (Frame regs mask s) (unary handler f w dst t) := by
  refine (frame_fetch frame dst).bind fun result frame => ?_
  exact frame_store (frame.setStatus (keeps _ _ _)) dstWithin _

theorem frame_binary {f : (n : Nat) → BitVec n → BitVec n → Status → BitVec n × Status}
    (keeps : ∀ n a b p, Status.Agree (~~~mask) p (f n a b p).2) :
    Leads (Frame regs mask s) (Frame regs mask s) (binary handler f w dst src t) := by
  refine (frame_fetch frame dst).bind fun first frame => (frame_fetch frame src).bind fun second frame => ?_
  exact frame_store (frame.setStatus (keeps _ _ _ _)) dstWithin _

theorem frame_move : Leads (Frame regs mask s) (Frame regs mask s) (move handler w dst src t) :=
  (frame_fetch frame src).bind fun _ frame => frame_store frame dstWithin _

theorem frame_swap (srcWithin : src.Within regs) :
    Leads (Frame regs mask s) (Frame regs mask s) (swap handler w dst src t) := by
  refine (frame_fetch frame dst).bind fun first frame => (frame_fetch frame src).bind fun second frame => ?_
  cases dst with
  | memory address => exact (frame_store frame srcWithin _).bind fun _ frame => frame_store frame dstWithin _
  | _ => exact (frame_store frame dstWithin _).bind fun _ frame => frame_store frame srcWithin _

end

/-! ### What is alike -/

/-- Two computations end in the same way, with results that are related, or are refused the same access, in states that
are related. -/
inductive Matched (result : α → α → Prop) (refusal : State σ → State σ → Prop) :
    Except (Stop σ) α → Except (Stop σ) α → Prop where
  | ok {a b : α} (related : result a b) : Matched result refusal (.ok a) (.ok b)
  | refused {t u : State σ} (related : refusal t u) (address : Word) (fault : Fault) :
      Matched result refusal (.error (.refused t address fault)) (.error (.refused u address fault))
  | undefined : Matched result refusal (.error .undefined) (.error .undefined)

theorem Matched.bind {result : α → α → Prop} {last : β → β → Prop} {refusal : State σ → State σ → Prop}
    {one two : Except (Stop σ) α} {next next' : α → Except (Stop σ) β} (matched : Matched result refusal one two)
    (onward : ∀ a b, result a b → Matched last refusal (next a) (next' b)) :
    Matched last refusal (one >>= next) (two >>= next') := by
  cases matched with
  | ok related => exact onward _ _ related
  | refused related address fault => exact .refused related address fault
  | undefined => exact .undefined

/-- States that are alike in some registers, the flags of a mask, and memory. -/
structure Agree (shared : Reg → Prop) (mask : Word) (one two : State σ) : Prop where
  regs : ∀ r, shared r → one.context.gp.get r = two.context.gp.get r
  status : Status.Agree mask one.status two.status
  memory : one.memory = two.memory

section
variable {shared : Reg → Prop} {mask : Word} {one two : State σ}

theorem Agree.setStatus {larger : Word} {p q : Status} (agree : Agree shared mask one two)
    (flags : Status.Agree larger p q) : Agree shared larger (one.setStatus p) (two.setStatus q) :=
  ⟨agree.regs, by rw [status_setStatus, status_setStatus]; exact flags, agree.memory⟩

theorem agree_fetch (agree : Agree shared mask one two) {location : Location} (within : location.Within shared) :
    Matched (fun result result' => result.1 = result'.1 ∧ Agree shared mask result.2 result'.2) (Agree shared mask)
      (fetch handler w one location) (fetch handler w two location) := by
  cases location with
  | reg r high =>
    refine .ok ⟨?_, agree⟩
    simp only [RegFile.part, agree.regs r within]
  | value v => exact .ok ⟨rfl, agree⟩
  | memory address =>
    simp only [fetch, agree.memory]
    split
    · exact .ok ⟨rfl, agree.regs, agree.status, rfl⟩
    · exact .refused ⟨agree.regs, agree.status, rfl⟩ address _

/-- What follows a read may assume that it gave the same value. -/
theorem agree_bind {result : β → β → Prop} {next next' : BitVec w.bits × State σ → Except (Stop σ) β}
    (agree : Agree shared mask one two) {location : Location} (within : location.Within shared)
    (onward : ∀ a t u, Agree shared mask t u → Matched result (Agree shared mask) (next (a, t)) (next' (a, u))) :
    Matched result (Agree shared mask) (fetch handler w one location >>= next)
      (fetch handler w two location >>= next') := by
  refine (agree_fetch agree within).bind ?_
  rintro ⟨a, t⟩ ⟨_, u⟩ ⟨rfl, agree⟩
  exact onward a t u agree

/-- Where a store is refused, less may be alike than is in the end. -/
theorem agree_store {larger : Word} (more : Flag.Within mask larger) (agree : Agree shared larger one two)
    {location : Location} (within : location.Within shared) (value : BitVec w.bits) :
    Matched (Agree shared larger) (Agree shared mask) (store handler w value one location)
      (store handler w value two location) := by
  cases location with
  | reg r high =>
    refine .ok ⟨fun s member => ?_, agree.status, agree.memory⟩
    exact RegFile.get_setPart_congr high w value (agree.regs r within) (agree.regs s member)
  | value v => exact .undefined
  | memory address =>
    simp only [store, agree.memory]
    split
    · exact .ok ⟨agree.regs, agree.status, rfl⟩
    · exact .refused ⟨agree.regs, agree.status.mono more, rfl⟩ address _

variable {dst src : Location} (agree : Agree shared mask one two) (dstWithin : dst.Within shared)
include agree dstWithin

theorem agree_unary {f : (n : Nat) → BitVec n → Status → BitVec n × Status} {written : Word}
    (settles : ∀ n a p q, Status.Agree mask p q →
      (f n a p).1 = (f n a q).1 ∧ Status.Agree (mask ||| written) (f n a p).2 (f n a q).2) :
    Matched (Agree shared (mask ||| written)) (Agree shared mask) (unary handler f w dst one)
      (unary handler f w dst two) := by
  refine agree_bind agree dstWithin fun a t u agree => ?_
  obtain ⟨results, flags⟩ := settles w.bits a t.status u.status agree.status
  simp only [results]
  exact agree_store (Flag.within_or_left _ _) (agree.setStatus flags) dstWithin _

theorem agree_move (srcWithin : src.Within shared) :
    Matched (Agree shared mask) (Agree shared mask) (move handler w dst src one) (move handler w dst src two) :=
  agree_bind agree srcWithin fun _ _ _ agree => agree_store (fun _ => id) agree dstWithin _

theorem agree_binary (srcWithin : src.Within shared)
    {f : (n : Nat) → BitVec n → BitVec n → Status → BitVec n × Status} {written : Word}
    (settles : ∀ n a b p q, Status.Agree mask p q →
      (f n a b p).1 = (f n a b q).1 ∧ Status.Agree (mask ||| written) (f n a b p).2 (f n a b q).2) :
    Matched (Agree shared (mask ||| written)) (Agree shared mask) (binary handler f w dst src one)
      (binary handler f w dst src two) := by
  refine agree_bind agree dstWithin fun a t u agree => agree_bind agree srcWithin fun b t u agree => ?_
  obtain ⟨results, flags⟩ := settles w.bits a b t.status u.status agree.status
  simp only [results]
  exact agree_store (Flag.within_or_left _ _) (agree.setStatus flags) dstWithin _

theorem agree_compare (srcWithin : src.Within shared) (f : (n : Nat) → BitVec n → BitVec n → Status) (larger : Word) :
    Matched (Agree shared larger) (Agree shared mask) (compare handler f w dst src one)
      (compare handler f w dst src two) :=
  agree_bind agree dstWithin fun _ _ _ agree => agree_bind agree srcWithin fun _ _ _ agree =>
    .ok (agree.setStatus (Status.Agree.refl _ _))

theorem agree_swap (srcWithin : src.Within shared) :
    Matched (Agree shared mask) (Agree shared mask) (swap handler w dst src one) (swap handler w dst src two) := by
  have still : Flag.Within mask mask := fun _ => id
  refine agree_bind agree dstWithin fun a t u agree => agree_bind agree srcWithin fun b t u agree => ?_
  cases dst with
  | memory address =>
    exact (agree_store still agree srcWithin a).bind fun _ _ agree => agree_store still agree dstWithin b
  | _ => exact (agree_store still agree dstWithin b).bind fun _ _ agree => agree_store still agree srcWithin a

end

end Guest.Interpreter

/-! ### Actions -/

namespace Action

theorem Keeps.mono {action : Action} {small large : Word} (within : Flag.Within small large)
    (keeps : action.Keeps small) : action.Keeps large := by
  cases action with
  | unary f => exact fun n a p => (keeps n a p).mono within.not
  | binary f => exact fun latitude n a b p => (keeps latitude n a b p).mono within.not
  | compare f => exact fun latitude n a b p => (keeps latitude n a b p).mono within.not
  | shift f => exact fun latitude n a count p => (keeps latitude n a count p).mono within.not
  | _ => trivial

end Action

namespace Host.Direct

open Guest (Handler)
open Guest.Interpreter

variable {σ : Type} {latitude : Latitude} {handler : Handler σ}

/-! ### Instructions -/

theorem within_of_location? {regs : Reg → Prop} {file : RegFile} {w : Width} {operand : Operand} {location : Location}
    (named : ∀ q, operand = .reg q → regs q.reg) (found : location? file w operand = some location) :
    location.Within regs := by
  cases operand with
  | reg q =>
    obtain ⟨_, same⟩ := Option.ite_none_right_eq_some.mp found
    cases same
    exact named q rfl
  | mem m =>
    obtain ⟨_, same⟩ := Option.ite_none_right_eq_some.mp found
    cases same
    trivial
  | imm v declared =>
    cases found
    trivial
  | label l => cases found

theorem withOne_eq (dst : Operand) (s : State σ) (act : Width → Location → State σ → Except (Stop σ) (State σ)) :
    withOne dst s act = match dst.width? with
      | some w => match location? s.context.gp w dst with
        | some location => act w location s
        | none => .error .undefined
      | none => .error .undefined := by
  cases width : dst.width? with
  | none => simp [withOne, width]
  | some w => cases found : location? s.context.gp w dst <;> simp [withOne, width, found]

theorem withTwo_eq (dst src : Operand) (s : State σ)
    (act : Width → Location → Location → State σ → Except (Stop σ) (State σ)) :
    withTwo dst src s act = withOne dst s fun w first s => match location? s.context.gp w src with
      | some second => act w first second s
      | none => .error .undefined := by
  cases width : dst.width? with
  | none => simp [withTwo, withOne, width]
  | some w =>
    cases first : location? s.context.gp w dst with
    | none => simp [withTwo, withOne, width, first]
    | some _ => cases second : location? s.context.gp w src <;> simp [withTwo, withOne, width, first, second]

section
variable {regs : Reg → Prop} {mask : Word} {s t : State σ} {result refusal : State σ → Prop}

theorem leads_withOne {dst : Operand} (named : ∀ q, dst = .reg q → regs q.reg)
    {act : Width → Location → State σ → Except (Stop σ) (State σ)}
    (each : ∀ w location, location.Within regs → Leads result refusal (act w location t)) :
    Leads result refusal (withOne dst t act) := by
  rw [withOne_eq]
  split
  next w _ =>
    split
    next location found => exact each w location (within_of_location? named found)
    next => trivial
  next => trivial

theorem leads_withTwo {dst src : Operand} (dstNamed : ∀ q, dst = .reg q → regs q.reg)
    (srcNamed : ∀ q, src = .reg q → regs q.reg)
    {act : Width → Location → Location → State σ → Except (Stop σ) (State σ)}
    (each : ∀ w one two, one.Within regs → two.Within regs → Leads result refusal (act w one two t)) :
    Leads result refusal (withTwo dst src t act) := by
  rw [withTwo_eq]
  refine leads_withOne dstNamed fun w one within => ?_
  split
  next two found => exact each w one two within (within_of_location? srcNamed found)
  next => trivial

/-- An operation changes registers that it names outright, and flags that it is said to write. -/
theorem frame_operate {operation : Operation} {operands : Slots Operand} (keeps : operation.action.Keeps mask)
    (named : ∀ q, .reg q ∈ operands.operands → regs q.reg) (frame : Frame regs mask s t) :
    Leads (Frame regs mask s) (Frame regs mask s) (operate latitude handler operation operands t) := by
  obtain shape | undefined := shape_or_undefined latitude handler operation operands
  · have dst {operand : Operand} (here : operands.first = some operand) (q : RegOperand) (same : operand = .reg q) :
        regs q.reg := named q (by simp [Slots.operands, Slots.toList, here, same])
    have src {operand : Operand} (here : operands.second = some operand) (q : RegOperand) (same : operand = .reg q) :
        regs q.reg := named q (by simp [Slots.operands, Slots.toList, here, same])
    cases shape with
    | idle action =>
      simp only [operate, action]
      exact frame
    | address action r m =>
      simp only [operate, action]
      exact leads_withOne (dst rfl) fun w location within => frame_store frame within _
    | move action a b =>
      simp only [operate, action]
      exact leads_withTwo (dst rfl) (src rfl) fun w one two within _ => frame_move frame within
    | swap action a b =>
      simp only [operate, action]
      exact leads_withTwo (dst rfl) (src rfl) fun w one two within within' => frame_swap frame within within'
    | unary action a =>
      simp only [operate, action] at keeps ⊢
      exact leads_withOne (dst rfl) fun w location within => frame_unary frame within keeps
    | binary action a b =>
      simp only [operate, action] at keeps ⊢
      exact leads_withTwo (dst rfl) (src rfl) fun w one two within _ => frame_binary frame within (keeps latitude)
    | compare action a b =>
      simp only [operate, action] at keeps ⊢
      exact leads_withTwo (dst rfl) (src rfl) fun w one two _ _ => frame_compare frame (keeps _)
    | shift action a count =>
      simp only [operate, action] at keeps ⊢
      split
      next n _ =>
        exact leads_withOne (dst rfl) fun w location within =>
          frame_unary frame within fun m value p => keeps latitude m value n p
      next => trivial
  · rw [undefined]
    trivial

end

section
variable {shared : Reg → Prop} {mask : Word} {one two : State σ} {result refusal : State σ → State σ → Prop}

theorem location?_congr (agree : Agree shared mask one two) {operand : Operand}
    (named : ∀ r, operand.Names r → shared r) (w : Width) :
    location? one.context.gp w operand = location? two.context.gp w operand := by
  cases operand with
  | mem m =>
    have same : m.address one.context.gp = m.address two.context.gp :=
      Machine.Straight.address_congr fun r names => agree.regs r (named r names)
    simp only [location?, same]
  | _ => rfl

theorem count?_congr (agree : Agree shared mask one two) {operand : Operand}
    (named : ∀ r, operand.Names r → shared r) :
    Machine.count? one.context.gp operand = Machine.count? two.context.gp operand := by
  cases operand with
  | reg q =>
    simp only [Machine.count?]
    split
    next isCl =>
      subst isCl
      simp only [RegFile.part, agree.regs .rcx (named .rcx rfl)]
    next => rfl
  | _ => rfl

/-- A register operand names its register. -/
theorem outright {operand : Operand} (named : ∀ r, operand.Names r → shared r) :
    ∀ q, operand = .reg q → shared q.reg := by
  rintro q rfl
  exact named q.reg rfl

theorem matched_withOne (agree : Agree shared mask one two) {dst : Operand} (named : ∀ r, dst.Names r → shared r)
    {act act' : Width → Location → State σ → Except (Stop σ) (State σ)}
    (each : ∀ w location, location.Within shared → Matched result refusal (act w location one) (act' w location two)) :
    Matched result refusal (withOne dst one act) (withOne dst two act') := by
  simp only [withOne_eq, location?_congr agree named]
  split
  next w _ =>
    split
    next location found => exact each w location (within_of_location? (outright named) found)
    next => exact .undefined
  next => exact .undefined

theorem matched_withTwo (agree : Agree shared mask one two) {dst src : Operand}
    (dstNamed : ∀ r, dst.Names r → shared r) (srcNamed : ∀ r, src.Names r → shared r)
    {act : Width → Location → Location → State σ → Except (Stop σ) (State σ)}
    (each : ∀ w first second, first.Within shared → second.Within shared →
      Matched result refusal (act w first second one) (act w first second two)) :
    Matched result refusal (withTwo dst src one act) (withTwo dst src two act) := by
  rw [withTwo_eq, withTwo_eq]
  refine matched_withOne agree dstNamed fun w first within => ?_
  rw [location?_congr agree srcNamed]
  split
  next second found => exact each w first second within (within_of_location? (outright srcNamed) found)
  next => exact .undefined

/-- States that are alike in what an operation reads are alike afterwards also in what it writes. -/
theorem agree_operate {operation : Operation} {operands : Slots Operand}
    (within : Flag.Within (operationEffects operation).flagsRead mask)
    (named : ∀ operand ∈ operands.operands, ∀ r, operand.Names r → shared r) (agree : Agree shared mask one two) :
    Matched (Agree shared (mask ||| (operationEffects operation).flagsWritten)) (Agree shared mask)
      (operate latitude handler operation operands one) (operate latitude handler operation operands two) := by
  have settles := operation.settles
  generalize (operationEffects operation).flagsWritten = written at settles
  -- An action that computes nothing writes no flag.
  have still {x y : Except (Stop σ) (State σ)} (none : written = 0)
      (matched : Matched (Agree shared mask) (Agree shared mask) x y) :
      Matched (Agree shared (mask ||| written)) (Agree shared mask) x y := by
    subst none
    simpa using matched
  obtain shape | undefined := shape_or_undefined latitude handler operation operands
  · have first {operand : Operand} (here : operands.first = some operand) : ∀ r, operand.Names r → shared r :=
      named operand (by simp [Slots.operands, Slots.toList, here])
    have second {operand : Operand} (here : operands.second = some operand) : ∀ r, operand.Names r → shared r :=
      named operand (by simp [Slots.operands, Slots.toList, here])
    cases shape with
    | idle action =>
      simp only [operate, action] at settles ⊢
      exact still settles (.ok agree)
    | address action r m =>
      have same : m.address one.context.gp = m.address two.context.gp :=
        Machine.Straight.address_congr fun r names => agree.regs r (second rfl r names)
      simp only [operate, action, same] at settles ⊢
      exact still settles (matched_withOne agree (first rfl) fun w location within =>
        agree_store (fun _ => id) agree within _)
    | move action a b =>
      simp only [operate, action] at settles ⊢
      exact still settles (matched_withTwo agree (first rfl) (second rfl) fun w dst src within within' =>
        agree_move agree within within')
    | swap action a b =>
      simp only [operate, action] at settles ⊢
      exact still settles (matched_withTwo agree (first rfl) (second rfl) fun w dst src within within' =>
        agree_swap agree within within')
    | unary action a =>
      simp only [operate, action] at settles ⊢
      exact matched_withOne agree (first rfl) fun w location inside =>
        agree_unary agree inside fun n a p q => settles n a p q mask within
    | binary action a b =>
      simp only [operate, action] at settles ⊢
      exact matched_withTwo agree (first rfl) (second rfl) fun w dst src inside inside' =>
        agree_binary agree inside inside' fun n a b p q => settles latitude n a b p q mask within
    | compare action a b =>
      simp only [operate, action] at settles ⊢
      exact matched_withTwo agree (first rfl) (second rfl) fun w dst src inside inside' =>
        agree_compare agree inside inside' _ _
    | shift action a count =>
      simp only [operate, action, count?_congr agree (second rfl)] at settles ⊢
      split
      next times _ =>
        exact matched_withOne agree (first rfl) fun w location inside =>
          agree_unary agree inside fun n a p q => settles latitude n a times p q mask within
      next => exact .undefined
  · rw [undefined, undefined]
    exact .undefined

end

/-! ### Bodies -/

section
variable {regs : Reg → Prop} {mask : Word} {s t : State σ}

theorem frame_execute {i : Instr} (writes : Flag.Within i.opcode.effects.flagsWritten mask)
    (named : ∀ q, .reg q ∈ i.operands.operands → regs q.reg) (frame : Frame regs mask s t) :
    Leads (Frame regs mask s) (Frame regs mask s) (execute latitude handler i t) := by
  unfold execute
  split
  next operation opcode =>
    rw [opcode] at writes
    exact frame_operate (operation.keeps.mono writes) named frame
  next => trivial

/-- Whatever becomes of it, a body changes no registers but those that it names outright, and no flags but those that it
is said to write. -/
theorem frame_run {body : List Instr} (writes : ∀ i ∈ body, Flag.Within i.opcode.effects.flagsWritten mask)
    (named : ∀ i ∈ body, ∀ q, .reg q ∈ i.operands.operands → regs q.reg) (frame : Frame regs mask s t) :
    Leads (Frame regs mask s) (Frame regs mask s) (run latitude handler body t) := by
  induction body generalizing t with
  | nil => exact frame
  | cons i rest ih =>
    obtain ⟨writesHere, writesLater⟩ := List.forall_mem_cons.mp writes
    obtain ⟨namedHere, namedLater⟩ := List.forall_mem_cons.mp named
    exact (frame_execute writesHere namedHere frame).bind fun _ frame => ih writesLater namedLater frame

end

theorem agree_execute {shared : Reg → Prop} {mask : Word} {one two : State σ} {i : Instr}
    (reads : Flag.Within i.opcode.effects.flagsRead mask)
    (named : ∀ operand ∈ i.operands.operands, ∀ r, operand.Names r → shared r) (agree : Agree shared mask one two) :
    Matched (Agree shared (mask ||| i.opcode.effects.flagsWritten)) (Agree shared mask)
      (execute latitude handler i one) (execute latitude handler i two) := by
  unfold execute
  split
  next operation opcode =>
    rw [opcode] at reads ⊢
    exact agree_operate reads named agree
  next => exact .undefined

/-- How two executions of a body go alike: both to the end, or both as far as the same instruction, where they stop in the
same way. What is alike grows by the flags that were written. -/
inductive Together (latitude : Latitude) (handler : Handler σ) (shared : Reg → Prop) (mask : Word) (body : List Instr)
    (one two : State σ) : Prop where
  | ends {t u : State σ} (first : run latitude handler body one = .ok t) (second : run latitude handler body two = .ok u)
      (agree : Agree shared (mask ||| (Footprint.ofBody body).flagsOut) t u)
  | stops {before after : List Instr} {i : Instr} {t u : State σ} (split : body = before ++ i :: after)
      (first : run latitude handler before one = .ok t) (second : run latitude handler before two = .ok u)
      (agree : Agree shared (mask ||| (Footprint.ofBody before).flagsOut) t u)
      (stopped : Matched (fun _ _ => False) (Agree shared (mask ||| (Footprint.ofBody before).flagsOut))
        (run latitude handler body one) (run latitude handler body two))

/-- If one of two executions that go alike comes to its end, so does the other. -/
theorem Together.ended {shared : Reg → Prop} {mask : Word} {body : List Instr} {one two t : State σ}
    (together : Together latitude handler shared mask body one two) (first : run latitude handler body one = .ok t) :
    ∃ u, run latitude handler body two = .ok u ∧ Agree shared (mask ||| (Footprint.ofBody body).flagsOut) t u := by
  cases together with
  | ends same second agree =>
    cases first.symm.trans same
    exact ⟨_, second, agree⟩
  | stops _ _ _ _ stopped =>
    rw [first] at stopped
    generalize run latitude handler body two = other at stopped
    cases stopped with
    | ok impossible => exact impossible.elim

/-- Executions that begin alike in what a body reads go alike. -/
theorem agree_run {shared : Reg → Prop} {mask : Word} {one two : State σ} {body : List Instr}
    (reads : ∀ i ∈ body, Flag.Within i.opcode.effects.flagsRead mask)
    (named : ∀ i ∈ body, ∀ operand ∈ i.operands.operands, ∀ r, operand.Names r → shared r)
    (agree : Agree shared mask one two) : Together latitude handler shared mask body one two := by
  induction body generalizing one two mask with
  | nil => exact .ends rfl rfl (by simpa [Footprint.flagsOut_nil] using agree)
  | cons i rest ih =>
    obtain ⟨readsHere, readsLater⟩ := List.forall_mem_cons.mp reads
    obtain ⟨namedHere, namedLater⟩ := List.forall_mem_cons.mp named
    have step : Matched (Agree shared (mask ||| i.opcode.effects.flagsWritten)) (Agree shared mask)
        (execute latitude handler i one) (execute latitude handler i two) := agree_execute readsHere namedHere agree
    have start : Agree shared (mask ||| (Footprint.ofBody []).flagsOut) one two := by
      simpa [Footprint.flagsOut_nil] using agree
    generalize here : execute latitude handler i one = x at step
    generalize there : execute latitude handler i two = y at step
    cases step with
    | ok agree =>
      have through (list : List Instr) : run latitude handler (i :: list) one = run latitude handler list _ :=
        congrArg (· >>= run latitude handler list) here
      have through' (list : List Instr) : run latitude handler (i :: list) two = run latitude handler list _ :=
        congrArg (· >>= run latitude handler list) there
      have grown (list : List Instr) : mask ||| (Footprint.ofBody (i :: list)).flagsOut =
          mask ||| i.opcode.effects.flagsWritten ||| (Footprint.ofBody list).flagsOut := by
        rw [Footprint.flagsOut_cons, BitVec.or_assoc]
      have readsStill : ∀ j ∈ rest, Flag.Within j.opcode.effects.flagsRead (mask ||| i.opcode.effects.flagsWritten) :=
        fun j member => (readsLater j member).trans (Flag.within_or_left _ _)
      cases ih readsStill namedLater agree with
      | ends first second agree =>
        exact .ends ((through rest).trans first) ((through' rest).trans second) (by rw [grown]; exact agree)
      | @stops before after j t u split first second agree stopped =>
        refine .stops (congrArg (i :: ·) split) ((through before).trans first) ((through' before).trans second)
          (by rw [grown]; exact agree) ?_
        rw [grown, through, through']
        exact stopped
    | refused related address fault =>
      refine .stops (List.nil_append _).symm rfl rfl start ?_
      simp only [run, here, there]
      exact .refused (by simpa [Footprint.flagsOut_nil] using related) address fault
    | undefined =>
      refine .stops (List.nil_append _).symm rfl rfl start ?_
      simp only [run, here, there]
      exact .undefined

end Host.Direct

/-! ### The usage of a body -/

namespace Footprint

theorem mem_modified {body : List Host.Instr} {i : Host.Instr} {q : Host.RegOperand} (member : i ∈ body)
    (operand : .reg q ∈ i.operands.operands) : q.reg ∈ (ofBody body).modified := by
  have split := ofBody_iff (q.reg ∈ ·.modified) (fun _ _ => RegSet.mem_union) body
  exact split.mpr (.inr ⟨i, member, .inr ⟨.reg q, operand, RegSet.mem_singleton.mpr rfl⟩⟩)

theorem reads_within {body : List Host.Instr} {i : Host.Instr} (member : i ∈ body) :
    Flag.Within i.opcode.effects.flagsRead (ofBody body).flagsIn :=
  fun _ inside => bit_flagsIn.mpr ⟨i, member, inside⟩

theorem writes_within {body : List Host.Instr} {i : Host.Instr} (member : i ∈ body) :
    Flag.Within i.opcode.effects.flagsWritten (ofBody body).flagsOut :=
  fun _ inside => bit_flagsOut.mpr ⟨i, member, inside⟩

end Footprint

namespace Guest

variable {σ : Type}

/-- An access with how it was answered: whether it was refused, and the bytes that a read gave. -/
structure Answer where
  event : Guest.Event
  bytes : List Byte
  deriving DecidableEq, Repr

/-- The handler with a log of all that goes through it, latest access last. -/
def Handler.traced (handler : Handler σ) : Handler (σ × List Answer) where
  read state address n :=
    let reply := handler.read state.1 address n
    let answer : Answer := ⟨⟨.read address n, refusal? reply.result⟩, reply.buffer.toList⟩
    ⟨(reply.state, state.2 ++ [answer]), reply.result, reply.buffer⟩
  write state address bytes :=
    let (memory, result) := handler.write state.1 address bytes
    ((memory, state.2 ++ [⟨⟨.write address bytes, refusal? result⟩, []⟩]), result)

end Guest

namespace Usage

open Guest.Interpreter (Agree Frame Leads State)
open Host.Direct (Together run)

variable {σ : Type}

/-- The usage of a body says what its execution reads and changes, whatever the handler does. Executing the body is
executing the program that it was selected for. No registers but modified ones change, and no flags but those that are
said to be written, whether the body is executed to its end or an access is refused. From states that are alike in the
registers and flags that are read, and in memory, two executions make the same accesses and receive and send the same
bytes, and they end alike in these registers and flags and in the flags that were written. If the body writes flags and
none have to be taken from the context, those at its end do not depend on those at its beginning. -/
theorem footprint_sound {body : List Host.Instr} {usage : Usage} (used : ofBody body = .ok usage)
    (latitude : Latitude) (handler : Guest.Handler σ) :
    (∀ program, Queue.selectAll program = (body, .ok ()) → ∀ s,
      run latitude handler.traced body s = Guest.Interpreter.run latitude handler.traced program s) ∧
    (∀ s, Leads (Frame (· ∈ usage.modified) usage.flagsOut s) (Frame (· ∈ usage.modified) usage.flagsOut s)
      (run latitude handler.traced body s)) ∧
    (∀ one two, Agree (· ∈ usage.read) usage.flagsIn one two →
      Together latitude handler.traced (· ∈ usage.read) usage.flagsIn body one two) ∧
    (Lowering.seedsFlags usage = false → usage.flagsOut ≠ 0 → ∀ one two : State (σ × List Guest.Answer),
      (∀ r ∈ usage.read, one.context.gp.get r = two.context.gp.get r) → one.memory = two.memory →
      ∀ t, run latitude handler.traced body one = .ok t →
        ∃ u, run latitude handler.traced body two = .ok u ∧ u.status = t.status) := by
  obtain ⟨footprint, _⟩ := base?_of_ofBody used
  have writes {i : Host.Instr} (member : i ∈ body) : Flag.Within i.opcode.effects.flagsWritten usage.flagsOut := by
    rw [footprint]
    exact Footprint.writes_within member
  have modified {i : Host.Instr} (member : i ∈ body) (q : Host.RegOperand) (operand : .reg q ∈ i.operands.operands) :
      q.reg ∈ usage.modified := by
    rw [footprint]
    exact Footprint.mem_modified member operand
  have together {mask : Word} (covers : Flag.Within usage.flagsIn mask) {one two : State (σ × List Guest.Answer)}
      (agree : Agree (· ∈ usage.read) mask one two) :
      Together latitude handler.traced (· ∈ usage.read) mask body one two := by
    rw [footprint] at covers
    refine Host.Direct.agree_run (fun i member => ?_) (fun i member operand present r names => ?_) agree
    · exact (Footprint.reads_within member).trans covers
    · rw [footprint, Footprint.mem_read]
      exact ⟨i, member, operand, present, names⟩
  refine ⟨fun program selected => Host.Direct.run_eq_of_selectAll selected latitude handler.traced, fun s => ?_,
    fun one two => together fun _ => id, fun unseeded writesSome one two regs memory t ended => ?_⟩
  · exact Host.Direct.frame_run (fun i => writes) (fun i => modified) (.refl s)
  · have agree : Agree (· ∈ usage.read) (Machine.seeded usage) one two := by
      refine ⟨regs, ?_, memory⟩
      rw [Machine.seeded, if_neg (by simp [unseeded])]
      exact Status.agree_zero _ _
    obtain ⟨u, ended', agree⟩ := (together (Machine.flagsIn_within_seeded usage) agree).ended ended
    refine ⟨u, ended', (agree.status.eq ?_).symm⟩
    rw [← footprint]
    exact Machine.status_within_seeded writesSome

/-- Counts in a register that the sample's addition does not name. -/
def sampleCount : Guest.Instruction where
  mnemonic := .op .inc
  operands := { first := some (.reg (.general .rcx) .s16 false) }

/-- The addition to a word in memory, and the count. -/
def sampleTally : List Guest.Instruction := [sampleAdd, sampleCount]

/-- A state for the two, with flags and a register that they do not read. -/
def sampleStart (flags rdx : Word) : State (Guest.FlatMemory × List Guest.Answer) :=
  ⟨{ sampleContext 0x1000 with flags, gp := (sampleContext 0x1000).gp.set .rdx rdx }, .zeros 0x1000 16, []⟩

/-- The addition writes every flag, and the count all but the carry. With different flags and another word in `rdx` at
first, they leave the same flags, make the same accesses, and do not touch `rdx`. -/
theorem footprint_sound_sample : ∃ usage t u,
    ofBody (Queue.selectAll sampleTally).1 = .ok usage ∧ Lowering.seedsFlags usage = false ∧ usage.flagsOut ≠ 0 ∧
    run .usual Guest.FlatMemory.handler.traced (Queue.selectAll sampleTally).1 (sampleStart 0x8d5 1) = .ok t ∧
    run .usual Guest.FlatMemory.handler.traced (Queue.selectAll sampleTally).1 (sampleStart 0 2) = .ok u ∧
    u.status = t.status ∧ t.memory = u.memory ∧ t.context.gp.get .rdx = 1 ∧ u.context.gp.get .rdx = 2 := by
  have found : (Footprint.ofBody (Queue.selectAll sampleTally).1).base? = some 0xc := by decide +kernel
  have used := ofBody_of_base? found
  obtain ⟨_, frame, together, independent⟩ := footprint_sound used .usual Guest.FlatMemory.handler
  obtain ⟨t, ended⟩ : ∃ t, run .usual Guest.FlatMemory.handler.traced (Queue.selectAll sampleTally).1
      (sampleStart 0x8d5 1) = .ok t := exists_of_isOk (by decide +kernel)
  have unseeded : Lowering.seedsFlags { Footprint.ofBody (Queue.selectAll sampleTally).1 with base := 0xc } = false := by
    decide +kernel
  have writes : (Footprint.ofBody (Queue.selectAll sampleTally).1).flagsOut ≠ 0 := by decide +kernel
  have regs : ∀ r ∈ (Footprint.ofBody (Queue.selectAll sampleTally).1).read,
      (sampleStart 0x8d5 1).context.gp.get r = (sampleStart 0 2).context.gp.get r := by decide +kernel
  have none : (Footprint.ofBody (Queue.selectAll sampleTally).1).flagsIn = 0 := by decide +kernel
  obtain ⟨u, ended', same⟩ := independent unseeded writes _ (sampleStart 0 2) regs rfl t ended
  obtain ⟨v, again, agree⟩ :=
    (together _ (sampleStart 0 2) ⟨regs, none ▸ Status.agree_zero _ _, rfl⟩).ended ended
  cases ended'.symm.trans again
  have first := frame (sampleStart 0x8d5 1)
  have second := frame (sampleStart 0 2)
  rw [ended] at first
  rw [ended'] at second
  exact ⟨_, t, u, used, unseeded, writes, ended, ended', same, agree.memory, first.regs .rdx (by decide +kernel),
    second.regs .rdx (by decide +kernel)⟩

end Usage

end Rehost
