import Rehost.Machine.Run

/-!
# Passing through code

`trace` lists the instructions that a run executes. A `Passage` is the way through a piece of code from
its first node: to its end, or to a branch out of it. Passages are put together piece by piece
(`Passage.append`), and a run of the program that holds the code follows them (`reaches_of_passage`,
`reaches_of_jump`).
-/

namespace Rehost.Machine

open Host (Instr Node Label)

variable {σ : Type}

/-- An instruction that was executed, with the state before and after. -/
structure Executed where
  instr : Instr
  before : State
  after : State

/-- The instruction that the next step executes, if it executes one. -/
def executed? (env : Env σ) (config : Config σ) : Option Executed :=
  match config.rest with
  | .instr i :: _ =>
    (step env i config.world config.state).map fun (_, after, _) => ⟨i, config.state, after⟩
  | _ => none

/-- The instructions that at most `fuel` steps execute. -/
def trace (env : Env σ) (program : List Node) : (fuel : Nat) → Config σ → List Executed
  | 0, _ => []
  | fuel + 1, config =>
    (executed? env config).toList ++
      match advance env program config with
      | .going config => trace env program fuel config
      | .done _ => []

/-! ### Passages -/

/-- The way through code, with the instructions executed on it, to the end of the code or to a label. -/
inductive Passage (env : Env σ) :
    List Node → σ → State → List Executed → σ → State → Option Label → Prop where
  | nil {world : σ} {s : State} : Passage env [] world s [] world s none
  | label {l : Label} {code : List Node} {world world' : σ} {s s' : State} {way : List Executed}
      {out : Option Label} (rest : Passage env code world s way world' s' out) :
      Passage env (.label l :: code) world s way world' s' out
  | onward {i : Instr} {code : List Node} {world world' world'' : σ} {s s' s'' : State}
      {way : List Executed} {out : Option Label} (first : step env i world s = some (world', s', .onward))
      (rest : Passage env code world' s' way world'' s'' out) :
      Passage env (.instr i :: code) world s (⟨i, s, s'⟩ :: way) world'' s'' out
  | jump {i : Instr} {code : List Node} {world world' : σ} {s s' : State} {l : Label}
      (first : step env i world s = some (world', s', .goto l)) :
      Passage env (.instr i :: code) world s [⟨i, s, s'⟩] world' s' (some l)

namespace Passage

variable {env : Env σ} {one two : List Node} {world world' world'' : σ} {s s' s'' : State}
  {first second : List Executed} {out : Option Label} {l : Label}

theorem append (before : Passage env one world s first world' s' none)
    (after : Passage env two world' s' second world'' s'' out) :
    Passage env (one ++ two) world s (first ++ second) world'' s'' out := by
  generalize none : Option.none = ended at before
  induction before with
  | nil => exact after
  | label _ ih => exact .label (ih after none)
  | onward step _ ih => exact .onward step (ih after none)
  | jump _ => cases none

theorem append_jump (before : Passage env one world s first world' s' (some l)) :
    Passage env (one ++ two) world s first world' s' (some l) := by
  generalize found : some l = out at before
  induction before with
  | nil => cases found
  | label _ ih => exact .label (ih found)
  | onward step _ ih => exact .onward step (ih found)
  | jump step =>
    cases found
    exact .jump step

end Passage

/-! ### Runs -/

/-- A run gets from one configuration to another in a number of steps. -/
structure Reaches (env : Env σ) (program : List Node) (steps : Nat) (start : Config σ)
    (way : List Executed) (stop : Config σ) : Prop where
  run : ∀ fuel, run env program (steps + fuel) start = run env program fuel stop
  trace : ∀ fuel, trace env program (steps + fuel) start = way ++ trace env program fuel stop

namespace Reaches

variable {env : Env σ} {program : List Node} {m n : Nat} {a b c : Config σ} {first second : List Executed}

theorem refl : Reaches env program 0 a [] a := by
  constructor <;> intro fuel <;> simp

theorem trans (one : Reaches env program m a first b) (two : Reaches env program n b second c) :
    Reaches env program (m + n) a (first ++ second) c := by
  constructor
  · intro fuel
    rw [Nat.add_assoc, one.run, two.run]
  · intro fuel
    rw [Nat.add_assoc, one.trace, two.trace, List.append_assoc]

theorem ofStep {next : Config σ} {way : List Executed} (done : advance env program a = .going next)
    (executed : (executed? env a).toList = way) : Reaches env program 1 a way next := by
  constructor
  · intro fuel
    rw [Nat.add_comm, Machine.run, done]
  · intro fuel
    rw [Nat.add_comm, Machine.trace, done, executed]

variable {i : Instr} {world world' : σ} {s s' : State}

theorem label (l : Label) (rest : List Node) (world : σ) (s : State) :
    Reaches env program 1 ⟨.label l :: rest, world, s⟩ [] ⟨rest, world, s⟩ := .ofStep rfl rfl

theorem onward (done : step env i world s = some (world', s', .onward)) (rest : List Node) :
    Reaches env program 1 ⟨.instr i :: rest, world, s⟩ [⟨i, s, s'⟩] ⟨rest, world', s'⟩ := by
  apply ofStep
  · simp only [advance, done]
  · simp [executed?, done]

theorem jump {l : Label} {target : List Node} (done : step env i world s = some (world', s', .goto l))
    (found : after? l program = some target) (rest : List Node) :
    Reaches env program 1 ⟨.instr i :: rest, world, s⟩ [⟨i, s, s'⟩] ⟨target, world', s'⟩ := by
  apply ofStep
  · simp only [advance, done, found]
  · simp [executed?, done]

end Reaches

section
variable {env : Env σ} {program code : List Node} {world world' : σ} {s s' : State} {way : List Executed}

/-- A run follows a passage to the end of the code. -/
theorem reaches_of_passage (program : List Node) (passage : Passage env code world s way world' s' none)
    (rest : List Node) :
    Reaches env program code.length ⟨code ++ rest, world, s⟩ way ⟨rest, world', s'⟩ := by
  generalize none : Option.none = ended at passage
  induction passage with
  | nil => exact .refl
  | label _ ih =>
    rw [List.length_cons, Nat.add_comm]
    exact (Reaches.label ..).trans (ih none)
  | onward step _ ih =>
    rw [List.length_cons, Nat.add_comm]
    exact (Reaches.onward step _).trans (ih none)
  | jump _ => cases none

/-- A run follows a passage that leaves the code by a branch. -/
theorem reaches_of_jump {l : Label} {target : List Node} (found : after? l program = some target)
    (passage : Passage env code world s way world' s' (some l)) (rest : List Node) :
    ∃ steps, steps ≤ code.length ∧
      Reaches env program steps ⟨code ++ rest, world, s⟩ way ⟨target, world', s'⟩ := by
  generalize leaves : some l = out at passage
  induction passage with
  | nil => cases leaves
  | label _ ih =>
    obtain ⟨steps, bound, passed⟩ := ih leaves
    exact ⟨1 + steps, by simp; omega, (Reaches.label ..).trans passed⟩
  | onward step _ ih =>
    obtain ⟨steps, bound, passed⟩ := ih leaves
    exact ⟨1 + steps, by simp; omega, (Reaches.onward step _).trans passed⟩
  | jump step =>
    cases leaves
    exact ⟨1, by simp, Reaches.jump step found _⟩

end

/-! ### Labels -/

/-- A branch goes behind a label that is not defined again. -/
theorem after?_append_label {l : Label} {before rest : List Node} (last : ∀ node ∈ rest, node ≠ .label l) :
    after? l (before ++ .label l :: rest) = some rest := by
  have absent : after? l rest = none := by
    induction rest with
    | nil => rfl
    | cons node rest ih =>
      have here := last node (List.mem_cons_self ..)
      have there := ih fun node member => last node (List.mem_cons_of_mem _ member)
      simp [after?, there, here]
  induction before with
  | nil => simp [after?, absent]
  | cons node before ih => simp [after?, ih]

end Rehost.Machine
