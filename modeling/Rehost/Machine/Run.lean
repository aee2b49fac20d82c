import Rehost.Machine.Step

/-!
# Running a listing

A configuration holds the rest of the listing, the machine's state and the world outside it. A branch
goes on after the last definition of its label. Runs are given a number of steps; the listings that
lowering makes execute no node twice, so their length is enough.
-/

namespace Rehost.Machine

open Host (Node)

variable {σ : Type}

structure Config (σ : Type) where
  rest : List Node
  world : σ
  state : State

/-- What follows the last definition of a label. -/
def after? (l : Host.Label) : List Node → Option (List Node)
  | [] => none
  | node :: rest =>
    match after? l rest with
    | some found => some found
    | none => if node = .label l then some rest else none

/-- The end of a run. -/
inductive Outcome (σ : Type) where
  | returned (world : σ) (state : State)
  | stuck
  | unfinished

/-- The configuration after one node, or the end of the run. -/
inductive Progress (σ : Type) where
  | going (config : Config σ)
  | done (outcome : Outcome σ)

/-- Executes the first node of the rest of a program. -/
def advance (env : Env σ) (program : List Node) (config : Config σ) : Progress σ :=
  match config.rest with
  | [] => .done .stuck
  | .label _ :: rest => .going { config with rest }
  | .instr i :: rest =>
    match step env i config.world config.state with
    | none => .done .stuck
    | some (world, state, .onward) => .going ⟨rest, world, state⟩
    | some (world, state, .goto l) =>
      match after? l program with
      | none => .done .stuck
      | some rest => .going ⟨rest, world, state⟩
    | some (world, state, .leave) => .done (.returned world state)

/-- At most `fuel` steps. -/
def run (env : Env σ) (program : List Node) : (fuel : Nat) → Config σ → Outcome σ
  | 0, _ => .unfinished
  | fuel + 1, config =>
    match advance env program config with
    | .done outcome => outcome
    | .going config => run env program fuel config

end Rehost.Machine
