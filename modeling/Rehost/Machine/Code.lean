import Rehost.Host.Encoding.Decoder
import Rehost.Machine.Run

/-!
# Running machine code

The processor reads an instruction from the bytes at its position, executes it, and goes on after its last byte or
where it leads. A position is an offset into the code, and the label of a branch that was read is the offset it leads
to. Runs are given a number of instructions; compiled code executes no byte twice, so its length is enough.
-/

namespace Rehost.Machine

open Host (Instr decode? decodeBranch?)

/-- The most bytes that an instruction can have. -/
def longest : Nat := 15

/-- The offset that is a displacement away from another, if it is not before the code. -/
def displaced? (offset : Nat) (displacement : BitVec 32) : Option Nat :=
  let target := (offset : Int) + displacement.toInt
  if 0 ≤ target then some target.toNat else none

/-- The instruction at an offset, and the offset after it. -/
def fetch? (code : List Byte) (offset : Nat) : Option (Instr × Nat) :=
  let window := (code.drop offset).take longest
  let stop (rest : List Byte) : Nat := offset + (window.length - rest.length)
  match decode? window with
  | some (i, rest) => some (i, stop rest)
  | none => do
    let (branch, rest) ← decodeBranch? window
    let target ← displaced? (stop rest) branch.displacement
    return ({ lead := branch.lead, opcode := branch.opcode, operands := { first := some (.label target) } }, stop rest)

variable {σ : Type}

/-- A position in machine code, with the machine's state and the world outside it. -/
structure Cursor (σ : Type) where
  offset : Nat
  world : σ
  state : State

/-- At most `fuel` instructions of machine code. -/
def runCode (env : Env σ) (code : List Byte) : (fuel : Nat) → Cursor σ → Outcome σ
  | 0, _ => .unfinished
  | fuel + 1, cursor =>
    match fetch? code cursor.offset with
    | none => .stuck
    | some (i, next) =>
      match step env i cursor.world cursor.state with
      | none => .stuck
      | some (world, state, .onward) => runCode env code fuel ⟨next, world, state⟩
      | some (world, state, .goto target) => runCode env code fuel ⟨target, world, state⟩
      | some (world, state, .leave) => .returned world state

end Rehost.Machine
