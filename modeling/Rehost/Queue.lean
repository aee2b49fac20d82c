import Rehost.Host.Listing
import Rehost.Selection

/-!
# Queues of scheduled instructions

A front end appends instructions to a queue, which checks nothing. Emitting selects the host
instruction of each in turn; the first that has none ends it, with those before it emitted. The queue is
empty afterwards in either case.
-/

namespace Rehost

structure Queue where
  instructions : List Guest.Instruction := []
  deriving DecidableEq, Repr

namespace Queue

def size (queue : Queue) : Nat := queue.instructions.length

def isEmpty (queue : Queue) : Bool := queue.instructions.isEmpty

def schedule (queue : Queue) (i : Guest.Instruction) : Queue :=
  ⟨queue.instructions ++ [i]⟩

def scheduleAll (queue : Queue) (instructions : List Guest.Instruction) : Queue :=
  ⟨queue.instructions ++ instructions⟩

def clear (_ : Queue) : Queue := {}

/-- The host instructions up to the first that cannot be selected, and the error of that one. -/
def selectAll : List Guest.Instruction → List Host.Instr × Except Error Unit
  | [] => ([], .ok ())
  | i :: rest =>
    match select i with
    | .error error => ([], .error error)
    | .ok first =>
      let (selected, result) := selectAll rest
      (first :: selected, result)

/-- Appends the selected instructions to a listing. -/
def emit (queue : Queue) (listing : Host.Listing) : Queue × Host.Listing × Except Error Unit :=
  let (selected, result) := selectAll queue.instructions
  ({}, listing.append (selected.map .instr), result)

end Queue

end Rehost
