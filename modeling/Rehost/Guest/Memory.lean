import Rehost.Word
import Rehost.Text.Hex

/-!
# Guest memory

Generated code never touches guest memory itself: every access goes to a handler, which serves it or
refuses it. A handler is a pair of functions on a state of its own, so a theorem about every handler
also speaks of one that keeps a log of what it was asked.
-/

namespace Rehost.Guest

/-- The lengths of an access that a handler is ever asked to serve. -/
def accessSizes : List Nat := [1, 2, 4, 8]

def isAccessSize (size : Nat) : Bool := accessSizes.contains size

/-- Why a memory access was not served. -/
inductive Fault where
  | unmapped (address : Word) (size : Nat)
  | unsupportedSize (size : Nat)
  | handler (message : String)
  deriving DecidableEq, Repr

def Fault.message : Fault → String
  | unmapped address size => s!"unmapped {size}-byte access at {Text.hex address.toNat}"
  | unsupportedSize size => s!"unsupported access size {size}, expected 1, 2, 4 or 8"
  | handler message => "memory handler error: " ++ message

/-- How a handler fails: it reports a fault, or it breaks down, perhaps with a text. -/
inductive Refusal where
  | fault (fault : Fault)
  | breakdown (detail : Option String)
  deriving DecidableEq, Repr

/-- The fault that a refusal amounts to. -/
def Refusal.toFault : Refusal → Fault
  | fault f => f
  | breakdown detail => .handler ("memory handler panicked: " ++ detail.getD "unknown panic")

/-- The end of a read: the handler's state, whether it served the access, and the buffer as it left
it, which matters only if it did. -/
structure Reply (σ : Type) (n : Nat) where
  state : σ
  result : Except Refusal Unit
  buffer : Vector Byte n

/-- Serves reads and writes of guest memory, on a state of its own. -/
structure Handler (σ : Type) where
  read : σ → (address : Word) → (n : Nat) → Reply σ n
  write : σ → (address : Word) → (bytes : List Byte) → σ × Except Refusal Unit

end Rehost.Guest
