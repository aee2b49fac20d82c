import Rehost.Guest.Context
import Rehost.Guest.Memory

/-!
# Memory access from generated code

Generated code reaches the handler through two functions, one for reads and one for writes. Each is
called with the context and a size; address and value of the access stand in the context's slots. It
returns a status word, and leaves the fault of a failed access with the attached handler.
-/

namespace Rehost

/-- A handler's state for the duration of a run, with the fault of a failed access. -/
structure Attached (σ : Type) where
  state : σ
  fault : Option Guest.Fault := none

inductive Direction where
  | read | write
  deriving DecidableEq, Repr

/-- Where the functions for accesses lie. It is the same for all code of a process. -/
class Linkage where
  entryPoint : Direction → Word
  distinct : entryPoint .read ≠ entryPoint .write

/-- Two addresses, neither of which is a signed 32-bit number. -/
abbrev Linkage.standard : Linkage where
  entryPoint
    | .read => 0x1111111111111111
    | .write => 0x2222222222222222
  distinct := by decide

namespace Access

/-- The status word of an access that was served. -/
def served : BitVec 32 := 0

/-- The status word of an access that failed. -/
def failed : BitVec 32 := 1

/-- Stands in the context's handler slot while a handler is attached. -/
def attachedMark : Word := 1

/-- The function at an address. -/
def ofEntryPoint? [Linkage] (address : Word) : Option Direction :=
  [Direction.read, Direction.write].find? (Linkage.entryPoint · = address)

variable {σ : Type}

/-- A read of `size` bytes: the value slot receives them, zero-extended. -/
def read (handler : Guest.Handler σ) (size : Nat) (context : Guest.Context) (attached : Attached σ) :
    BitVec 32 × Guest.Context × Attached σ :=
  let reply := handler.read attached.state context.accessAddress size
  match reply.result with
  | .ok () =>
    let value := BitVec.ofNat 64 (ofBytes reply.buffer.toList)
    (served, { context with accessValue := value }, { attached with state := reply.state })
  | .error refusal => (failed, context, ⟨reply.state, some refusal.toFault⟩)

/-- A write of the low `size` bytes of the value slot. -/
def write (handler : Guest.Handler σ) (size : Nat) (context : Guest.Context) (attached : Attached σ) :
    BitVec 32 × Guest.Context × Attached σ :=
  let bytes := toBytes context.accessValue size
  match handler.write attached.state context.accessAddress bytes with
  | (state, .ok ()) => (served, context, { attached with state })
  | (state, .error refusal) => (failed, context, ⟨state, some refusal.toFault⟩)

/-- One call on a context. Without a handler it fails silently; a size that no access has is reported
without asking the handler. -/
def call (direction : Direction) (handler : Guest.Handler σ) (size : Nat) (context : Guest.Context)
    (attached : Attached σ) : BitVec 32 × Guest.Context × Attached σ :=
  if context.handler = 0 then (failed, context, attached)
  else if !Guest.isAccessSize size then
    (failed, context, { attached with fault := some (.unsupportedSize size) })
  else
    match direction with
    | .read => read handler size context attached
    | .write => write handler size context attached

/-- One call with a context pointer that may be null. -/
def callPointer (direction : Direction) (handler : Guest.Handler σ) (size : Nat)
    (context : Option Guest.Context) (attached : Attached σ) :
    BitVec 32 × Option Guest.Context × Attached σ :=
  match context with
  | none => (failed, none, attached)
  | some context =>
    let (status, context, attached) := call direction handler size context attached
    (status, some context, attached)

end Access

end Rehost
