import Rehost.Reg
import Rehost.Status
import Rehost.Text.Hex

/-!
# The guest context

The state that a compiled block works on: a flags word and sixteen registers, followed by slots that
generated code uses to talk to the memory handler. Generated code addresses the slots by their byte
offset in the context, so offsets are part of the format.
-/

namespace Rehost.Guest

/-- Guest state and the slots of the access in flight. The handler slot is zero unless a handler is
attached. -/
structure Context where
  flags : Word := 0
  gp : RegFile := RegFile.zero
  handler : Word := 0
  accessAddress : Word := 0
  accessValue : Word := 0
  deriving DecidableEq, Repr

namespace Context

/-! ### Layout -/

/-- A field of the context, eight bytes long. -/
inductive Slot where
  | flags
  | gp (r : Reg)
  | handler
  | accessAddress
  | accessValue
  deriving DecidableEq, Repr

/-- The offset of register `index`, in bytes. -/
def gpOffset (index : Nat) : Nat := 8 + 8 * index

/-- The bytes that follow the registers. -/
def reservedSize : Nat := 0x100

/-- The bytes of a whole context. -/
def size : Nat := gpOffset 16 + reservedSize

def Slot.offset : Slot → Nat
  | flags => 0
  | gp r => gpOffset r.val
  | handler => 136
  | accessAddress => 144
  | accessValue => 152

/-- Every slot, in the order of its offset. -/
def Slot.all : List Slot :=
  .flags :: Reg.all.map .gp ++ [.handler, .accessAddress, .accessValue]

/-- The slot that begins at an offset. -/
def Slot.ofOffset? (offset : Nat) : Option Slot := Slot.all.find? (·.offset = offset)

def get (context : Context) : Slot → Word
  | .flags => context.flags
  | .gp r => context.gp.get r
  | .handler => context.handler
  | .accessAddress => context.accessAddress
  | .accessValue => context.accessValue

def set (context : Context) (slot : Slot) (value : Word) : Context :=
  match slot with
  | .flags => { context with flags := value }
  | .gp r => { context with gp := context.gp.set r value }
  | .handler => { context with handler := value }
  | .accessAddress => { context with accessAddress := value }
  | .accessValue => { context with accessValue := value }

theorem Slot.ofOffset?_offset (slot : Slot) : Slot.ofOffset? slot.offset = some slot := by
  cases slot with
  | gp r => revert r; decide
  | _ => decide

@[simp] theorem get_set_self (context : Context) (slot : Slot) (value : Word) :
    (context.set slot value).get slot = value := by
  cases slot <;> simp [get, set]

theorem get_set_of_ne (context : Context) {slot other : Slot} (value : Word) (distinct : slot ≠ other) :
    (context.set slot value).get other = context.get other := by
  cases slot <;> cases other <;> simp_all [get, set, RegFile.get_set_of_ne]

/-! ### Register access by number -/

/-- An offset that no address can have, by the step of its computation that goes past 2^64. -/
inductive Overflow where
  | product | sum
  deriving DecidableEq, Repr

def Overflow.message : Overflow → String
  | product => "attempt to multiply with overflow"
  | sum => "attempt to add with overflow"

/-- The offset of a register with any number, if it is an address at all. -/
def offsetOf (index : Nat) : Except Overflow Nat :=
  if 0x1_0000_0000_0000_0000 ≤ 8 * index then .error .product
  else if 0x1_0000_0000_0000_0000 ≤ gpOffset index then .error .sum
  else .ok (gpOffset index)

/-- An access past the end of a sequence. -/
structure OutOfBounds where
  length : Nat
  index : Nat
  deriving DecidableEq, Repr

def OutOfBounds.message (error : OutOfBounds) : String :=
  s!"index out of bounds: the len is {error.length} but the index is {error.index}"

/-- The register with a number. -/
def register (index : Nat) : Except OutOfBounds Reg :=
  if h : index < 16 then .ok ⟨index, h⟩ else .error ⟨16, index⟩

/-- The low half of a register. -/
def low32 (context : Context) (r : Reg) : BitVec 32 := (context.gp.get r).setWidth 32

/-- Writes the low half of a register and clears the upper half. -/
def setLow32 (context : Context) (r : Reg) (value : BitVec 32) : Context :=
  context.set (.gp r) (value.setWidth 64)

/-- Whether any flag of a mask is set. -/
def flag (context : Context) (mask : Word) : Bool := context.flags &&& mask != 0

/-- The context in messages: flags in hexadecimal, registers in decimal. -/
def render (context : Context) : String :=
  let registers := Reg.all.map fun r => toString (context.gp.get r).toNat
  "VContext \x7b flags: " ++ Text.hex context.flags.toNat ++ ", gp: [" ++
    ", ".intercalate registers ++ "], .. \x7d"

end Context

end Rehost.Guest
