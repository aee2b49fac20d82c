import Rehost.Word

/-!
# Arithmetic flags

Six bits of the flags word describe the last result: carry, parity, adjust, zero, sign and overflow.
`Status` holds them apart; `Status.ofWord` and `Status.replace` move them out of and into a flags word,
of which every other bit is left alone.
-/

namespace Rehost

/-! ### Bits of the flags word -/

namespace Flag

def carry : Word := 0x1
def parity : Word := 0x4
def adjust : Word := 0x10
def zero : Word := 0x40
def sign : Word := 0x80
def direction : Word := 0x400
def overflow : Word := 0x800

/-- The six arithmetic flags together. -/
def status : Word := 0x8d5

end Flag

/-- The arithmetic flags. -/
structure Status where
  carry : Bool
  parity : Bool
  adjust : Bool
  zero : Bool
  sign : Bool
  overflow : Bool
  deriving DecidableEq, Repr

namespace Status

/-- The arithmetic flags of a flags word. -/
def ofWord (flags : Word) : Status where
  carry := flags.getLsbD 0
  parity := flags.getLsbD 2
  adjust := flags.getLsbD 4
  zero := flags.getLsbD 6
  sign := flags.getLsbD 7
  overflow := flags.getLsbD 11

/-- The mask `mask` if `bit` is set. -/
def mask (bit : Bool) (mask : Word) : Word := if bit then mask else 0

/-- The flags word with exactly these arithmetic flags set. -/
def toWord (status : Status) : Word :=
  mask status.carry Flag.carry ||| mask status.parity Flag.parity |||
    mask status.adjust Flag.adjust ||| mask status.zero Flag.zero |||
    mask status.sign Flag.sign ||| mask status.overflow Flag.overflow

/-- A flags word with its arithmetic flags replaced. -/
def replace (flags : Word) (status : Status) : Word :=
  (flags &&& ~~~Flag.status) ||| status.toWord

/-- Whether the number of set bits is even. -/
def evenParity (byte : Byte) : Bool :=
  !(byte.getLsbD 0 ^^ byte.getLsbD 1 ^^ byte.getLsbD 2 ^^ byte.getLsbD 3 ^^
    byte.getLsbD 4 ^^ byte.getLsbD 5 ^^ byte.getLsbD 6 ^^ byte.getLsbD 7)

/-- Flags of a result: zero, sign and parity come from the result itself. -/
def ofResult {n : Nat} (result : BitVec n) (carry adjust overflow : Bool) : Status where
  carry := carry
  parity := evenParity (result.setWidth 8)
  adjust := adjust
  zero := result == 0
  sign := result.msb
  overflow := overflow

@[simp] theorem ofWord_toWord (status : Status) : ofWord status.toWord = status := by
  rcases status with ⟨c, p, a, z, s, o⟩
  revert c p a z s o
  decide

end Status

end Rehost
