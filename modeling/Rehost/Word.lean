/-!
# Words, bytes and widths

A word is the content of one general-purpose register. Instructions work on the low 8, 16, 32 or all
64 bits of it, and memory holds words as bytes, least significant first.
-/

namespace Rehost

/-- The content of a register, an address, or a flags word. -/
abbrev Word := BitVec 64

/-- One byte of memory or of machine code. -/
abbrev Byte := BitVec 8

/-- How many bits of an operand an instruction works on. -/
inductive Width where
  | b8 | b16 | b32 | b64
  deriving DecidableEq, Repr

namespace Width

def bytes : Width → Nat
  | b8 => 1
  | b16 => 2
  | b32 => 4
  | b64 => 8

def bits : Width → Nat
  | b8 => 8
  | b16 => 16
  | b32 => 32
  | b64 => 64

/-- The name of a width in messages. -/
def name : Width → String
  | b8 => "B8"
  | b16 => "B16"
  | b32 => "B32"
  | b64 => "B64"

theorem bits_eq (w : Width) : w.bits = 8 * w.bytes := by cases w <;> rfl

theorem bits_le (w : Width) : w.bits ≤ 64 := by cases w <;> decide

end Width

/-! ### Bytes of a value -/

/-- The `count` low bytes of a value, least significant first. -/
def toBytes {n : Nat} (value : BitVec n) : Nat → List Byte
  | 0 => []
  | count + 1 => value.setWidth 8 :: toBytes (value >>> 8) count

/-- The number that bytes spell, least significant first. -/
def ofBytes : List Byte → Nat
  | [] => 0
  | byte :: rest => byte.toNat + 256 * ofBytes rest

@[simp] theorem length_toBytes {n : Nat} (value : BitVec n) (count : Nat) :
    (toBytes value count).length = count := by
  induction count generalizing value with
  | zero => rfl
  | succ count ih => simp [toBytes, ih]

/-! ### Parts of a word -/

/-- `old` with its low `n` bits replaced by `value`. -/
def setLow (old : Word) {n : Nat} (value : BitVec n) : Word :=
  ((old >>> n) <<< n) ||| value.setWidth 64

/-- `old` with bits 8 to 15 replaced by `value`. -/
def setHigh (old : Word) (value : Byte) : Word :=
  (old &&& ~~~0xff00#64) ||| (value.setWidth 64 <<< 8)

/-- What a register holds after a write of the given width: a 32-bit result clears the upper half,
an 8-bit or 16-bit one keeps the rest. -/
def widen (old : Word) (w : Width) (value : BitVec w.bits) : Word :=
  match w with
  | .b8 => setLow old value
  | .b16 => setLow old value
  | .b32 => value.setWidth 64
  | .b64 => value.setWidth 64

end Rehost
