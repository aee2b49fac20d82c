import Rehost.Status

/-!
# Operations on values

The twenty-two operations that guest and host instructions share, and what each does to the values of
its operands. `Operation.action` says how an operation uses its operands and carries the arithmetic;
where operands are found, and where results go, is left to whoever executes it.

The architecture leaves some flags undefined. What a processor makes of them is its `Latitude`, a
parameter of the operations concerned: any function of the operands.
-/

namespace Rehost

inductive Operation where
  | add | or | adc | sbb | and | sub | xor | cmp | test | mov | lea | not | neg | inc | dec
  | shl | shr | sar | rol | ror | xchg | nop
  deriving DecidableEq, Repr

/-- What a processor does with the flags that the architecture leaves undefined. Each is a function of
the operation and the values of its operands; counts are given before they are reduced. -/
structure Latitude where
  /-- The adjust flag after a bitwise operation. -/
  logicAdjust : Operation → (n : Nat) → BitVec n → BitVec n → Bool
  /-- The adjust flag after a shift. -/
  shiftAdjust : Operation → (n : Nat) → BitVec n → (count : Nat) → Bool
  /-- The overflow flag after a shift or a rotation by more than one bit. -/
  shiftOverflow : Operation → (n : Nat) → BitVec n → (count : Nat) → Bool
  /-- The carry flag after a logical shift by the whole operand or more. -/
  shiftCarry : Operation → (n : Nat) → BitVec n → (count : Nat) → Bool

/-- The latitude of a comparison, by whether its source is in memory. A register and memory are tested by one encoding
in whichever order they are written, and it has memory first. -/
def Latitude.comparing (latitude : Latitude) (sourceInMemory : Bool) : Latitude :=
  if sourceInMemory then
    { latitude with logicAdjust := fun operation n a b => latitude.logicAdjust operation n b a }
  else latitude

/-- How an operation uses its operands, with the function it computes. The first operand is the
destination; counts are given before they are reduced. -/
inductive Action where
  /-- Uses no operand. -/
  | idle
  /-- Sets the destination to the address of the source. -/
  | address
  /-- Sets the destination to the source. -/
  | move
  /-- Exchanges destination and source. -/
  | swap
  /-- Changes the destination. -/
  | unary (f : (n : Nat) → BitVec n → Status → BitVec n × Status)
  /-- Changes the destination by the source. -/
  | binary (f : Latitude → (n : Nat) → BitVec n → BitVec n → Status → BitVec n × Status)
  /-- Sets flags from both operands and changes neither. -/
  | compare (f : Latitude → (n : Nat) → BitVec n → BitVec n → Status)
  /-- Changes the destination by a count. -/
  | shift (f : Latitude → (n : Nat) → BitVec n → (count : Nat) → Status → BitVec n × Status)

namespace Operation

def all : List Operation :=
  [add, or, adc, sbb, and, sub, xor, cmp, test, mov, lea, not, neg, inc, dec,
   shl, shr, sar, rol, ror, xchg, nop]

def name : Operation → String
  | add => "add"
  | or => "or"
  | adc => "adc"
  | sbb => "sbb"
  | and => "and"
  | sub => "sub"
  | xor => "xor"
  | cmp => "cmp"
  | test => "test"
  | mov => "mov"
  | lea => "lea"
  | not => "not"
  | neg => "neg"
  | inc => "inc"
  | dec => "dec"
  | shl => "shl"
  | shr => "shr"
  | sar => "sar"
  | rol => "rol"
  | ror => "ror"
  | xchg => "xchg"
  | nop => "nop"

/-! ### Sums and differences -/

/-- Sum with an incoming carry. -/
def sum {n : Nat} (a b : BitVec n) (carry : Bool) : BitVec n × Status :=
  let result := a + b + (BitVec.ofBool carry).setWidth n
  (result, .ofResult result
    (decide (1 <<< n ≤ a.toNat + b.toNat + carry.toNat))
    (decide (16 ≤ a.toNat % 16 + b.toNat % 16 + carry.toNat))
    (a.msb == b.msb && result.msb != a.msb))

/-- Difference with an incoming borrow. -/
def difference {n : Nat} (a b : BitVec n) (borrow : Bool) : BitVec n × Status :=
  let result := a - b - (BitVec.ofBool borrow).setWidth n
  (result, .ofResult result
    (decide (a.toNat < b.toNat + borrow.toNat))
    (decide (a.toNat % 16 < b.toNat % 16 + borrow.toNat))
    (a.msb != b.msb && result.msb != a.msb))

/-- Flags of a bitwise result. -/
def logic {n : Nat} (result : BitVec n) (adjust : Bool) : Status := .ofResult result false adjust false

/-- A bitwise operation with its flags. -/
def bitwise (f : {n : Nat} → BitVec n → BitVec n → BitVec n) (operation : Operation)
    (latitude : Latitude) (n : Nat) (a b : BitVec n) : BitVec n × Status :=
  (f a b, logic (f a b) (latitude.logicAdjust operation n a b))

/-- A result with its flags, except that the carry flag is kept. -/
def keepCarry {n : Nat} (outcome : BitVec n × Status) (flags : Status) : BitVec n × Status :=
  (outcome.1, { outcome.2 with carry := flags.carry })

/-! ### Shifts and rotations -/

/-- A count is taken modulo 64 for 64-bit operands and modulo 32 for narrower ones. -/
def reduceCount (n count : Nat) : Nat := count % (if n = 64 then 64 else 32)

def shiftLeft (latitude : Latitude) {n : Nat} (a : BitVec n) (count : Nat) (flags : Status) :
    BitVec n × Status :=
  let k := reduceCount n count
  if k = 0 then (a, flags)
  else
    let result := a <<< k
    let carry := if k < n then a.getLsbD (n - k) else latitude.shiftCarry shl n a count
    (result, .ofResult result carry (latitude.shiftAdjust shl n a count)
      (if k = 1 then result.msb ^^ carry else latitude.shiftOverflow shl n a count))

def shiftRight (latitude : Latitude) {n : Nat} (a : BitVec n) (count : Nat) (flags : Status) :
    BitVec n × Status :=
  let k := reduceCount n count
  if k = 0 then (a, flags)
  else
    let result := a >>> k
    let carry := if k < n then a.getLsbD (k - 1) else latitude.shiftCarry shr n a count
    (result, .ofResult result carry (latitude.shiftAdjust shr n a count)
      (if k = 1 then a.msb else latitude.shiftOverflow shr n a count))

def shiftArithmetic (latitude : Latitude) {n : Nat} (a : BitVec n) (count : Nat) (flags : Status) :
    BitVec n × Status :=
  let k := reduceCount n count
  if k = 0 then (a, flags)
  else
    let result := a.sshiftRight k
    (result, .ofResult result ((a.sshiftRight (k - 1)).getLsbD 0) (latitude.shiftAdjust sar n a count)
      (if k = 1 then false else latitude.shiftOverflow sar n a count))

def rotateLeft (latitude : Latitude) {n : Nat} (a : BitVec n) (count : Nat) (flags : Status) :
    BitVec n × Status :=
  let k := reduceCount n count
  if k = 0 then (a, flags)
  else
    let result := a.rotateLeft k
    let carry := result.getLsbD 0
    (result, { flags with
      carry := carry
      overflow := if k = 1 then result.msb ^^ carry else latitude.shiftOverflow rol n a count })

def rotateRight (latitude : Latitude) {n : Nat} (a : BitVec n) (count : Nat) (flags : Status) :
    BitVec n × Status :=
  let k := reduceCount n count
  if k = 0 then (a, flags)
  else
    let result := a.rotateRight k
    (result, { flags with
      carry := result.msb
      overflow :=
        if k = 1 then result.msb ^^ result.getMsbD 1 else latitude.shiftOverflow ror n a count })

/-! ### The action of each operation -/

def action : Operation → Action
  | add => .binary fun _ _ a b _ => sum a b false
  | adc => .binary fun _ _ a b flags => sum a b flags.carry
  | sub => .binary fun _ _ a b _ => difference a b false
  | sbb => .binary fun _ _ a b flags => difference a b flags.carry
  | and => .binary fun latitude n a b _ => bitwise (· &&& ·) and latitude n a b
  | or => .binary fun latitude n a b _ => bitwise (· ||| ·) or latitude n a b
  | xor => .binary fun latitude n a b _ => bitwise (· ^^^ ·) xor latitude n a b
  | cmp => .compare fun _ _ a b => (difference a b false).2
  | test => .compare fun latitude n a b => (bitwise (· &&& ·) test latitude n a b).2
  | mov => .move
  | lea => .address
  | not => .unary fun _ a flags => (~~~a, flags)
  | neg => .unary fun _ a _ => difference 0 a false
  | inc => .unary fun _ a flags => keepCarry (sum a 1 false) flags
  | dec => .unary fun _ a flags => keepCarry (difference a 1 false) flags
  | shl => .shift fun latitude _ a count flags => shiftLeft latitude a count flags
  | shr => .shift fun latitude _ a count flags => shiftRight latitude a count flags
  | sar => .shift fun latitude _ a count flags => shiftArithmetic latitude a count flags
  | rol => .shift fun latitude _ a count flags => rotateLeft latitude a count flags
  | ror => .shift fun latitude _ a count flags => rotateRight latitude a count flags
  | xchg => .swap
  | nop => .idle

end Operation

open Operation in
/-- A common choice: the adjust flag is clear after logic and shifts, and overflow and carry follow the
rule for a count of one. -/
def Latitude.usual : Latitude where
  logicAdjust _ _ _ _ := false
  shiftAdjust _ _ _ _ := false
  shiftOverflow operation n a count :=
    let k := reduceCount n count
    match operation with
    | .shl => (a <<< k).msb ^^ (decide (k ≤ n) && a.getLsbD (n - k))
    | .shr => a.msb
    | .rol => (a.rotateLeft k).msb ^^ (a.rotateLeft k).getLsbD 0
    | .ror => (a.rotateRight k).msb ^^ (a.rotateRight k).getMsbD 1
    | _ => false
  shiftCarry operation n a count :=
    let k := reduceCount n count
    match operation with
    | .shl => decide (k ≤ n) && a.getLsbD (n - k)
    | .shr => a.getLsbD (k - 1)
    | _ => false

end Rehost
