import Rehost.Guest.Memory

/-!
# Flat memory

One contiguous stretch of guest memory. An access is served if its size is supported and all its bytes
lie in the stretch, where addresses are compared without wrapping around; it changes nothing otherwise.
-/

namespace Rehost.Guest

/-- Bytes mapped from `base` upwards. -/
structure FlatMemory where
  base : Word
  bytes : List Byte
  deriving DecidableEq, Repr

namespace FlatMemory

/-- A stretch of zero bytes. -/
def zeros (base : Word) (length : Nat) : FlatMemory := ⟨base, List.replicate length 0⟩

/-- Where in the stretch `size` bytes at `address` begin, if they all lie in it. Positions are words: a
difference below zero is none, nor is a sum past 2^64. -/
def start? (memory : FlatMemory) (address : Word) (size : Nat) : Option Nat :=
  if address < memory.base then none
  else
    let start := (address - memory.base).toNat
    if 0x1_0000_0000_0000_0000 ≤ start + size then none
    else if start + size ≤ memory.bytes.length then some start
    else none

/-- The `n` bytes from a position on. -/
def slice (memory : FlatMemory) (start n : Nat) : Vector Byte n :=
  Vector.ofFn fun i => memory.bytes.getD (start + i.val) 0

/-- The memory with bytes replaced from a position on. -/
def splice (memory : FlatMemory) (start : Nat) (bytes : List Byte) : FlatMemory :=
  { memory with
    bytes := memory.bytes.take start ++ bytes ++ memory.bytes.drop (start + bytes.length) }

/-- Where an access begins; an unsupported size is reported before an unmapped range. -/
def locate (memory : FlatMemory) (address : Word) (size : Nat) : Except Fault Nat :=
  if isAccessSize size then
    match memory.start? address size with
    | some start => .ok start
    | none => .error (.unmapped address size)
  else .error (.unsupportedSize size)

def read (memory : FlatMemory) (address : Word) (n : Nat) : Except Fault (Vector Byte n) := do
  let start ← memory.locate address n
  return memory.slice start n

def write (memory : FlatMemory) (address : Word) (bytes : List Byte) : Except Fault FlatMemory := do
  let start ← memory.locate address bytes.length
  return memory.splice start bytes

def read32 (memory : FlatMemory) (address : Word) : Option (BitVec 32) :=
  (memory.start? address 4).map fun start => BitVec.ofNat 32 (ofBytes (memory.slice start 4).toList)

def write32 (memory : FlatMemory) (address : Word) (value : BitVec 32) : Option FlatMemory :=
  (memory.start? address 4).map fun start => memory.splice start (toBytes value 4)

/-- Flat memory as a handler. -/
def handler : Handler FlatMemory where
  read memory address n :=
    match memory.read address n with
    | .ok bytes => ⟨memory, .ok (), bytes⟩
    | .error fault => ⟨memory, .error (.fault fault), Vector.replicate n 0⟩
  write memory address bytes :=
    match memory.write address bytes with
    | .ok memory => (memory, .ok ())
    | .error fault => (memory, .error (.fault fault))

end FlatMemory

end Rehost.Guest
