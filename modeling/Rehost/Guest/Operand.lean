import Rehost.Reg

/-!
# Guest operands

What a front end can name in an instruction: registers of three classes, immediates and memory
operands, each with a size. More can be written down than can be compiled: vector registers, sizes up
to 512 bits, a scale of 16 and segment overrides are refused later, by selection.
-/

namespace Rehost.Guest

/-- The size of an operand or an address. -/
inductive Size where
  | s8 | s16 | s32 | s64 | s128 | s256 | s512
  /-- The size of an address. -/
  | auto
  deriving DecidableEq, Repr

namespace Size

/-- The size that `auto` stands for; every other size is itself. -/
def resolve : Size → Size
  | auto => s64
  | size => size

def bits : Size → Nat
  | s8 => 8
  | s16 => 16
  | s32 => 32
  | s64 => 64
  | s128 => 128
  | s256 => 256
  | s512 => 512
  | auto => 64

def bytes (size : Size) : Nat := size.bits / 8

/-- The width of a size that general-purpose registers can have. -/
def width? (size : Size) : Option Width :=
  match size.resolve with
  | s8 => some .b8
  | s16 => some .b16
  | s32 => some .b32
  | s64 => some .b64
  | _ => none

@[simp] theorem bits_resolve (size : Size) : size.resolve.bits = size.bits := by
  cases size <;> rfl

end Size

inductive RegisterClass where
  | general | floating | vector
  deriving DecidableEq, Repr

namespace RegisterClass

/-- How many registers a class has. -/
def count : RegisterClass → Nat
  | general => 16
  | floating => 16
  | vector => 32

/-- The name of a class in messages. -/
def name : RegisterClass → String
  | general => "Gp"
  | floating => "St"
  | vector => "Vector"

end RegisterClass

/-- A register of a class, by its index there. -/
inductive Register where
  | general (r : Reg)
  | floating (index : Fin 16)
  | vector (index : Fin 32)
  deriving DecidableEq, Repr

namespace Register

def cls : Register → RegisterClass
  | general _ => .general
  | floating _ => .floating
  | vector _ => .vector

def index : Register → Nat
  | general r => r.val
  | floating i => i.val
  | vector i => i.val

def isGeneral : Register → Bool
  | general _ => true
  | _ => false

/-- The register of a class with the given index, if the class has so many. -/
def ofIndex? : RegisterClass → Nat → Option Register
  | .general, i => if h : i < 16 then some (general ⟨i, h⟩) else none
  | .floating, i => if h : i < 16 then some (floating ⟨i, h⟩) else none
  | .vector, i => if h : i < 32 then some (vector ⟨i, h⟩) else none

/-- The complaint about a general-purpose register that does not exist. -/
def outOfRange : String := "general-purpose register index out of range"

theorem ofIndex?_isSome (cls : RegisterClass) (i : Nat) :
    (ofIndex? cls i).isSome ↔ i < cls.count := by
  cases cls <;> simp only [ofIndex?, RegisterClass.count] <;> split <;> simp_all

end Register

inductive Segment where
  | cs | ss | ds | es | fs | gs
  deriving DecidableEq, Repr

/-- The factor on an index register. -/
inductive Scale where
  | x1 | x2 | x4 | x8 | x16
  deriving DecidableEq, Repr

def Scale.factor : Scale → Nat
  | x1 => 1
  | x2 => 2
  | x4 => 4
  | x8 => 8
  | x16 => 16

/-- `segment:[base + index * scale + displacement]`. -/
structure Mem where
  base : Option Register := none
  index : Option Register := none
  scale : Scale := .x1
  displacement : BitVec 32 := 0
  segment : Option Segment := none
  addressSize : Size := .auto
  deriving DecidableEq, Repr

/-- An operand. A register operand is `high` if it means bits 8 to 15 of its register. -/
inductive Operand where
  | reg (register : Register) (size : Size) (high : Bool)
  | imm (value : Word) (size : Size)
  | mem (mem : Mem) (size : Size)
  deriving DecidableEq, Repr

def Operand.size : Operand → Size
  | reg _ size _ => size
  | imm _ size => size
  | mem _ size => size

def Operand.isMem : Operand → Bool
  | mem _ _ => true
  | _ => false

end Rehost.Guest
