/-!
# Operand slots

Every instruction, guest or host, has four operand slots, each of which may be empty. An instruction
with two operands fills the first two; other shapes can be written down and are refused later.
-/

namespace Rehost

/-- Four slots of an instruction. -/
structure Slots (α : Type) where
  first : Option α := none
  second : Option α := none
  third : Option α := none
  fourth : Option α := none
  deriving DecidableEq, Repr

namespace Slots

variable {α β ε : Type}

def toList (slots : Slots α) : List (Option α) :=
  [slots.first, slots.second, slots.third, slots.fourth]

/-- The first four entries of a list; missing ones are empty. -/
def ofList (entries : List (Option α)) : Slots α where
  first := entries[0]?.join
  second := entries[1]?.join
  third := entries[2]?.join
  fourth := entries[3]?.join

/-- The operands that are present, in order. -/
def operands (slots : Slots α) : List α := slots.toList.filterMap id

/-- The number of slots before the first empty one. -/
def count (slots : Slots α) : Nat := (slots.toList.takeWhile Option.isSome).length

/-- Whether exactly the first `n` slots are filled. -/
def filled (slots : Slots α) (n : Nat) : Bool :=
  (slots.toList.take n).all Option.isSome && (slots.toList.drop n).all Option.isNone

/-- Applies `f` to one slot. -/
def mapSlot (f : α → Except ε β) : Option α → Except ε (Option β)
  | none => .ok none
  | some a => do return some (← f a)

/-- Applies `f` to the operands in order; the first refusal wins. -/
def mapM (f : α → Except ε β) (slots : Slots α) : Except ε (Slots β) := do
  let first ← mapSlot f slots.first
  let second ← mapSlot f slots.second
  let third ← mapSlot f slots.third
  let fourth ← mapSlot f slots.fourth
  return { first, second, third, fourth }

/-- The slots with the operand at a position replaced. -/
def set (slots : Slots α) (position : Nat) (a : α) : Slots α :=
  match position with
  | 0 => { slots with first := some a }
  | 1 => { slots with second := some a }
  | 2 => { slots with third := some a }
  | 3 => { slots with fourth := some a }
  | _ => slots

end Slots

end Rehost
