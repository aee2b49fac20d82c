import Rehost.Word

/-!
# General-purpose registers

Guest and host number the sixteen registers alike, as the instruction encoding does. A register file
gives each its word; a register set is a mask with bit `i` for register `i`.
-/

namespace Rehost

/-- A general-purpose register. -/
abbrev Reg := Fin 16

namespace Reg

def rax : Reg := 0
def rcx : Reg := 1
def rdx : Reg := 2
def rbx : Reg := 3
def rsp : Reg := 4
def rbp : Reg := 5
def rsi : Reg := 6
def rdi : Reg := 7

/-- Every register, in ascending order. -/
def all : List Reg := List.finRange 16

/-- The 64-bit name of a register. -/
def name (r : Reg) : String :=
  #v["rax", "rcx", "rdx", "rbx", "rsp", "rbp", "rsi", "rdi",
     "r8", "r9", "r10", "r11", "r12", "r13", "r14", "r15"][r]

/-- The low three bits of a register's number, as they stand in an instruction. -/
def low (r : Reg) : BitVec 3 := BitVec.ofNat 3 r.val

/-- Whether a register is one of `r8` to `r15`, which need an extension bit. -/
def extended (r : Reg) : Bool := 8 ≤ r.val

theorem mem_all (r : Reg) : r ∈ all := List.mem_finRange r

end Reg

/-! ### Register files -/

/-- The contents of the sixteen registers. -/
structure RegFile where
  values : Vector Word 16
  deriving DecidableEq, Repr

namespace RegFile

def zero : RegFile := ⟨Vector.replicate 16 0⟩

def get (file : RegFile) (r : Reg) : Word := file.values[r]

def set (file : RegFile) (r : Reg) (value : Word) : RegFile :=
  ⟨file.values.set r.val value r.isLt⟩

/-- A register file given register by register. -/
def ofFn (f : Reg → Word) : RegFile := ⟨Vector.ofFn f⟩

/-- The part of a register that an operand of width `w` names: its low bits, or bits 8 to 15. -/
def part (file : RegFile) (r : Reg) (high : Bool) (w : Width) : BitVec w.bits :=
  if high then (file.get r >>> 8).setWidth w.bits else (file.get r).setWidth w.bits

/-- Writes the part of a register that an operand of width `w` names. -/
def setPart (file : RegFile) (r : Reg) (high : Bool) (w : Width) (value : BitVec w.bits) : RegFile :=
  file.set r (if high then setHigh (file.get r) (value.setWidth 8) else widen (file.get r) w value)

@[simp] theorem get_set_self (file : RegFile) (r : Reg) (value : Word) :
    (file.set r value).get r = value := by
  simp [get, set]

@[simp] theorem get_ofFn (f : Reg → Word) (r : Reg) : (ofFn f).get r = f r := by
  simp [get, ofFn]

theorem get_set_of_ne (file : RegFile) {r s : Reg} (value : Word) (other : r ≠ s) :
    (file.set r value).get s = file.get s := by
  have distinct : r.val ≠ s.val := fun same => other (Fin.ext same)
  simp [get, set, distinct]

theorem get_set (file : RegFile) (r s : Reg) (value : Word) :
    (file.set r value).get s = if r = s then value else file.get s := by
  by_cases same : r = s
  · subst same; simp
  · simp [same, get_set_of_ne]

theorem ext_get {one two : RegFile} (same : ∀ r, one.get r = two.get r) : one = two := by
  cases one with
  | mk one =>
    cases two with
    | mk two =>
      congr
      apply Vector.ext
      intro i inside
      exact same ⟨i, inside⟩

end RegFile

/-! ### Register sets -/

/-- A set of registers. -/
structure RegSet where
  mask : BitVec 16
  deriving DecidableEq, Repr

namespace RegSet

def empty : RegSet := ⟨0⟩

def contains (set : RegSet) (r : Reg) : Bool := set.mask.getLsbD r.val

instance : Membership Reg RegSet := ⟨fun set r => set.contains r = true⟩

instance (r : Reg) (set : RegSet) : Decidable (r ∈ set) :=
  inferInstanceAs (Decidable (set.contains r = true))

def singleton (r : Reg) : RegSet := ⟨BitVec.twoPow 16 r.val⟩

def union (one two : RegSet) : RegSet := ⟨one.mask ||| two.mask⟩

def inter (one two : RegSet) : RegSet := ⟨one.mask &&& two.mask⟩

def insert (set : RegSet) (r : Reg) : RegSet := set.union (singleton r)

/-- The members in ascending order. -/
def toList (set : RegSet) : List Reg := Reg.all.filter set.contains

def size (set : RegSet) : Nat := set.toList.length

def isEmpty (set : RegSet) : Bool := set.mask == 0

theorem mem_iff {set : RegSet} {r : Reg} : r ∈ set ↔ set.mask.getLsbD r.val = true := Iff.rfl

@[simp] theorem not_mem_empty (r : Reg) : r ∉ empty := by simp [mem_iff, empty]

@[simp] theorem mem_singleton {r s : Reg} : s ∈ singleton r ↔ s = r := by
  simp only [mem_iff, singleton, BitVec.getLsbD_twoPow, Bool.and_eq_true, decide_eq_true_eq, Fin.ext_iff]
  omega

@[simp] theorem mem_union {one two : RegSet} {r : Reg} : r ∈ one.union two ↔ r ∈ one ∨ r ∈ two := by
  simp [mem_iff, union]

@[simp] theorem mem_inter {one two : RegSet} {r : Reg} : r ∈ one.inter two ↔ r ∈ one ∧ r ∈ two := by
  simp [mem_iff, inter]

@[simp] theorem mem_insert {set : RegSet} {r s : Reg} : s ∈ set.insert r ↔ s ∈ set ∨ s = r := by
  simp [insert]

@[simp] theorem mem_toList {set : RegSet} {r : Reg} : r ∈ set.toList ↔ r ∈ set := by
  simp only [toList, List.mem_filter, Reg.mem_all, true_and]
  exact Iff.rfl

end RegSet

end Rehost
