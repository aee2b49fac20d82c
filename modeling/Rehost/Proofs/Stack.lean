import Rehost.Machine.Step

/-!
# The stack

Generated code uses a few words of stack below the pointer it is entered with, and a context that lies
elsewhere (`Layout`). A machine state `Shows` a state `t` with a list of words on the stack if it is `t`
but for the stack pointer, which lies that many words below the entry, and for what is in memory below
the entry, where the words are found. Pushing and popping are then what they are on lists.
-/

namespace Rehost.Machine

open Guest (Context)

/-- The most stack, in words, that generated code has in use. -/
def frameWords : Nat := 9

/-- Where the context lies and the stack pointer of the entry, as a caller arranges them. -/
structure Layout (contextAddress entry : Word) : Prop where
  aligned : entry.toNat % 16 = 8
  room : 8 * frameWords ≤ entry.toNat
  whole : contextAddress.toNat + Context.size ≤ 0x1_0000_0000_0000_0000
  apart : entry.toNat + 8 ≤ contextAddress.toNat ∨
    contextAddress.toNat + Context.size ≤ entry.toNat - 8 * frameWords

/-- The address `n` words below the entry. -/
def below (entry : Word) (n : Nat) : Word := entry - BitVec.ofNat 64 (8 * n)

theorem below_zero (entry : Word) : below entry 0 = entry := by simp [below]

theorem below_sub (entry : Word) (n : Nat) : below entry n - 8 = below entry (n + 1) := by
  simp only [below, Nat.mul_add, BitVec.ofNat_add]
  bv_omega

theorem below_add (entry : Word) (n : Nat) : below entry (n + 1) + 8 = below entry n := by
  rw [← below_sub]
  bv_omega

section
variable {contextAddress entry : Word} (layout : Layout contextAddress entry)
include layout

theorem toNat_below {n : Nat} (small : n ≤ frameWords) : (below entry n).toNat = entry.toNat - 8 * n := by
  have room := layout.room
  simp only [frameWords] at room small
  rw [below, BitVec.toNat_sub, BitVec.toNat_ofNat]
  omega

theorem below_le {n : Nat} (small : n ≤ frameWords) : (below entry n).toNat ≤ entry.toNat := by
  rw [toNat_below layout small]
  omega

/-- What is not below the top is not the word under it. -/
theorem ne_below {n : Nat} (small : n < frameWords) {a : Word} (high : (below entry n).toNat ≤ a.toNat) :
    a ≠ below entry (n + 1) := by
  rintro rfl
  have room := layout.room
  rw [toNat_below layout (Nat.le_of_lt small), toNat_below layout small] at high
  simp only [frameWords] at room small
  omega

/-- The frame is memory of its own. -/
theorem place_below {n : Nat} (small : n ≤ frameWords) :
    Place.ofAddress? contextAddress (below entry n) = some (.cell (below entry n)) := by
  have here := toNat_below layout small
  obtain ⟨aligned, room, whole, apart⟩ := layout
  simp only [frameWords, Context.size, Context.gpOffset, Context.reservedSize] at small room whole apart
  have outside : ¬ (below entry n - contextAddress).toNat < Context.size := by
    rw [BitVec.toNat_sub, here]
    simp only [Context.size, Context.gpOffset, Context.reservedSize]
    omega
  have multiple : (below entry n).toNat % 8 = 0 := by omega
  simp only [Place.ofAddress?, outside, multiple, if_false, if_true]

end

/-! ### States with words on the stack -/

/-- Words on the stack, the top first. -/
def Words (entry : Word) (cells : Word → Word) : List Word → Prop
  | [] => True
  | value :: rest => cells (below entry (rest.length + 1)) = value ∧ Words entry cells rest

structure Shows (entry : Word) (t : State) (stack : List Word) (s : State) : Prop where
  regs : ∀ r, r ≠ .rsp → s.get r = t.get r
  pointer : s.get .rsp = below entry stack.length
  flags : s.flags = t.flags
  context : s.context = t.context
  words : Words entry s.cells stack
  above : ∀ a, entry.toNat ≤ a.toNat → s.cells a = t.cells a

namespace State

@[simp] theorem get_set_self (s : State) (r : Reg) (value : Word) : (s.set r value).get r = value :=
  RegFile.get_set_self ..

theorem get_set_of_ne (s : State) {r q : Reg} (value : Word) (other : r ≠ q) :
    (s.set r value).get q = s.get q := RegFile.get_set_of_ne _ value other

theorem get_set (s : State) (r q : Reg) (value : Word) :
    (s.set r value).get q = if r = q then value else s.get q := RegFile.get_set ..

end State

/-- Words stay on the stack if memory from the top upwards does. -/
theorem Words.mono {contextAddress entry : Word} (layout : Layout contextAddress entry)
    {cells cells' : Word → Word} {stack : List Word} {n : Nat} (small : n ≤ frameWords)
    (inside : stack.length ≤ n)
    (same : ∀ a, (below entry n).toNat ≤ a.toNat → cells' a = cells a) (words : Words entry cells stack) :
    Words entry cells' stack := by
  induction stack with
  | nil => trivial
  | cons value rest ih =>
    have bound : rest.length + 1 ≤ n := inside
    refine ⟨?_, ih (by omega) words.2⟩
    rw [same, words.1]
    rw [toNat_below layout small, toNat_below layout (by omega)]
    omega

namespace Shows

variable {contextAddress entry : Word} {t s : State} {stack : List Word} {value : Word}

/-- A register is written on both sides. -/
theorem set (shows : Shows entry t stack s) {r : Reg} (other : r ≠ .rsp) (value : Word) :
    Shows entry (t.set r value) stack (s.set r value) := by
  refine ⟨fun q notStack => ?_, ?_, shows.flags, shows.context, shows.words, shows.above⟩
  · simp only [State.get_set, shows.regs q notStack]
  · rw [State.get_set_of_ne s value other, shows.pointer]

theorem setFlags (shows : Shows entry t stack s) (flags : Word) :
    Shows entry { t with flags } stack { s with flags } :=
  ⟨shows.regs, shows.pointer, rfl, shows.context, shows.words, shows.above⟩

theorem setContext (shows : Shows entry t stack s) (context : Context) :
    Shows entry { t with context } stack { s with context } :=
  ⟨shows.regs, shows.pointer, shows.flags, rfl, shows.words, shows.above⟩

variable (layout : Layout contextAddress entry)
include layout

theorem push (shows : Shows entry t stack s) (room : stack.length < frameWords) (value : Word) :
    ∃ s', Machine.push contextAddress value s = some s' ∧ Shows entry t (value :: stack) s' := by
  have top : s.get .rsp - 8 = below entry (stack.length + 1) := by rw [shows.pointer, below_sub]
  refine ⟨_, by rw [Machine.push, top, place_below layout room]; rfl, ?_⟩
  refine ⟨fun r other => ?_, ?_, shows.flags, shows.context, ⟨?_, ?_⟩, fun a high => ?_⟩
  · rw [State.get_set_of_ne _ _ other.symm]
    exact shows.regs r other
  · exact State.get_set_self ..
  · simp [State.set, State.store]
  · refine Words.mono layout (Nat.le_of_lt room) (Nat.le_refl _) (fun a high => ?_) shows.words
    simp [State.set, State.store, ne_below layout room high]
  · have other := ne_below layout room (Nat.le_trans (below_le layout (Nat.le_of_lt room)) high)
    simp only [State.set, State.store, other, if_false]
    exact shows.above a high

theorem pop (shows : Shows entry t (value :: stack) s) (small : stack.length < frameWords) :
    ∃ s', Machine.pop contextAddress s = some (value, s') ∧ Shows entry t stack s' := by
  have top : s.get .rsp = below entry (stack.length + 1) := shows.pointer
  refine ⟨s.set .rsp (below entry stack.length), ?_, ?_⟩
  · simp only [Machine.pop, top, place_below layout small, below_add]
    simp [State.load, shows.words.1]
  · refine ⟨fun r other => ?_, State.get_set_self .., shows.flags, shows.context, shows.words.2, shows.above⟩
    rw [State.get_set_of_ne _ _ other.symm]
    exact shows.regs r other

end Shows

end Rehost.Machine
