import Rehost.Status

/-!
# Flags that agree

Two sets of arithmetic flags `Agree` on a mask if they have the same value for every flag in it. Beside
that, what replacing the arithmetic flags of a flags word keeps and changes.
-/

namespace Rehost

/-- Every bit of `small` is one of `large`. -/
def Flag.Within (small large : Word) : Prop := ∀ i, small.getLsbD i = true → large.getLsbD i = true

theorem Flag.within_or_left (one two : Word) : Flag.Within one (one ||| two) := by
  intro i inside
  simp [inside]

theorem Flag.within_or_right (one two : Word) : Flag.Within two (one ||| two) := by
  intro i inside
  simp [inside]

theorem Flag.Within.trans {one two three : Word} (first : Flag.Within one two)
    (second : Flag.Within two three) : Flag.Within one three := fun i inside => second i (first i inside)

theorem Flag.Within.not {small large : Word} (within : Flag.Within small large) :
    Flag.Within (~~~large) (~~~small) := by
  intro i outside
  simp only [BitVec.getLsbD_not, Bool.and_eq_true, Bool.not_eq_true'] at outside ⊢
  refine ⟨outside.1, ?_⟩
  cases inside : small.getLsbD i with
  | false => rfl
  | true => exact absurd (within i inside) (by simp [outside.2])

theorem Flag.within_allOnes (small : Word) : Flag.Within small (BitVec.allOnes 64) := by
  intro i inside
  rw [BitVec.getLsbD_allOnes]
  exact decide_eq_true (BitVec.lt_of_getLsbD inside)

namespace Status

/-! ### Flags words -/

theorem and_status (flags : Word) : flags &&& Flag.status = (ofWord flags).toWord := by
  have parts : Flag.status = BitVec.twoPow 64 0 ||| BitVec.twoPow 64 2 ||| BitVec.twoPow 64 4 |||
      BitVec.twoPow 64 6 ||| BitVec.twoPow 64 7 ||| BitVec.twoPow 64 11 := by decide
  rw [parts]
  simp only [BitVec.and_or_distrib_left, BitVec.and_twoPow]
  rfl

@[simp] theorem toWord_and_status (status : Status) : status.toWord &&& Flag.status = status.toWord := by
  rw [and_status, ofWord_toWord]

@[simp] theorem replace_ofWord (flags : Word) : replace flags (ofWord flags) = flags := by
  have every : ~~~Flag.status ||| Flag.status = BitVec.allOnes 64 := by decide
  rw [replace, ← and_status, ← BitVec.and_or_distrib_left, every, BitVec.and_allOnes]

theorem replace_and_status (flags : Word) (status : Status) :
    replace flags status &&& Flag.status = status.toWord := by
  rw [replace, BitVec.and_or_distrib_right, toWord_and_status, BitVec.and_assoc]
  simp

@[simp] theorem ofWord_replace (flags : Word) (status : Status) : ofWord (replace flags status) = status := by
  have whole (word : Word) : ofWord (word &&& Flag.status) = ofWord word := by
    rw [and_status, ofWord_toWord]
  rw [← whole, replace_and_status, ofWord_toWord]

/-- Only the arithmetic flags are replaced. -/
theorem replace_and_not_status (flags : Word) (status : Status) :
    replace flags status &&& ~~~Flag.status = flags &&& ~~~Flag.status := by
  rw [replace, BitVec.and_or_distrib_right, BitVec.and_assoc, BitVec.and_self, ← toWord_and_status status,
    BitVec.and_assoc, BitVec.and_not_self]
  simp

@[simp] theorem replace_replace (flags : Word) (one two : Status) :
    replace (replace flags one) two = replace flags two := by
  rw [replace, replace_and_not_status, replace]

/-! ### Agreement -/

/-- The flags in the mask have the same value on both sides. -/
structure Agree (mask : Word) (one two : Status) : Prop where
  carry : mask.getLsbD 0 = true → one.carry = two.carry
  parity : mask.getLsbD 2 = true → one.parity = two.parity
  adjust : mask.getLsbD 4 = true → one.adjust = two.adjust
  zero : mask.getLsbD 6 = true → one.zero = two.zero
  sign : mask.getLsbD 7 = true → one.sign = two.sign
  overflow : mask.getLsbD 11 = true → one.overflow = two.overflow

theorem Agree.refl (mask : Word) (status : Status) : Agree mask status status :=
  ⟨fun _ => rfl, fun _ => rfl, fun _ => rfl, fun _ => rfl, fun _ => rfl, fun _ => rfl⟩

theorem Agree.trans {mask : Word} {one two three : Status} (first : Agree mask one two)
    (second : Agree mask two three) : Agree mask one three :=
  ⟨fun h => (first.carry h).trans (second.carry h), fun h => (first.parity h).trans (second.parity h),
    fun h => (first.adjust h).trans (second.adjust h), fun h => (first.zero h).trans (second.zero h),
    fun h => (first.sign h).trans (second.sign h), fun h => (first.overflow h).trans (second.overflow h)⟩

theorem Agree.mono {small large : Word} {one two : Status} (within : Flag.Within small large)
    (agree : Agree large one two) : Agree small one two :=
  ⟨fun h => agree.carry (within _ h), fun h => agree.parity (within _ h),
    fun h => agree.adjust (within _ h), fun h => agree.zero (within _ h),
    fun h => agree.sign (within _ h), fun h => agree.overflow (within _ h)⟩

theorem agree_zero (one two : Status) : Agree 0 one two := by
  constructor <;> simp

theorem agree_not_status (one two : Status) : Agree (~~~Flag.status) one two := by
  constructor <;> intro outside <;> simp [Flag.status] at outside

/-- Flags on which agreement is already known add nothing. -/
theorem Agree.or_within {mask more : Word} {one two : Status} (agree : Agree mask one two)
    (within : Flag.Within more mask) : Agree (mask ||| more) one two := by
  apply agree.mono
  intro i inside
  rw [BitVec.getLsbD_or, Bool.or_eq_true] at inside
  exact inside.elim id (within i)

/-- Flags that agree on every arithmetic flag are the same. -/
theorem Agree.eq {mask : Word} {one two : Status} (all : Flag.Within Flag.status mask)
    (agree : Agree mask one two) : one = two := by
  have whole := agree.mono all
  cases one with
  | mk =>
    cases two with
    | mk =>
      rw [Status.mk.injEq]
      exact ⟨whole.carry (by decide), whole.parity (by decide), whole.adjust (by decide),
        whole.zero (by decide), whole.sign (by decide), whole.overflow (by decide)⟩

end Status

end Rehost
