import Mathlib.Data.List.Induction
import Mathlib.Data.Nat.Digits.Defs
import Rehost.Text.Number

/-!
# Numerals

A numeral is a row of decimal digits that stands for a number below 2^64, perhaps after a plus sign (`IsNumeral`). Any
other text has a leftmost obstacle (`Obstructs`). Reading gives the number of a numeral, and the obstacle of any other
text (`readNumber_eq_ok_iff`, `readNumber_of_obstructs`).
-/

namespace Rehost.Text

/-! ### Values of digits -/

/-- The number that a row of decimal digits stands for. -/
def decimal (digits : List Char) : Nat := Nat.ofDigits 10 (digits.reverse.map fun c => c.toNat - '0'.toNat)

@[simp] theorem decimal_nil : decimal [] = 0 := rfl

theorem decimal_concat (digits : List Char) (c : Char) :
    decimal (digits ++ [c]) = 10 * decimal digits + (c.toNat - '0'.toNat) := by
  simp only [decimal, List.reverse_append, List.reverse_singleton, List.singleton_append, List.map_cons,
    Nat.ofDigits_cons]
  omega

theorem decimal_le_append (digits more : List Char) : decimal digits ≤ decimal (digits ++ more) := by
  induction more using List.reverseRecOn with
  | nil => simp
  | append_singleton more c shorter =>
    rw [← List.append_assoc, decimal_concat]
    omega

/-- Digits that stand for a number below 2^64. -/
structure Small (digits : List Char) : Prop where
  isDigit : ∀ c ∈ digits, c.isDigit = true
  below : decimal digits < 2 ^ 64

theorem small_nil : Small [] := ⟨by simp, by simp⟩

theorem Small.of_append {digits more : List Char} (small : Small (digits ++ more)) : Small digits :=
  ⟨fun c member => small.isDigit c (List.mem_append_left _ member),
    Nat.lt_of_le_of_lt (decimal_le_append digits more) small.below⟩

/-! ### Numerals and other texts -/

/-- The characters after a plus sign, if there is one. -/
def unsigned : List Char → List Char
  | '+' :: rest => rest
  | chars => chars

/-- Whether a text is a numeral for a number. -/
structure IsNumeral (text : String) (number : Nat) : Prop where
  nonempty : unsigned text.toList ≠ []
  small : Small (unsigned text.toList)
  value : decimal (unsigned text.toList) = number

/-- Characters that begin with digits, up to one that is no digit or leads past 2^64. -/
def StopsAt (chars : List Char) (stop : List Char → Char → Prop) : Prop :=
  ∃ digits c rest, chars = digits ++ c :: rest ∧ Small digits ∧ stop digits c

/-- Whether this is the first obstacle to reading a text. -/
def Obstructs (text : String) : NumberError → Prop
  | .empty => text.toList = []
  | .invalidDigit => text.toList = ['+'] ∨ StopsAt (unsigned text.toList) fun _ c => c.isDigit = false
  | .overflow => StopsAt (unsigned text.toList) fun digits c => c.isDigit = true ∧ 2 ^ 64 ≤ decimal (digits ++ [c])

theorem small_or_stopsAt (chars : List Char) :
    Small chars ∨ StopsAt chars (fun _ c => c.isDigit = false) ∨
      StopsAt chars fun digits c => c.isDigit = true ∧ 2 ^ 64 ≤ decimal (digits ++ [c]) := by
  induction chars using List.reverseRecOn with
  | nil => exact .inl small_nil
  | append_singleton chars c shorter =>
    obtain small | ⟨digits, d, rest, rfl, small, stop⟩ | ⟨digits, d, rest, rfl, small, stop⟩ := shorter
    · cases digit : c.isDigit with
      | false => exact .inr (.inl ⟨chars, c, [], rfl, small, digit⟩)
      | true =>
        by_cases below : decimal (chars ++ [c]) < 2 ^ 64
        · refine .inl ⟨fun d member => ?_, below⟩
          obtain earlier | last := List.mem_append.mp member
          · exact small.isDigit d earlier
          · rw [List.mem_singleton.mp last, digit]
        · exact .inr (.inr ⟨chars, c, [], rfl, small, digit, Nat.le_of_not_lt below⟩)
    · exact .inr (.inl ⟨digits, d, rest ++ [c], by simp, small, stop⟩)
    · exact .inr (.inr ⟨digits, d, rest ++ [c], by simp, small, stop⟩)

theorem isNumeral_or_obstructs (text : String) : (∃ number, IsNumeral text number) ∨ ∃ error, Obstructs text error := by
  by_cases empty : text.toList = []
  · exact .inr ⟨.empty, empty⟩
  · by_cases sign : text.toList = ['+']
    · exact .inr ⟨.invalidDigit, .inl sign⟩
    · have nonempty : unsigned text.toList ≠ [] := by
        unfold unsigned
        split
        next rest found =>
          rintro rfl
          exact sign found
        next => exact empty
      obtain small | stop | stop := small_or_stopsAt (unsigned text.toList)
      · exact .inl ⟨_, nonempty, small, rfl⟩
      · exact .inr ⟨.invalidDigit, .inr stop⟩
      · exact .inr ⟨.overflow, stop⟩

/-! ### Reading -/

/-- Digits that were read leave their value behind. -/
theorem readDigits_append {digits more : List Char} (small : Small (digits ++ more)) (rest : List Char) :
    readDigits (decimal digits) (more ++ rest) = readDigits (decimal (digits ++ more)) rest := by
  induction more generalizing digits with
  | nil => simp
  | cons c more later =>
    rw [List.append_cons] at small ⊢
    have digit : c.isDigit = true := small.isDigit c (by simp)
    have below : 10 * decimal digits + (c.toNat - '0'.toNat) < 2 ^ 64 := by
      rw [← decimal_concat]
      exact small.of_append.below
    rw [← later small, decimal_concat, List.cons_append, readDigits, if_pos digit]
    exact if_pos below

theorem readDigits_of_small {digits : List Char} (small : Small digits) (rest : List Char) :
    readDigits 0 (digits ++ rest) = readDigits (decimal digits) rest := by
  have whole : Small ([] ++ digits) := small
  exact readDigits_append whole rest

theorem readNumber_eq {text : String} (nonempty : unsigned text.toList ≠ []) :
    readNumber text = readDigits 0 (unsigned text.toList) := by
  unfold readNumber unsigned at *
  split at nonempty
  next rest found =>
    rw [found]
    cases rest with
    | nil => exact absurd rfl nonempty
    | cons c rest => rfl
  next unsignedFirst =>
    split
    next found => exact absurd found nonempty
    next found => exact absurd found (unsignedFirst _)
    next found => exact absurd found (unsignedFirst _)
    next => rfl

theorem readNumber_of_isNumeral {text : String} {number : Nat} (numeral : IsNumeral text number) :
    readNumber text = .ok number := by
  have read := readDigits_of_small numeral.small []
  rw [List.append_nil] at read
  rw [readNumber_eq numeral.nonempty, read, numeral.value, readDigits]

theorem readNumber_of_stopsAt {text : String} {stop : List Char → Char → Prop} {error : NumberError}
    (stops : StopsAt (unsigned text.toList) stop)
    (refuses : ∀ digits c rest, stop digits c → readDigits (decimal digits) (c :: rest) = .error error) :
    readNumber text = .error error := by
  obtain ⟨digits, c, rest, found, small, stopped⟩ := stops
  rw [readNumber_eq (by simp [found]), found, readDigits_of_small small]
  exact refuses digits c rest stopped

theorem readNumber_of_obstructs {text : String} {error : NumberError} (obstructs : Obstructs text error) :
    readNumber text = .error error := by
  cases error with
  | empty =>
    have empty : text.toList = [] := obstructs
    rw [readNumber, empty]
  | invalidDigit =>
    obtain sign | stops := obstructs
    · simp only [readNumber, sign]
    · refine readNumber_of_stopsAt stops fun digits c rest other => ?_
      rw [readDigits, if_neg (by simp [other])]
  | overflow =>
    refine readNumber_of_stopsAt obstructs fun digits c rest past => ?_
    obtain ⟨digit, above⟩ := past
    rw [decimal_concat] at above
    rw [readDigits, if_pos digit]
    exact if_neg (Nat.not_lt.mpr above)

theorem readNumber_eq_ok_iff {text : String} {number : Nat} : readNumber text = .ok number ↔ IsNumeral text number := by
  refine ⟨fun read => ?_, readNumber_of_isNumeral⟩
  obtain ⟨other, numeral⟩ | ⟨error, obstructs⟩ := isNumeral_or_obstructs text
  · rw [readNumber_of_isNumeral numeral] at read
    cases read
    exact numeral
  · rw [readNumber_of_obstructs obstructs] at read
    cases read

end Rehost.Text
