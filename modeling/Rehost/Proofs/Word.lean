import Rehost.Reg

/-!
# Parts of words and registers

Writing the low part of a word and reading it back, the bytes that a value spells, and the registers
that a write of some width leaves alone.
-/

namespace Rehost

/-! ### The low part of a word -/

theorem getLsbD_setLow (old : Word) {n : Nat} (value : BitVec n) (small : n ≤ 64) (i : Nat) :
    (setLow old value).getLsbD i = if i < n then value.getLsbD i else old.getLsbD i := by
  by_cases low : i < n
  · have inside : i < 64 := by omega
    simp [setLow, low, inside]
  · have above : value.getLsbD i = false := BitVec.getLsbD_of_ge value i (by omega)
    by_cases inside : i < 64
    · have same : n + (i - n) = i := by omega
      simp [setLow, low, inside, above, same]
    · simp [setLow, low, inside, BitVec.getLsbD_of_ge old i (by omega)]

theorem setLow_setWidth (old : Word) (w : Width) : setLow old (old.setWidth w.bits) = old := by
  apply BitVec.eq_of_getLsbD_eq
  intro i inside
  rw [getLsbD_setLow _ _ w.bits_le]
  split <;> simp_all

@[simp] theorem setWidth_setLow (old : Word) (w : Width) (value : BitVec w.bits) :
    (setLow old value).setWidth w.bits = value := by
  apply BitVec.eq_of_getLsbD_eq
  intro i inside
  rw [BitVec.getLsbD_setWidth, getLsbD_setLow _ _ w.bits_le]
  simp [inside]

@[simp] theorem setLow_setLow (old : Word) (w : Width) (one two : BitVec w.bits) :
    setLow (setLow old one) two = setLow old two := by
  apply BitVec.eq_of_getLsbD_eq
  intro i inside
  simp only [getLsbD_setLow _ _ w.bits_le]
  split <;> rfl

@[simp] theorem setLow_word (old value : Word) : setLow old value = value := by
  apply BitVec.eq_of_getLsbD_eq
  intro i inside
  rw [getLsbD_setLow old value (Nat.le_refl 64), if_pos inside]

/-! ### Bytes -/

/-- Bytes depend on the bits they are made of only. -/
theorem toBytes_congr {m n : Nat} {one : BitVec m} {two : BitVec n} {count : Nat}
    (same : ∀ i, i < 8 * count → one.getLsbD i = two.getLsbD i) : toBytes one count = toBytes two count := by
  induction count generalizing one two with
  | zero => rfl
  | succ count ih =>
    have first : one.setWidth 8 = two.setWidth 8 := by
      apply BitVec.eq_of_getLsbD_eq
      intro i inside
      simp only [BitVec.getLsbD_setWidth, same i (by omega)]
    have rest : toBytes (one >>> 8) count = toBytes (two >>> 8) count := by
      apply ih
      intro i inside
      simp only [BitVec.getLsbD_ushiftRight]
      exact same (8 + i) (by omega)
    simp only [toBytes, first, rest]

theorem toBytes_setWidth (value : Word) (w : Width) :
    toBytes (value.setWidth w.bits) w.bytes = toBytes value w.bytes := by
  apply toBytes_congr
  intro i inside
  have low : i < w.bits := by rw [w.bits_eq]; exact inside
  simp [low]

theorem ofNat_ofBytes_toBytes {n : Nat} (value : BitVec n) (count : Nat) :
    BitVec.ofNat (8 * count) (ofBytes (toBytes value count)) = value.setWidth (8 * count) := by
  induction count generalizing value with
  | zero => exact BitVec.eq_of_toNat_eq (by simp [BitVec.of_length_zero])
  | succ count ih =>
    have rest := congrArg BitVec.toNat (ih (value >>> 8))
    simp only [BitVec.toNat_ofNat, BitVec.toNat_setWidth, BitVec.toNat_ushiftRight, Nat.shiftRight_eq_div_pow] at rest
    have power : 2 ^ (8 * (count + 1)) = 2 ^ 8 * 2 ^ (8 * count) := by rw [← Nat.pow_add, Nat.mul_add, Nat.add_comm]
    have quotient : (value.toNat % 2 ^ 8 + 256 * ofBytes (toBytes (value >>> 8) count)) / 2 ^ 8 =
        ofBytes (toBytes (value >>> 8) count) := by omega
    have remainder : (value.toNat % 2 ^ 8 + 256 * ofBytes (toBytes (value >>> 8) count)) % 2 ^ 8 =
        value.toNat % 2 ^ 8 := by omega
    apply BitVec.eq_of_toNat_eq
    simp only [toBytes, ofBytes, BitVec.toNat_ofNat, BitVec.toNat_setWidth]
    rw [power, Nat.mod_mul, Nat.mod_mul, quotient, remainder, rest]

theorem take_toBytes {n : Nat} (value : BitVec n) {few many : Nat} (fewer : few ≤ many) :
    (toBytes value many).take few = toBytes value few := by
  induction few generalizing value many with
  | zero => rfl
  | succ few ih =>
    obtain ⟨many, rfl⟩ : ∃ rest, many = rest + 1 := ⟨many - 1, by omega⟩
    simp only [toBytes, List.take_succ_cons, ih (value >>> 8) (Nat.le_of_succ_le_succ fewer)]

theorem ofBytes_lt (bytes : List Byte) : ofBytes bytes < 1 <<< (8 * bytes.length) := by
  induction bytes with
  | nil => decide
  | cons byte rest ih =>
    have small := byte.isLt
    simp only [ofBytes, List.length_cons, Nat.shiftLeft_eq, Nat.one_mul, Nat.mul_add, Nat.pow_add] at ih ⊢
    omega

theorem toBytes_zero (n count : Nat) : toBytes (0 : BitVec n) count = List.replicate count 0 := by
  induction count with
  | zero => rfl
  | succ count ih => simpa [toBytes, List.replicate_succ] using ih

/-- The bytes of a number that few bytes spell are these, and zeros after them. -/
theorem toBytes_ofBytes (bytes : List Byte) {n more : Nat} (wide : 8 * (bytes.length + more) ≤ n) :
    toBytes (BitVec.ofNat n (ofBytes bytes)) (bytes.length + more) = bytes ++ List.replicate more 0 := by
  induction bytes with
  | nil => simpa [ofBytes] using toBytes_zero n more
  | cons byte rest ih =>
    rw [List.length_cons] at wide
    have fits : ofBytes (byte :: rest) < 2 ^ n := by
      refine Nat.lt_of_lt_of_le (ofBytes_lt (byte :: rest)) ?_
      rw [Nat.shiftLeft_eq, Nat.one_mul, List.length_cons]
      exact Nat.pow_le_pow_right (by decide) (by omega)
    have first : (BitVec.ofNat n (ofBytes (byte :: rest))).setWidth 8 = byte := by
      rw [BitVec.setWidth_ofNat_of_le (by omega)]
      apply BitVec.eq_of_toNat_eq
      have small := byte.isLt
      simp only [BitVec.toNat_ofNat, ofBytes]
      omega
    have others : BitVec.ofNat n (ofBytes (byte :: rest)) >>> 8 = BitVec.ofNat n (ofBytes rest) := by
      apply BitVec.eq_of_toNat_eq
      have small := byte.isLt
      rw [BitVec.toNat_ushiftRight, BitVec.toNat_ofNat, BitVec.toNat_ofNat, Nat.mod_eq_of_lt fits,
        Nat.shiftRight_eq_div_pow]
      rw [ofBytes] at fits ⊢
      rw [Nat.mod_eq_of_lt (by omega)]
      omega
    have count : (byte :: rest).length + more = rest.length + more + 1 := by rw [List.length_cons]; omega
    rw [count, toBytes, first, others, ih (by omega), List.cons_append]

/-- The number that the low bytes of a value spell. -/
theorem ofBytes_toBytes {n : Nat} (value : BitVec n) (count : Nat) :
    ofBytes (toBytes value count) = value.toNat % (1 <<< (8 * count)) := by
  have small := ofBytes_lt (toBytes value count)
  have same := congrArg BitVec.toNat (ofNat_ofBytes_toBytes value count)
  rw [length_toBytes, Nat.shiftLeft_eq, Nat.one_mul] at small
  rw [BitVec.toNat_ofNat, BitVec.toNat_setWidth, Nat.mod_eq_of_lt small] at same
  rw [same, Nat.shiftLeft_eq, Nat.one_mul]

/-! ### Parts of registers -/

namespace RegFile

@[simp] theorem part_full (file : RegFile) (r : Reg) : file.part r false .b64 = file.get r := by
  simp [part, Width.bits]

@[simp] theorem setPart_full (file : RegFile) (r : Reg) (value : Word) :
    file.setPart r false .b64 value = file.set r value := by
  simp [setPart, widen, Width.bits]

theorem get_setPart_of_ne (file : RegFile) {r s : Reg} (high : Bool) (w : Width) (value : BitVec w.bits)
    (other : r ≠ s) : (file.setPart r high w value).get s = file.get s :=
  get_set_of_ne file _ other

/-- Writing part of a register depends on that register only. -/
theorem get_setPart_congr {one two : RegFile} {r s : Reg} (high : Bool) (w : Width)
    (value : BitVec w.bits) (here : one.get r = two.get r) (there : one.get s = two.get s) :
    (one.setPart r high w value).get s = (two.setPart r high w value).get s := by
  simp only [setPart, get_set, here, there]

end RegFile

end Rehost
