import Mathlib

/-!
# Fields of a machine word

Hardware words pack an aligned address and a few flag bits.  The lemmas of this file take such a
word apart: an address that is a multiple of `2 ^ k` and flags below `2 ^ k` do not overlap, so
masks below `2 ^ k` see the flags only, and the mask of the bits from `k` to `w` sees the address
only.
-/

namespace ProgLib

variable {k w a f m x : ℕ}

/-- `!m` on 64-bit words. -/
def not64 (m : ℕ) : ℕ := 2 ^ 64 - 1 - m

/-- The complement of the mask of the low `k` bits is the mask of the others. -/
lemma not64_two_pow_sub_one (k : ℕ) : not64 (2 ^ k - 1) = 2 ^ 64 - 2 ^ k := by
  have := Nat.two_pow_pos k
  rw [not64]
  omega

/-- Below `2 ^ k` a word is its flags, from there on it is its address. -/
lemma testBit_or_of_dvd (ha : 2 ^ k ∣ a) (hf : f < 2 ^ k) (j : ℕ) :
    (a ||| f).testBit j = if j < k then f.testBit j else a.testBit j := by
  obtain ⟨b, rfl⟩ := ha
  rw [Nat.testBit_or, Nat.testBit_two_pow_mul]
  split_ifs with hj
  · simp [hj]
  · rw [Nat.testBit_lt_two_pow (lt_of_lt_of_le hf (Nat.pow_le_pow_right two_pos (by omega)))]
    simp

/-- The mask of the bits from `k` to `w`. -/
lemma testBit_mask (hk : k ≤ w) (j : ℕ) :
    (2 ^ w - 2 ^ k).testBit j = (decide (k ≤ j) && decide (j < w)) := by
  have hmask : 2 ^ w - 2 ^ k = 2 ^ k * (2 ^ (w - k) - 1) := by
    rw [Nat.mul_sub, Nat.mul_one, ← Nat.pow_add, Nat.add_sub_cancel' hk]
  rw [hmask, Nat.testBit_two_pow_mul, Nat.testBit_two_pow_sub_one]
  by_cases hj : k ≤ j
  · simp only [hj, decide_true, Bool.true_and, decide_eq_decide]
    omega
  · simp [hj]

/-- A mask of low bits sees the flags of a word only. -/
lemma or_and_of_lt (ha : 2 ^ k ∣ a) (hf : f < 2 ^ k) (hm : m < 2 ^ k) :
    (a ||| f) &&& m = f &&& m := by
  apply Nat.eq_of_testBit_eq
  intro j
  rw [Nat.testBit_and, Nat.testBit_and, testBit_or_of_dvd ha hf]
  split_ifs with hj
  · rfl
  · rw [Nat.testBit_lt_two_pow (lt_of_lt_of_le hm (Nat.pow_le_pow_right two_pos (by omega)))]
    simp

/-- The mask of the high bits sees the address of a word only. -/
lemma or_and_mask (hk : k ≤ w) (ha : 2 ^ k ∣ a) (haw : a < 2 ^ w) (hf : f < 2 ^ k) :
    (a ||| f) &&& (2 ^ w - 2 ^ k) = a := by
  apply Nat.eq_of_testBit_eq
  intro j
  rw [Nat.testBit_and, testBit_or_of_dvd ha hf, testBit_mask hk]
  by_cases hj : j < k
  · obtain ⟨b, rfl⟩ := ha
    simp [Nat.testBit_two_pow_mul, hj, Nat.not_le.mpr hj]
  · by_cases hjw : j < w
    · simp [hj, hjw, Nat.le_of_not_lt hj]
    · rw [if_neg hj,
        Nat.testBit_lt_two_pow (lt_of_lt_of_le haw (Nat.pow_le_pow_right two_pos (by omega)))]
      simp

/-- Masking the bits from `k` to `w` of a `w`-bit word rounds it down to a multiple of `2 ^ k`. -/
lemma and_mask_eq (hk : k ≤ w) (hx : x < 2 ^ w) : x &&& (2 ^ w - 2 ^ k) = x / 2 ^ k * 2 ^ k := by
  apply Nat.eq_of_testBit_eq
  intro j
  rw [Nat.testBit_and, testBit_mask hk, Nat.mul_comm, Nat.testBit_two_pow_mul,
    Nat.testBit_div_two_pow]
  by_cases hj : k ≤ j
  · rw [Nat.sub_add_cancel hj]
    by_cases hjw : j < w
    · simp [hj, hjw]
    · rw [Nat.testBit_lt_two_pow (lt_of_lt_of_le hx (Nat.pow_le_pow_right two_pos (by omega)))]
      simp
  · simp [hj]

end ProgLib
