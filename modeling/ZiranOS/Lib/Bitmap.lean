import Mathlib

/-!
# Bitmaps

A bitmap is a family of words of `w` bits; bit `i` of it is bit `i % w` of the word `i / w`.
Setting and clearing a bit by a mask changes that bit only (`bit_setBit`, `bit_clearBit`), and the
first word that is not full has, at the number of its trailing ones, the least clear bit of the
bitmap (`bit_firstClear`, `bit_of_lt_firstClear`).
-/

namespace ProgLib

namespace Bitmap

variable {w : ℕ} {words : ℕ → BitVec w} {i j : ℕ}

/-- The mask of a bit in its word. -/
def mask (w i : ℕ) : BitVec w := 1#w <<< (i % w)

/-- A bit of the bitmap. -/
def bit (words : ℕ → BitVec w) (i : ℕ) : Bool := (words (i / w)).getLsbD (i % w)

/-- Set a bit. -/
def setBit (words : ℕ → BitVec w) (i : ℕ) : ℕ → BitVec w :=
  Function.update words (i / w) (words (i / w) ||| mask w i)

/-- Clear a bit. -/
def clearBit (words : ℕ → BitVec w) (i : ℕ) : ℕ → BitVec w :=
  Function.update words (i / w) (words (i / w) &&& ~~~ mask w i)

/-- The bits of a mask. -/
lemma getLsbD_mask (hw : 0 < w) (i k : ℕ) : (mask w i).getLsbD k = decide (k = i % w) := by
  unfold mask
  rw [← BitVec.twoPow_eq, BitVec.getLsbD_twoPow, decide_eq_true (Nat.mod_lt i hw), Bool.true_and,
    decide_eq_decide]
  exact eq_comm

/-- The word and the position determine the bit. -/
lemma eq_of_div_mod (hdiv : j / w = i / w) (hmod : j % w = i % w) : j = i := by
  rw [← Nat.div_add_mod j w, ← Nat.div_add_mod i w, hdiv, hmod]

/-- Setting a bit changes that bit only. -/
lemma bit_setBit (hw : 0 < w) (j : ℕ) :
    bit (setBit words i) j = (decide (j = i) || bit words j) := by
  unfold bit setBit
  by_cases hdiv : j / w = i / w
  · rw [hdiv, Function.update_self, BitVec.getLsbD_or, getLsbD_mask hw, Bool.or_comm]
    congr 1
    rw [decide_eq_decide]
    exact ⟨eq_of_div_mod hdiv, fun h => by rw [h]⟩
  · have hne : j ≠ i := fun h => hdiv (by rw [h])
    rw [Function.update_of_ne hdiv, decide_eq_false hne, Bool.false_or]

/-- Clearing a bit changes that bit only. -/
lemma bit_clearBit (hw : 0 < w) (j : ℕ) :
    bit (clearBit words i) j = (!decide (j = i) && bit words j) := by
  have hj : j % w < w := Nat.mod_lt _ hw
  unfold bit clearBit
  by_cases hdiv : j / w = i / w
  · rw [hdiv, Function.update_self, BitVec.getLsbD_and, BitVec.getLsbD_not, getLsbD_mask hw,
      decide_eq_true hj, Bool.true_and, Bool.and_comm]
    congr 2
    rw [decide_eq_decide]
    exact ⟨eq_of_div_mod hdiv, fun h => by rw [h]⟩
  · have hne : j ≠ i := fun h => hdiv (by rw [h])
    rw [Function.update_of_ne hdiv, decide_eq_false hne, Bool.not_false, Bool.true_and]

/-- A word has the masked bit exactly if the mask leaves something of it. -/
lemma and_mask_ne_zero (hw : 0 < w) (x : BitVec w) (i : ℕ) :
    x &&& mask w i ≠ 0#w ↔ x.getLsbD (i % w) = true := by
  unfold mask
  rw [← BitVec.twoPow_eq, BitVec.and_twoPow]
  split_ifs with hbit
  · refine iff_of_true (fun hzero => ?_) hbit
    have := congrArg (fun y => y.getLsbD (i % w)) hzero
    simp [Nat.mod_lt i hw] at this
  · exact iff_of_false (by simp) hbit

/-! ## The least clear bit -/

/-- The number of ones at the low end of a word. -/
def trailingOnes (x : BitVec w) : ℕ := ((List.range w).find? fun k => !x.getLsbD k).getD w

/-- A word that is not full has a clear bit behind its trailing ones, and no lower one. -/
lemma trailingOnes_spec {x : BitVec w} (hx : x ≠ BitVec.allOnes w) :
    trailingOnes x < w ∧ x.getLsbD (trailingOnes x) = false ∧
      ∀ k < trailingOnes x, x.getLsbD k = true := by
  unfold trailingOnes
  cases hfind : (List.range w).find? fun k => !x.getLsbD k with
  | none =>
    refine absurd (BitVec.eq_of_getLsbD_eq fun k hk => ?_) hx
    have := List.find?_eq_none.mp hfind k (List.mem_range.mpr hk)
    rw [BitVec.getLsbD_allOnes, decide_eq_true hk]
    simpa using this
  | some k =>
    obtain ⟨hk, hlt, hmin⟩ := List.find?_range_eq_some.mp hfind
    refine ⟨List.mem_range.mp hlt, by simpa using hk, fun j hj => ?_⟩
    simpa using hmin j hj

/-- The least clear bit below `count` words, if there is one. -/
def firstClear (words : ℕ → BitVec w) (count : ℕ) : Option ℕ :=
  ((List.range count).find? fun k => words k ≠ BitVec.allOnes w).map fun k =>
    k * w + trailingOnes (words k)

/-- Below the least clear bit all bits are set. -/
lemma firstClear_eq_some {count : ℕ} (h : firstClear words count = some i) :
    i < count * w ∧ bit words i = false ∧ ∀ j < i, bit words j = true := by
  obtain ⟨k, hfind, rfl⟩ := Option.map_eq_some_iff.mp h
  obtain ⟨hne, hk, hmin⟩ := List.find?_range_eq_some.mp hfind
  rw [decide_eq_true_eq] at hne
  rw [List.mem_range] at hk
  obtain ⟨hlt, hbit, hones⟩ := trailingOnes_spec hne
  have hw : 0 < w := Nat.zero_lt_of_lt hlt
  have hdiv : (k * w + trailingOnes (words k)) / w = k := by
    rw [Nat.mul_comm, Nat.mul_add_div hw, Nat.div_eq_of_lt hlt, Nat.add_zero]
  have hmod : (k * w + trailingOnes (words k)) % w = trailingOnes (words k) := by
    rw [Nat.mul_comm, Nat.mul_add_mod, Nat.mod_eq_of_lt hlt]
  refine ⟨?_, ?_, fun j hj => ?_⟩
  · calc k * w + trailingOnes (words k) < k * w + w := Nat.add_lt_add_left hlt _
      _ = (k + 1) * w := (Nat.succ_mul k w).symm
      _ ≤ count * w := Nat.mul_le_mul_right w hk
  · rw [bit, hdiv, hmod, hbit]
  · have hjk : j / w ≤ k := by
      rw [← hdiv]
      exact Nat.div_le_div_right hj.le
    unfold bit
    rcases Nat.eq_or_lt_of_le hjk with heq | hlt'
    · rw [heq]
      refine hones _ ?_
      have hsplit := Nat.div_add_mod j w
      rw [heq, Nat.mul_comm] at hsplit
      omega
    · have hfull : words (j / w) = BitVec.allOnes w := by simpa using hmin (j / w) hlt'
      rw [hfull, BitVec.getLsbD_allOnes, decide_eq_true (Nat.mod_lt j hw)]

/-- Without a clear bit all bits are set. -/
lemma firstClear_eq_none (hw : 0 < w) {count : ℕ} (h : firstClear words count = none)
    (hi : i < count * w) : bit words i = true := by
  have hdiv : i / w < count := by
    rw [Nat.div_lt_iff_lt_mul hw]
    exact hi
  have hfull := List.find?_eq_none.mp (Option.map_eq_none_iff.mp h) (i / w)
    (List.mem_range.mpr hdiv)
  have hones : words (i / w) = BitVec.allOnes w := by simpa using hfull
  rw [bit, hones, BitVec.getLsbD_allOnes, decide_eq_true (Nat.mod_lt i hw)]

end Bitmap

end ProgLib
