import Mathlib

/-!
# The bytes of a memory of words

A memory that is accessed in words of eight bytes, at multiples of eight, also has a byte at every
address: the byte `a` is one of the eight of the word that contains it, the low byte first.  A store
of one byte changes that byte and no other (`byteAt_setByte`), and no other word (`setByte_of_ne`).
-/

namespace ProgLib

namespace Lanes

variable {w i j a x : ℕ} {b : UInt8} {mem mem' : ℕ → ℕ}

/-! ## Words -/

/-- The byte of a word at the given place, counted from the low end. -/
def lane (w i : ℕ) : UInt8 := UInt8.ofNat (w / 256 ^ i)

/-- The word with another byte at the given place. -/
def setLane (w i : ℕ) (b : UInt8) : ℕ :=
  w / 256 ^ (i + 1) * 256 ^ (i + 1) + (b.toNat * 256 ^ i + w % 256 ^ i)

/-- Words that agree from a place on have the same bytes there. -/
lemma lane_congr_div (hij : i ≤ j) (h : w / 256 ^ i = x / 256 ^ i) : lane w j = lane x j := by
  obtain ⟨k, rfl⟩ := Nat.exists_eq_add_of_le hij
  rw [lane, lane, Nat.pow_add, ← Nat.div_div_eq_div_mul, ← Nat.div_div_eq_div_mul, h]

/-- Words that agree up to a place have the same bytes there. -/
lemma lane_congr_mod (hij : j < i) (h : w % 256 ^ i = x % 256 ^ i) : lane w j = lane x j := by
  obtain ⟨k, rfl⟩ := Nat.exists_eq_add_of_lt hij
  have hbyte : ∀ y, y / 256 ^ j % 256 = y % 256 ^ (j + k + 1) / 256 ^ j % 256 := by
    intro y
    rw [Nat.add_assoc, Nat.pow_add, Nat.mod_mul_right_div_self, Nat.pow_succ',
      Nat.mod_mul_right_mod]
  apply UInt8.toNat_inj.mp
  rw [lane, lane, UInt8.toNat_ofNat', UInt8.toNat_ofNat']
  exact (hbyte w).trans ((congrArg (fun y => y / 256 ^ j % 256) h).trans (hbyte x).symm)

/-- The low part of the new word is shorter than what it replaces. -/
lemma low_lt (w i : ℕ) (b : UInt8) : b.toNat * 256 ^ i + w % 256 ^ i < 256 ^ (i + 1) := by
  have hmod : w % 256 ^ i < 256 ^ i := Nat.mod_lt _ (by positivity)
  have hbyte : (b.toNat + 1) * 256 ^ i ≤ 256 * 256 ^ i :=
    Nat.mul_le_mul_right _ (UInt8.toNat_lt b)
  rw [Nat.pow_succ']
  calc b.toNat * 256 ^ i + w % 256 ^ i < b.toNat * 256 ^ i + 256 ^ i := Nat.add_lt_add_left hmod _
    _ = (b.toNat + 1) * 256 ^ i := by ring
    _ ≤ 256 * 256 ^ i := hbyte

/-- **The bytes of a word with one byte replaced.** -/
lemma lane_setLane : lane (setLane w i b) j = if j = i then b else lane w j := by
  split_ifs with hij
  · subst hij
    have hmod : w % 256 ^ j < 256 ^ j := Nat.mod_lt _ (by positivity)
    have hdiv : setLane w j b / 256 ^ j = w / 256 ^ (j + 1) * 256 + b.toNat := by
      have hsum : setLane w j b =
          w % 256 ^ j + 256 ^ j * (w / 256 ^ (j + 1) * 256 + b.toNat) := by
        rw [setLane, Nat.pow_succ]
        ring
      rw [hsum, Nat.add_mul_div_left _ _ (by positivity), Nat.div_eq_of_lt hmod, Nat.zero_add]
    apply UInt8.toNat_inj.mp
    have hb := UInt8.toNat_lt b
    rw [lane, UInt8.toNat_ofNat', hdiv]
    omega
  · rcases Nat.lt_or_ge j i with hlt | hge
    · refine lane_congr_mod hlt ?_
      have hsum : setLane w i b =
          w % 256 ^ i + 256 ^ i * (w / 256 ^ (i + 1) * 256 + b.toNat) := by
        rw [setLane, Nat.pow_succ]
        ring
      rw [hsum, Nat.add_mul_mod_self_left, Nat.mod_mod]
    · have hlt : i + 1 ≤ j := by omega
      refine lane_congr_div hlt ?_
      rw [setLane, Nat.add_comm, Nat.add_mul_div_right _ _ (by positivity),
        Nat.div_eq_of_lt (low_lt w i b), Nat.zero_add]

/-! ## Memories -/

/-- The byte at an address. -/
def byteAt (mem : ℕ → ℕ) (a : ℕ) : UInt8 := lane (mem (a / 8 * 8)) (a % 8)

/-- The memory with another byte at an address. -/
def setByte (mem : ℕ → ℕ) (a : ℕ) (b : UInt8) : ℕ → ℕ :=
  Function.update mem (a / 8 * 8) (setLane (mem (a / 8 * 8)) (a % 8) b)

/-- **A store of a byte changes that byte and no other.** -/
lemma byteAt_setByte : byteAt (setByte mem a b) x = if x = a then b else byteAt mem x := by
  rw [byteAt, setByte, Function.update_apply]
  split_ifs with hword hbyte hbyte
  · subst hbyte
    rw [lane_setLane, if_pos rfl]
  · have hne : ¬ x % 8 = a % 8 := by omega
    rw [lane_setLane, if_neg hne, byteAt, hword]
  · exact absurd (congrArg (· / 8 * 8) hbyte) hword
  · rfl

/-- A store of a byte changes no other word. -/
lemma setByte_of_ne (h : x ≠ a / 8 * 8) : setByte mem a b x = mem x :=
  Function.update_of_ne h _ _

/-- A byte depends on its word only. -/
lemma byteAt_congr (h : mem (a / 8 * 8) = mem' (a / 8 * 8)) : byteAt mem a = byteAt mem' a := by
  rw [byteAt, byteAt, h]

end Lanes

end ProgLib
