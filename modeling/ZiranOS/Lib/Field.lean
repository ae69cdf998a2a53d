import Mathlib

/-!
# Fields in memory

A memory is a function from addresses to bytes.  `BytesAt` says which bytes lie at an address, and
`leField` are the bytes of a number, the lowest first.
-/

namespace ProgLib

variable {α : Type} {mem : ℕ → α} {a : ℕ}

/-- The bytes lie in memory from the address on. -/
def BytesAt (mem : ℕ → α) (a : ℕ) (xs : List α) : Prop :=
  ∀ i (hi : i < xs.length), mem (a + i) = xs[i]

/-- Two runs of bytes, one behind the other. -/
lemma bytesAt_append {xs ys : List α} :
    BytesAt mem a (xs ++ ys) ↔ BytesAt mem a xs ∧ BytesAt mem (a + xs.length) ys := by
  constructor
  · intro h
    constructor
    · intro i hi
      have hi' : i < (xs ++ ys).length := by
        rw [List.length_append]
        omega
      rw [h i hi', List.getElem_append_left hi]
    · intro i hi
      have hi' : xs.length + i < (xs ++ ys).length := by
        rw [List.length_append]
        omega
      rw [Nat.add_assoc, h _ hi', List.getElem_append_right (Nat.le_add_right _ _)]
      simp only [Nat.add_sub_cancel_left]
  · rintro ⟨hxs, hys⟩ i hi
    rcases Nat.lt_or_ge i xs.length with hlt | hge
    · rw [hxs i hlt, List.getElem_append_left hlt]
    · have hi' : i - xs.length < ys.length := by
        rw [List.length_append] at hi
        omega
      have haddr : a + i = a + xs.length + (i - xs.length) := by omega
      rw [haddr, hys _ hi', List.getElem_append_right hge]

/-- A memory with the given bytes at an address. -/
lemma bytesAt_getD (a : ℕ) (xs : List α) (d : α) : BytesAt (fun b => xs.getD (b - a) d) a xs := by
  intro i hi
  dsimp only
  rw [Nat.add_sub_cancel_left, List.getD_eq_getElem _ _ hi]

/-- The `n` low bytes of a number, the lowest first. -/
def leField (n v : ℕ) : List UInt8 := (List.range n).map fun i => UInt8.ofNat (v / 256 ^ i)

example : leField 4 0x10204 = [4, 2, 1, 0] := by decide

/-- A field has the given number of bytes. -/
@[simp] lemma length_leField (n v : ℕ) : (leField n v).length = n := by
  rw [leField, List.length_map, List.length_range]

/-- A byte of a field. -/
lemma toNat_of_bytesAt {mem : ℕ → UInt8} {n v i : ℕ} (h : BytesAt mem a (leField n v))
    (hi : i < n) : (mem (a + i)).toNat = v / 256 ^ i % 256 := by
  have hbyte := h i (by rwa [length_leField])
  rw [hbyte]
  simp only [leField, List.getElem_map, List.getElem_range, UInt8.toNat_ofNat']

end ProgLib
