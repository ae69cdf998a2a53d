import Mathlib

/-!
# Byte buffers

A buffer of a fixed size starts out filled with zeros, and `setBytes` copies bytes into it; bytes
that do not fit are an error.  Where the copies are made at increasing places, the buffer is at each
time what was written, filled up with zeros (`padTo`, `setBytes_padTo`).  `Holds` says what bytes
lie at a place, whatever lies around them.
-/

namespace ProgLib

variable {α : Type}

/-! ## Bytes at a place -/

/-- The bytes from `off` on begin with `xs`. -/
def Holds (buf : List α) (off : ℕ) (xs : List α) : Prop := xs <+: buf.drop off

/-- A buffer holds all its bytes. -/
lemma Holds.refl (buf : List α) : Holds buf 0 buf := List.prefix_rfl

/-- Two runs of bytes, one after the other. -/
lemma holds_append {buf xs ys : List α} {off : ℕ} :
    Holds buf off (xs ++ ys) ↔ Holds buf off xs ∧ Holds buf (off + xs.length) ys := by
  unfold Holds
  rw [← List.drop_drop]
  constructor
  · rintro ⟨rest, hrest⟩
    rw [← hrest, List.append_assoc, List.drop_left' rfl]
    exact ⟨List.prefix_append _ _, List.prefix_append _ _⟩
  · rintro ⟨⟨rest, hrest⟩, hys⟩
    rw [← hrest, List.drop_left' rfl] at hys
    rw [← hrest]
    exact (List.prefix_append_right_inj xs).mpr hys

/-- The bytes that a buffer holds, read back. -/
lemma Holds.take {buf xs : List α} {off : ℕ} (h : Holds buf off xs) :
    (buf.drop off).take xs.length = xs :=
  (List.prefix_iff_eq_take.mp h).symm

/-- One of the bytes that a buffer holds. -/
lemma Holds.getD {buf xs : List α} {off i : ℕ} (h : Holds buf off xs) (hi : i < xs.length) (d : α) :
    buf.getD (off + i) d = xs.getD i d := by
  obtain ⟨rest, hrest⟩ := h
  rw [List.getD_eq_getElem?_getD, ← List.getElem?_drop, ← hrest, List.getElem?_append_left hi,
    ← List.getD_eq_getElem?_getD]

/-- Runs of bytes with their places, each right behind the one before it. -/
def Consecutive : ℕ → List (List α × ℕ) → Prop
  | _, [] => True
  | off, part :: parts => part.2 = off ∧ Consecutive (off + part.1.length) parts

/-- A buffer that holds consecutive runs holds each of them at its place. -/
lemma Holds.of_consecutive {buf : List α} {off : ℕ} {parts : List (List α × ℕ)}
    (h : Holds buf off (parts.flatMap Prod.fst)) (hparts : Consecutive off parts) :
    ∀ part ∈ parts, Holds buf part.2 part.1 := by
  induction parts generalizing off with
  | nil => exact fun part hpart => absurd hpart List.not_mem_nil
  | cons part parts ih =>
    obtain ⟨hoff, hrest⟩ := hparts
    rw [List.flatMap_cons, holds_append] at h
    rw [List.forall_mem_cons]
    exact ⟨hoff ▸ h.1, ih h.2 hrest⟩

/-! ## Buffers that are filled from the front -/

variable [Zero α]

/-- The bytes, filled up with zeros to the size. -/
def padTo (bytes : List α) (size : ℕ) : List α :=
  bytes ++ List.replicate (size - bytes.length) 0

/-- Nothing is filled up to its own size. -/
lemma padTo_length (bytes : List α) : padTo bytes bytes.length = bytes := by
  rw [padTo, Nat.sub_self, List.replicate_zero, List.append_nil]

/-- The size of what is filled up. -/
lemma length_padTo {bytes : List α} {size : ℕ} (h : bytes.length ≤ size) :
    (padTo bytes size).length = size := by
  rw [padTo, List.length_append, List.length_replicate, Nat.add_sub_cancel' h]

/-- Filling up after a first part. -/
lemma padTo_append (pre bytes : List α) (size : ℕ) :
    padTo (pre ++ bytes) (pre.length + size) = pre ++ padTo bytes size := by
  rw [padTo, padTo, List.length_append, Nat.add_sub_add_left, List.append_assoc]

/-- Copy the bytes `src` to the place `off` of the buffer, if they fit. -/
def setBytes (buf src : List α) (off : ℕ) : Option (List α) :=
  if off + src.length ≤ buf.length then
    some (buf.take off ++ src ++ buf.drop (off + src.length))
  else none

/-- A copy behind what was written fills up to its place. -/
lemma setBytes_padTo {pre src : List α} {off size : ℕ} (hpre : pre.length ≤ off)
    (hsize : off + src.length ≤ size) :
    setBytes (padTo pre size) src off = some (padTo (padTo pre off ++ src) size) := by
  have htake : (padTo pre size).take off = padTo pre off := by
    rw [padTo, padTo, List.take_append, List.take_of_length_le hpre, List.take_replicate,
      Nat.min_eq_left (by omega)]
  have hdrop : (padTo pre size).drop (off + src.length) =
      List.replicate (size - (off + src.length)) 0 := by
    rw [padTo, List.drop_append, List.drop_of_length_le (by omega), List.nil_append,
      List.drop_replicate]
    congr 1
    omega
  have hlen : (padTo pre off ++ src).length = off + src.length := by
    rw [List.length_append, length_padTo hpre]
  rw [setBytes, if_pos (by rwa [length_padTo (by omega)]), htake, hdrop, ← hlen]
  rfl

/-- A copy right behind what was written. -/
lemma setBytes_padTo_length {pre src : List α} {off size : ℕ} (hpre : pre.length = off)
    (hsize : off + src.length ≤ size) :
    setBytes (padTo pre size) src off = some (padTo (pre ++ src) size) := by
  subst hpre
  rw [setBytes_padTo le_rfl hsize, padTo_length]

/-- Consecutive runs are copied one behind the other. -/
lemma foldlM_setBytes {pre : List α} {size : ℕ} {parts : List (List α × ℕ)}
    (h : Consecutive pre.length parts)
    (hsize : pre.length + (parts.flatMap Prod.fst).length ≤ size) :
    parts.foldlM (fun buf part => setBytes buf part.1 part.2) (padTo pre size) =
      some (padTo (pre ++ parts.flatMap Prod.fst) size) := by
  induction parts generalizing pre with
  | nil => simp
  | cons part parts ih =>
    obtain ⟨bytes, off⟩ := part
    obtain ⟨rfl, hrest⟩ := h
    rw [List.flatMap_cons, List.length_append] at hsize
    change Consecutive (pre.length + bytes.length) parts at hrest
    change pre.length + (bytes.length + (parts.flatMap Prod.fst).length) ≤ size at hsize
    have hhead : setBytes (padTo pre size) bytes pre.length = some (padTo (pre ++ bytes) size) :=
      setBytes_padTo_length rfl (by omega)
    rw [List.foldlM_cons, hhead, Option.bind_eq_bind, Option.bind_some]
    rw [ih (by rwa [List.length_append]) (by rw [List.length_append]; omega), List.flatMap_cons,
      List.append_assoc]

end ProgLib
