import Mathlib

/-!
# Ring buffers

A ring buffer of `cap` cells is given by two indices below `cap`: the cells from `head` on, up to
but not including `tail`, hold the elements of a queue, oldest first.  One cell is always left
empty, so that equal indices mean an empty queue.

The file contains the arithmetic of the indices and what moving one of them does to the queue
(`contents_push`, `contents_pop`) and to the set of the cells in use (`held_push`, `held_pop`).
-/

namespace ProgLib

namespace Ring

variable {α : Type*} {cap head tail : ℕ}

/-- The index after `i`. -/
def next (cap i : ℕ) : ℕ := (i + 1) % cap

/-- The number of elements in the queue. -/
def span (cap head tail : ℕ) : ℕ := (tail + cap - head) % cap

/-- The index of the element at position `k`. -/
def slot (cap head k : ℕ) : ℕ := (head + k) % cap

/-- The elements of the queue, oldest first. -/
def contents (cap : ℕ) (cells : ℕ → α) (head tail : ℕ) : List α :=
  (List.range (span cap head tail)).map fun k => cells (slot cap head k)

/-- The cell with index `i` holds an element of the queue. -/
def Held (cap head tail i : ℕ) : Prop := ∃ k < span cap head tail, slot cap head k = i

/-! ## Arithmetic of indices -/

/-- A remainder that wraps around once at most. -/
lemma mod_eq_ite {x : ℕ} (h : x < 2 * cap) : x % cap = if x < cap then x else x - cap := by
  split_ifs with hlt
  · exact Nat.mod_eq_of_lt hlt
  · rw [Nat.mod_eq_sub_mod (by omega), Nat.mod_eq_of_lt (by omega)]

/-- The next index is below the capacity. -/
lemma next_lt (h : head < cap) : next cap head < cap := Nat.mod_lt _ (by omega)

/-- Different indices have different successors. -/
lemma next_inj (hhead : head < cap) (htail : tail < cap) (h : next cap head = next cap tail) :
    head = tail := by
  rw [next, next, mod_eq_ite (by omega), mod_eq_ite (by omega)] at h
  split_ifs at h <;> omega

/-- The queue never fills all cells. -/
lemma span_lt (hhead : head < cap) : span cap head tail < cap := Nat.mod_lt _ (by omega)

/-- The queue is empty exactly if the indices are equal. -/
lemma span_eq_zero_iff (hhead : head < cap) (htail : tail < cap) :
    span cap head tail = 0 ↔ head = tail := by
  rw [span, mod_eq_ite (by omega)]
  split_ifs <;> omega

/-- The queue is full exactly if the next index after its end is its start. -/
lemma next_eq_iff (hhead : head < cap) (htail : tail < cap) :
    next cap tail = head ↔ span cap head tail + 1 = cap := by
  rw [next, span, mod_eq_ite (by omega), mod_eq_ite (by omega)]
  split_ifs <;> omega

/-- The queue grows by one at its end. -/
lemma span_next_tail (hhead : head < cap) (htail : tail < cap) (h : next cap tail ≠ head) :
    span cap head (next cap tail) = span cap head tail + 1 := by
  have hnext := next_lt htail
  rw [next, mod_eq_ite (by omega)] at h hnext ⊢
  rw [span, span, mod_eq_ite (by omega), mod_eq_ite (by omega)]
  split_ifs at * <;> omega

/-- The queue shrinks by one at its start. -/
lemma span_next_head (hhead : head < cap) (htail : tail < cap) (h : head ≠ tail) :
    span cap head tail = span cap (next cap head) tail + 1 := by
  have hnext := next_lt hhead
  rw [next, mod_eq_ite (by omega)] at hnext ⊢
  rw [span, span, mod_eq_ite (by omega), mod_eq_ite (by omega)]
  split_ifs at * <;> omega

/-- The cell after the last element is the one at `tail`. -/
lemma slot_span (hhead : head < cap) (htail : tail < cap) :
    slot cap head (span cap head tail) = tail := by
  have hspan : span cap head tail < cap := span_lt hhead
  rw [span, mod_eq_ite (by omega)] at hspan ⊢
  rw [slot, mod_eq_ite (by omega)]
  split_ifs at * <;> omega

/-- Positions count from the next index on. -/
lemma slot_next (cap head k : ℕ) : slot cap (next cap head) k = slot cap head (k + 1) := by
  rw [slot, slot, next, Nat.mod_add_mod, Nat.add_right_comm, Nat.add_assoc]

/-- The first element is at `head`. -/
lemma slot_zero (hhead : head < cap) : slot cap head 0 = head := Nat.mod_eq_of_lt hhead

/-- Different positions have different cells. -/
lemma slot_inj {j k : ℕ} (hhead : head < cap) (hj : j < cap) (hk : k < cap)
    (h : slot cap head j = slot cap head k) : j = k := by
  rw [slot, slot, mod_eq_ite (by omega), mod_eq_ite (by omega)] at h
  split_ifs at h <;> omega

/-! ## Moving an index -/

/-- The cell at the end of the queue is not in use. -/
lemma not_held_tail (hhead : head < cap) (htail : tail < cap) : ¬ Held cap head tail tail := by
  rintro ⟨k, hk, hslot⟩
  have hspan : span cap head tail < cap := span_lt hhead
  exact hk.ne (slot_inj hhead (hk.trans hspan) hspan (by rw [hslot, slot_span hhead htail]))

/-- The first cell of a queue that is not empty is in use. -/
lemma held_head (hhead : head < cap) (htail : tail < cap) (h : head ≠ tail) :
    Held cap head tail head :=
  ⟨0, by rw [Nat.pos_iff_ne_zero, ne_eq, span_eq_zero_iff hhead htail]; exact h, slot_zero hhead⟩

/-- Moving the end puts one more cell in use. -/
lemma held_push (hhead : head < cap) (htail : tail < cap) (h : next cap tail ≠ head) (i : ℕ) :
    Held cap head (next cap tail) i ↔ Held cap head tail i ∨ i = tail := by
  simp only [Held, span_next_tail hhead htail h, Nat.lt_succ_iff_lt_or_eq, or_and_right, exists_or,
    exists_eq_left, slot_span hhead htail, eq_comm (a := tail)]

/-- Moving the start releases the first cell. -/
lemma held_pop (hhead : head < cap) (htail : tail < cap) (h : head ≠ tail) (i : ℕ) :
    Held cap (next cap head) tail i ↔ Held cap head tail i ∧ i ≠ head := by
  have hspan := span_next_head hhead htail h
  have hlt : span cap head tail < cap := span_lt hhead
  constructor
  · rintro ⟨k, hk, rfl⟩
    rw [slot_next]
    refine ⟨⟨k + 1, by omega, rfl⟩, fun heq => ?_⟩
    have := slot_inj hhead (by omega) (by omega) (heq.trans (slot_zero hhead).symm)
    omega
  · rintro ⟨⟨k, hk, rfl⟩, hne⟩
    match k with
    | 0 => exact absurd (slot_zero hhead) hne
    | k + 1 => exact ⟨k, by omega, slot_next cap head k⟩

/-- Moving the end appends the element of its cell. -/
lemma contents_push (cells : ℕ → α) (hhead : head < cap) (htail : tail < cap)
    (h : next cap tail ≠ head) :
    contents cap cells head (next cap tail) = contents cap cells head tail ++ [cells tail] := by
  rw [contents, span_next_tail hhead htail h, List.range_succ, List.map_append, List.map_singleton,
    slot_span hhead htail, contents]

/-- Moving the start takes the element of the first cell. -/
lemma contents_pop (cells : ℕ → α) (hhead : head < cap) (htail : tail < cap) (h : head ≠ tail) :
    contents cap cells head tail = cells head :: contents cap cells (next cap head) tail := by
  rw [contents, span_next_head hhead htail h, List.range_succ_eq_map, List.map_cons,
    slot_zero hhead, List.map_map, contents]
  simp only [Function.comp_def, slot_next]

/-- Writing the cell at the end changes no element. -/
lemma contents_update_tail (cells : ℕ → α) (a : α) (hhead : head < cap) (htail : tail < cap) :
    contents cap (Function.update cells tail a) head tail = contents cap cells head tail := by
  refine List.map_congr_left fun k hk => Function.update_of_ne (fun heq => ?_) _ _
  exact not_held_tail hhead htail ⟨k, List.mem_range.mp hk, heq⟩

/-- The number of elements of the queue. -/
lemma length_contents (cells : ℕ → α) :
    (contents cap cells head tail).length = span cap head tail := by
  rw [contents, List.length_map, List.length_range]

end Ring

end ProgLib
