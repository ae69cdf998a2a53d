import Mathlib

/-!
# Queues in growing buffers

A `Deque` is a queue in a buffer with room for `cap` elements.  Only a push into a full buffer
calls the allocator, for a larger one; the buffer never shrinks.  How much larger is the choice of
the container, a `Growth`.

So a queue that has held an element has room for one from then on (`cap_pushBack_pos`), and an
element that was just taken out leaves room for another (`not_full_popFront`).
-/

namespace ProgLib

/-- How a container chooses the capacity after a full buffer. -/
structure Growth where
  next : ℕ → ℕ
  /-- The new buffer is larger. -/
  lt_next : ∀ cap, cap < next cap

/-- A queue in a buffer. -/
structure Deque (α : Type*) where
  /-- The elements, oldest first. -/
  items : List α
  /-- The number of elements the buffer has room for. -/
  cap : ℕ
  /-- The elements lie in the buffer. -/
  length_le : items.length ≤ cap

namespace Deque

variable {α : Type*}

/-- A queue without a buffer. -/
def empty : Deque α := ⟨[], 0, le_rfl⟩

/-- The buffer has no room left. -/
def full (q : Deque α) : Bool := q.items.length == q.cap

/-- Add an element at the end; a full buffer is replaced by a larger one. -/
def pushBack (g : Growth) (q : Deque α) (x : α) : Deque α where
  items := q.items ++ [x]
  cap := if q.full then g.next q.cap else q.cap
  length_le := by
    have hle := q.length_le
    have hlt := g.lt_next q.cap
    rw [List.length_append, List.length_singleton]
    split_ifs with hfull
    · omega
    · have hne : q.items.length ≠ q.cap := fun heq => hfull (beq_iff_eq.mpr heq)
      omega

/-- Take the first element out. -/
def popFront (q : Deque α) : Option α × Deque α :=
  (q.items.head?, ⟨q.items.tail, q.cap, (List.length_tail ▸ Nat.sub_le _ _).trans q.length_le⟩)

@[simp] lemma popFront_fst (q : Deque α) : q.popFront.1 = q.items.head? := rfl

@[simp] lemma items_popFront (q : Deque α) : q.popFront.2.items = q.items.tail := rfl

@[simp] lemma cap_popFront (q : Deque α) : q.popFront.2.cap = q.cap := rfl

/-- A buffer never shrinks. -/
lemma cap_le_pushBack (g : Growth) (q : Deque α) (x : α) : q.cap ≤ (q.pushBack g x).cap := by
  have hlt := g.lt_next q.cap
  unfold pushBack
  split_ifs
  · exact hlt.le
  · exact le_rfl

/-- A queue with an element has a buffer. -/
lemma cap_pos {q : Deque α} (h : q.items ≠ []) : 0 < q.cap :=
  (List.length_pos_iff.mpr h).trans_le q.length_le

/-- After a push there is a buffer. -/
lemma cap_pushBack_pos (g : Growth) (q : Deque α) (x : α) : 0 < (q.pushBack g x).cap :=
  cap_pos (List.append_ne_nil_of_right_ne_nil _ (List.cons_ne_nil x []))

/-- A queue with fewer elements than its buffer has room for is not full. -/
lemma full_eq_false {q : Deque α} : q.full = false ↔ q.items.length < q.cap := by
  have hle := q.length_le
  rw [full, beq_eq_false_iff_ne]
  omega

/-- An element that was taken out leaves room for another. -/
lemma not_full_popFront {q : Deque α} (h : q.items ≠ []) : q.popFront.2.full = false := by
  have hpos := List.length_pos_iff.mpr h
  have hle := q.length_le
  rw [full_eq_false, items_popFront, cap_popFront, List.length_tail]
  omega

end Deque

end ProgLib
