import ZiranOS.Frames.Refinement

/-!
# What the allocator will answer

A caller that only allocates takes the free frames in order.  `answer` is the frame that it will
get for one of its next requests; nothing but the bitmap decides it (`Refines.answer_eq`).  A frame
that was handed out is not free any more (`FrameSet.answer_spec`), so no two requests get the same
one (`FrameSet.answer_inj`).
-/

namespace ZiranOS

open ProgLib

/-! ## Sets of free frames -/

namespace FrameSet

variable {S : Finset ℕ} {m n f : ℕ}

/-- The free frames after one request. -/
def rest (S : Finset ℕ) : Finset ℕ := (call S .alloc).1

/-- The answer to one of the next requests, by its number: the start of a frame. -/
def answer (S : Finset ℕ) (n : ℕ) : Option ℕ :=
  if h : (rest^[n] S).Nonempty then some ((rest^[n] S).min' h * physFrameSize) else none

/-- A request takes the least free frame. -/
lemma rest_of_nonempty (h : S.Nonempty) : rest S = S.erase (S.min' h) := by
  rw [rest, call, dif_pos h]

/-- A request without a free frame changes nothing. -/
lemma rest_of_empty (h : ¬ S.Nonempty) : rest S = S := by
  rw [rest, call, dif_neg h]

/-- Requests only take frames. -/
lemma rest_subset (S : Finset ℕ) : rest S ⊆ S := by
  by_cases h : S.Nonempty
  · rw [rest_of_nonempty h]
    exact Finset.erase_subset _ _
  · rw [rest_of_empty h]

/-- More requests leave fewer frames. -/
lemma iterate_rest_subset (S : Finset ℕ) (hle : m ≤ n) : rest^[n] S ⊆ rest^[m] S := by
  induction n, hle using Nat.le_induction with
  | base => exact Finset.Subset.refl _
  | succ n _ ih =>
    rw [Function.iterate_succ_apply']
    exact (rest_subset _).trans ih

/-- A request returns the first answer. -/
lemma call_alloc_snd (S : Finset ℕ) :
    (call S .alloc).2 = .allocated ((answer S 0).map PhysFrame.mk) := by
  by_cases h : S.Nonempty
  · have hanswer : answer S 0 = some (S.min' h * physFrameSize) := dif_pos h
    rw [hanswer, call, dif_pos h, Option.map_some]
  · have hanswer : answer S 0 = none := dif_neg h
    rw [hanswer, call, dif_neg h, Option.map_none]

/-- The answers after some requests are the later answers. -/
lemma answer_add (S : Finset ℕ) (m n : ℕ) : answer (rest^[m] S) n = answer S (m + n) := by
  rw [answer, answer, Nat.add_comm m n, Function.iterate_add_apply]

/-- **An answer is a frame that was free**, and is free no more. -/
lemma answer_spec (h : answer S n = some f) :
    ∃ i ∈ rest^[n] S, f = i * physFrameSize ∧ i ∉ rest^[n + 1] S := by
  unfold answer at h
  split_ifs at h with hne
  refine ⟨_, Finset.min'_mem _ hne, (Option.some.inj h).symm, ?_⟩
  rw [Function.iterate_succ_apply', rest_of_nonempty hne]
  exact Finset.notMem_erase _ _

/-- **No two requests get the same frame.** -/
lemma answer_inj (hm : answer S m = some f) (hn : answer S n = some f) : m = n := by
  have hlt : ∀ {m n}, answer S m = some f → answer S n = some f → ¬ m < n := by
    intro m n hm hn hlt
    obtain ⟨i, -, rfl, hi⟩ := answer_spec hm
    obtain ⟨j, hj, hij, -⟩ := answer_spec hn
    obtain rfl : i = j := Nat.eq_of_mul_eq_mul_right (by decide) hij
    exact hi (iterate_rest_subset S hlt hj)
  exact Nat.le_antisymm (not_lt.mp (hlt hn hm)) (not_lt.mp (hlt hm hn))

/-- A request takes a frame if there is one. -/
lemma card_rest (S : Finset ℕ) : (rest S).card = S.card - 1 := by
  by_cases h : S.Nonempty
  · rw [rest_of_nonempty h, Finset.card_erase_of_mem (Finset.min'_mem S h)]
  · rw [rest_of_empty h, Finset.not_nonempty_iff_eq_empty.mp h, Finset.card_empty]

/-- Every request takes a frame as long as there is one. -/
lemma card_iterate_rest (S : Finset ℕ) (n : ℕ) : (rest^[n] S).card = S.card - n := by
  induction n with
  | zero => rfl
  | succ n ih => rw [Function.iterate_succ_apply', card_rest, ih, Nat.sub_sub]

/-- **As many requests are answered as there are free frames.** -/
lemma answer_isSome_iff {S : Finset ℕ} {n : ℕ} : (answer S n).isSome ↔ n < S.card := by
  have hcard := card_iterate_rest S n
  rw [answer]
  split_ifs with h
  · have hpos := Finset.card_pos.mpr h
    exact iff_of_true rfl (by omega)
  · have hzero := Finset.card_eq_zero.mpr (Finset.not_nonempty_iff_eq_empty.mp h)
    exact iff_of_false Bool.false_ne_true (by omega)

/-- A frame that requests have taken is the answer to one of them. -/
lemma mem_iterate_rest_or {i : ℕ} (hi : i ∈ S) : ∀ m,
    i ∈ rest^[m] S ∨ ∃ j < m, answer S j = some (i * physFrameSize) := by
  intro m
  induction m with
  | zero => exact .inl hi
  | succ m ih =>
    rcases ih with hmem | ⟨j, hj, hanswer⟩
    · rw [Function.iterate_succ_apply']
      have hne : (rest^[m] S).Nonempty := ⟨i, hmem⟩
      by_cases hmin : i = (rest^[m] S).min' hne
      · refine .inr ⟨m, Nat.lt_succ_self m, ?_⟩
        rw [answer, dif_pos hne, hmin]
      · rw [rest_of_nonempty hne]
        exact .inl (Finset.mem_erase.mpr ⟨hmin, hmem⟩)
    · exact .inr ⟨j, hj.trans (Nat.lt_succ_self m), hanswer⟩

end FrameSet

/-! ## The bitmap -/

namespace FrameAllocator

/-- The allocator after a number of requests. -/
def advance (a : FrameAllocator) : ℕ → Exec Unit FrameAllocator
  | 0 => pure a
  | n + 1 => do
    let (a, _) ← a.alloc
    a.advance n

/-- The answer that the allocator will give to one of the next requests, by its number. -/
def answer (a : FrameAllocator) (n : ℕ) : Option ℕ :=
  match (do let a ← a.advance n; a.alloc : Exec Unit (FrameAllocator × Option PhysFrame)) with
  | .ok (_, some frame) => some frame.start
  | _ => none

end FrameAllocator

namespace Refines

variable {a : FrameAllocator} {S : Finset ℕ}

/-- One request to the bitmap. -/
lemma alloc_answer (h : Refines a S) : ∃ a',
    a.alloc = .ok (a', (FrameSet.answer S 0).map PhysFrame.mk) ∧ Refines a' (FrameSet.rest S) := by
  obtain ⟨a', hcall, hrest⟩ := h.alloc_eq
  obtain ⟨⟨a₁, frame⟩, halloc, hret⟩ := Exec.bind_eq_ok.mp hcall
  obtain ⟨rfl, hframe⟩ := Prod.mk.inj (Except.ok.inj hret)
  rw [FrameSet.call_alloc_snd] at hframe
  obtain rfl := FrameResult.allocated.inj hframe
  exact ⟨a₁, halloc, hrest⟩

/-- **Requests to the bitmap are requests to the set.** -/
lemma advance_eq (n : ℕ) (h : Refines a S) : ∃ a',
    a.advance n = .ok a' ∧ Refines a' (FrameSet.rest^[n] S) := by
  induction n generalizing a S with
  | zero => exact ⟨a, rfl, h⟩
  | succ n ih =>
    obtain ⟨a₁, halloc, h₁⟩ := h.alloc_answer
    obtain ⟨a', hrun, h'⟩ := ih h₁
    refine ⟨a', ?_, h'⟩
    rw [FrameAllocator.advance, halloc, Exec.bind_ok]
    exact hrun

/-- **The answers of the bitmap are those of the set.** -/
lemma answer_eq (h : Refines a S) (n : ℕ) : a.answer n = FrameSet.answer S n := by
  obtain ⟨a₁, hadvance, h₁⟩ := h.advance_eq n
  obtain ⟨a', halloc, -⟩ := h₁.alloc_answer
  rw [FrameAllocator.answer, hadvance, Exec.bind_ok, halloc, FrameSet.answer_add, Nat.add_zero]
  cases FrameSet.answer S n <;> rfl

end Refines

end ZiranOS
