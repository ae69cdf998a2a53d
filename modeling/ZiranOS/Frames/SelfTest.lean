import ZiranOS.Frames.Refinement

/-!
# The self-test of the allocator

On the machine the allocator is tested once: three frames are taken, one is given back and has to be
taken again next, one is given back twice, one does not exist, and in the end all are back.  For an
allocator that refines a set the test passes exactly if three frames are free, and it leaves the set
as it was (`Refines.selfTest_eq`).
-/

namespace ZiranOS

open ProgLib

namespace FrameAllocator

/-- A frame that has to be there. -/
def expectFrame (a : FrameAllocator) : Exec Unit (FrameAllocator × PhysFrame) := do
  match ← a.alloc with
  | (a, some frame) => pure (a, frame)
  | (_, none) => Exec.panic .assertion

/-- The test. -/
def selfTest (al : FrameAllocator) : Exec Unit FrameAllocator := do
  let startFree := al.freeFrames
  let (al, a) ← al.expectFrame
  let (al, b) ← al.expectFrame
  let (al, c) ← al.expectFrame
  Exec.assert (a ≠ b ∧ b ≠ c ∧ a ≠ c)
  Exec.assert (a.start % physFrameSize = 0 ∧ b.start % physFrameSize = 0 ∧
    c.start % physFrameSize = 0)
  let (al, _) ← al.free b
  let (al, reclaimed) ← al.expectFrame
  Exec.assert (reclaimed = b)
  let (al, _) ← al.free c
  let afterSingleFree := al.freeFrames
  let (al, _) ← al.free c
  Exec.assert (al.freeFrames = afterSingleFree)
  let (al, _) ← al.free (.containingAddress maxAddress)
  Exec.assert (al.freeFrames = afterSingleFree)
  let (al, _) ← al.free a
  let (al, _) ← al.free reclaimed
  Exec.assert (al.freeFrames = startFree)
  pure al

end FrameAllocator

namespace Refines

variable {al : FrameAllocator} {S : Finset ℕ} {i : ℕ}

/-- Taking the least free frame. -/
lemma expectFrame_eq (h : Refines al S) (hi : i ∈ S) (hleast : ∀ j ∈ S, i ≤ j) :
    ∃ al', al.expectFrame = .ok (al', ⟨i * physFrameSize⟩) ∧ Refines al' (S.erase i) := by
  have hne : S.Nonempty := ⟨i, hi⟩
  have hmin : S.min' hne = i := le_antisymm (S.min'_le i hi) (S.le_min' hne i hleast)
  obtain ⟨al', hcall, hrefines⟩ := h.alloc_eq
  rw [FrameSet.call, dif_pos hne, hmin] at hcall hrefines
  obtain ⟨⟨al₁, frame⟩, halloc, hret⟩ := Exec.bind_eq_ok.mp hcall
  obtain ⟨rfl, hframe⟩ := Prod.mk.inj (Except.ok.inj hret)
  obtain rfl := FrameResult.allocated.inj hframe
  refine ⟨al₁, ?_, hrefines⟩
  rw [FrameAllocator.expectFrame, halloc]
  rfl

/-- Without a free frame there is none to take. -/
lemma expectFrame_empty (h : Refines al ∅) : al.expectFrame = Exec.panic .assertion := by
  obtain ⟨al', hcall, -⟩ := h.alloc_eq
  rw [FrameSet.call, dif_neg Finset.not_nonempty_empty] at hcall
  obtain ⟨⟨al₁, frame⟩, halloc, hret⟩ := Exec.bind_eq_ok.mp hcall
  obtain ⟨-, hframe⟩ := Prod.mk.inj (Except.ok.inj hret)
  obtain rfl := FrameResult.allocated.inj hframe
  rw [FrameAllocator.expectFrame, halloc]
  rfl

/-- What `free` does to the set. -/
lemma free_outcome (h : Refines al S) (frame : PhysFrame) {S' : Finset ℕ} {outcome : FreeOutcome}
    (hcall : FrameSet.call S (.free frame) = (S', .freed outcome)) :
    ∃ al', al.free frame = .ok (al', outcome) ∧ Refines al' S' := by
  obtain ⟨al', hrun, hrefines⟩ := h.free_eq frame
  rw [hcall] at hrun hrefines
  obtain ⟨⟨al₁, outcome₁⟩, hfree, hret⟩ := Exec.bind_eq_ok.mp hrun
  obtain ⟨rfl, houtcome⟩ := Prod.mk.inj (Except.ok.inj hret)
  obtain rfl := FrameResult.freed.inj houtcome
  exact ⟨al₁, hfree, hrefines⟩

/-- Giving back a used frame. -/
lemma free_used (h : Refines al S) (hi : i < frameCount) (hused : i ∉ S) :
    ∃ al', al.free ⟨i * physFrameSize⟩ = .ok (al', .freed) ∧ Refines al' (insert i S) := by
  have hindex : (PhysFrame.mk (i * physFrameSize)).index = i := Nat.mul_div_cancel i (by decide)
  refine h.free_outcome _ ?_
  rw [FrameSet.call, hindex, if_neg (not_le.mpr hi), if_neg hused]

/-- Giving back a free frame. -/
lemma free_double (h : Refines al S) (hi : i ∈ S) :
    ∃ al', al.free ⟨i * physFrameSize⟩ = .ok (al', .doubleFree) ∧ Refines al' S := by
  have hindex : (PhysFrame.mk (i * physFrameSize)).index = i := Nat.mul_div_cancel i (by decide)
  refine h.free_outcome _ ?_
  rw [FrameSet.call, hindex, if_neg (not_le.mpr (h.below i hi)), if_pos hi]

/-- Giving back a frame that does not exist. -/
lemma free_outOfRange (h : Refines al S) :
    ∃ al', al.free (.containingAddress maxAddress) = .ok (al', .outOfRange) ∧ Refines al' S :=
  h.free_outcome _ <| by rw [FrameSet.call, if_pos (by decide)]

/-- **The test passes exactly if three frames are free**, and leaves the free frames as they were;
otherwise it is a failed assertion. -/
lemma selfTest_eq (h : Refines al S) :
    if 3 ≤ S.card then ∃ al', al.selfTest = .ok al' ∧ Refines al' S
    else al.selfTest = Exec.panic .assertion := by
  -- a set that is not empty has a least frame
  have hleast : ∀ {S : Finset ℕ}, S = ∅ ∨ ∃ i ∈ S, ∀ j ∈ S, i ≤ j := fun {S} => by
    rcases S.eq_empty_or_nonempty with hempty | hne
    · exact .inl hempty
    · exact .inr ⟨S.min' hne, S.min'_mem hne, fun j hj => S.min'_le j hj⟩
  have hcard : ∀ {S : Finset ℕ} {i : ℕ}, i ∈ S → (S.erase i).card + 1 = S.card :=
    fun hi => Finset.card_erase_add_one hi
  unfold FrameAllocator.selfTest
  rcases hleast (S := S) with rfl | ⟨a, ha, hleast₀⟩
  · rw [if_neg (by simp), h.expectFrame_empty]
    rfl
  obtain ⟨al₁, hrun₁, h₁⟩ := h.expectFrame_eq ha hleast₀
  simp only [hrun₁, Exec.bind_ok]
  have hcard₀ := hcard ha
  rcases hleast (S := S.erase a) with hempty | ⟨b, hb, hleast₁⟩
  · rw [hempty] at h₁ hcard₀
    rw [Finset.card_empty] at hcard₀
    rw [if_neg (by omega), h₁.expectFrame_empty]
    rfl
  obtain ⟨al₂, hrun₂, h₂⟩ := h₁.expectFrame_eq hb hleast₁
  simp only [hrun₂, Exec.bind_ok]
  have hcard₁ := hcard hb
  rcases hleast (S := (S.erase a).erase b) with hempty | ⟨c, hc, hleast₂⟩
  · rw [hempty] at h₂ hcard₁
    rw [Finset.card_empty] at hcard₁
    rw [if_neg (by omega), h₂.expectFrame_empty]
    rfl
  obtain ⟨al₃, hrun₃, h₃⟩ := h₂.expectFrame_eq hc hleast₂
  have hcard₂ := hcard hc
  obtain ⟨hba, hbS⟩ := Finset.mem_erase.mp hb
  obtain ⟨hcb, hcS⟩ := Finset.mem_erase.mp hc
  obtain ⟨hca, hcS⟩ := Finset.mem_erase.mp hcS
  have hlt : ∀ {i}, i ∈ S → i < frameCount := fun hi => h.below _ hi
  -- `b` comes back and is the least free frame again
  obtain ⟨al₄, hrun₄, h₄⟩ := h₃.free_used (hlt hbS) (by simp)
  obtain ⟨al₅, hrun₅, h₅⟩ := h₄.expectFrame_eq (Finset.mem_insert_self _ _) fun j hj => by
    rcases Finset.mem_insert.mp hj with rfl | hj
    · exact le_rfl
    · exact hleast₁ j (Finset.mem_of_mem_erase (Finset.mem_of_mem_erase hj))
  -- `c` comes back twice, and then a frame that does not exist
  obtain ⟨al₆, hrun₆, h₆⟩ := h₅.free_used (hlt hcS) (by simp [hcb])
  obtain ⟨al₇, hrun₇, h₇⟩ := h₆.free_double (Finset.mem_insert_self _ _)
  obtain ⟨al₈, hrun₈, h₈⟩ := h₇.free_outOfRange
  obtain ⟨al₉, hrun₉, h₉⟩ := h₈.free_used (hlt ha) (by simp [Ne.symm hca, Ne.symm hba])
  obtain ⟨al', hrun', h'⟩ := h₉.free_used (hlt hbS) (by simp [Ne.symm hcb, hba])
  have hback : insert b (insert a (insert c ((insert b
      (((S.erase a).erase b).erase c)).erase b))) = S := by
    ext i
    simp only [Finset.mem_insert, Finset.mem_erase]
    constructor
    · rintro (rfl | rfl | rfl | ⟨-, rfl | ⟨-, -, -, hi⟩⟩) <;> assumption
    · intro hi
      by_cases hib : i = b
      · exact .inl hib
      by_cases hia : i = a
      · exact .inr (.inl hia)
      by_cases hic : i = c
      · exact .inr (.inr (.inl hic))
      · exact .inr (.inr (.inr ⟨hib, .inr ⟨hic, hib, hia, hi⟩⟩))
  rw [hback] at h'
  have hne : ∀ {i j : ℕ}, i ≠ j → PhysFrame.mk (i * physFrameSize) ≠ ⟨j * physFrameSize⟩ := by
    intro i j hij heq
    exact hij (Nat.eq_of_mul_eq_mul_right (by decide) (PhysFrame.mk.inj heq))
  rw [if_pos (by omega)]
  refine ⟨al', ?_, h'⟩
  simp only [hrun₃, Exec.bind_ok]
  rw [Exec.assert_bind ⟨hne hba.symm, hne hcb.symm, hne hca.symm⟩,
    Exec.assert_bind ⟨Nat.mul_mod_left _ _, Nat.mul_mod_left _ _, Nat.mul_mod_left _ _⟩]
  simp only [hrun₄, hrun₅, Exec.bind_ok]
  rw [Exec.assert_bind trivial]
  simp only [hrun₆, hrun₇, Exec.bind_ok]
  rw [Exec.assert_bind (h₇.count.trans h₆.count.symm)]
  simp only [hrun₈, Exec.bind_ok]
  rw [Exec.assert_bind (h₈.count.trans h₆.count.symm)]
  simp only [hrun₉, hrun', Exec.bind_ok]
  rw [Exec.assert_bind (h'.count.trans h.count.symm)]
  rfl

end Refines

end ZiranOS
