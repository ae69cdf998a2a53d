import ZiranOS.Heap.Reclaim

/-!
# When no byte of the heap is lost

An allocation takes its block from the first region that can hold it.  If the region does not start
at a multiple of the alignment, the bytes in front of the block are listed nowhere afterwards, and
no later call finds them again.  So the sizes of the free regions and of the live blocks add up to
the heap in all states of a run exactly if every allocation of the run meets a first region that
starts aligned (`conserved_iff`).

Regions are aligned for a node, so requests with an alignment up to 8 lose nothing
(`firstAligned_of_le`); a request with alignment 16 can, as soon as an earlier one has left a region
that starts at an odd multiple of 8 (`leak_of_align_sixteen`).
-/

namespace ZiranOS

open ProgLib

/-- The first region that can hold the block of the request starts at a multiple of its
alignment. -/
def FirstAligned (layout : Layout) (free : List Region) : Prop :=
  ∀ l₁ r l₂ start, free = l₁ ++ r :: l₂ →
    (∀ x ∈ l₁, FreeListHeap.allocFromRegion x layout.blockSize layout.blockAlign = none) →
    FreeListHeap.allocFromRegion r layout.blockSize layout.blockAlign = some start →
    layout.blockAlign ∣ r.start

/-- If the event is an allocation, the first region that can hold its block starts aligned. -/
def HeapState.TakesAligned (s : HeapState) : HeapEvent → Prop
  | .alloc layout _ => ∀ free, s.heap.Lists free → FirstAligned layout free
  | .dealloc _ | .write => True

/-- The free regions and the live blocks together are as large as the heap. -/
def HeapState.Conserved (s : HeapState) : Prop :=
  ∀ free, s.heap.Lists free → totalSize free + totalSize (s.live.map Block.region) = heapSize

variable {r : Region} {layout : Layout} {start : ℕ} {free rest : List Region}

/-! ## Bytes in front of a block -/

/-- A region of the heap is aligned for a node, and so for every request up to that. -/
lemma firstAligned_of_le (hsound : ∀ r ∈ free, r.Sound) (h : layout.align ≤ nodeAlign) :
    FirstAligned layout free := by
  rintro l₁ r l₂ start rfl - -
  have h8 : layout.blockAlign = 8 := max_eq_right h
  rw [h8]
  exact (hsound r (by simp)).start_dvd

/-- A region that is taken is rounded up to the alignment. -/
lemma start_of_allocFromRegion {size align : ℕ}
    (h : FreeListHeap.allocFromRegion r size align = some start) :
    start = alignUp r.start align := by
  unfold FreeListHeap.allocFromRegion at h
  dsimp only at h
  split_ifs at h
  exact (Option.some.inj h).symm

/-- The block starts where its region starts exactly if that is aligned. -/
lemma start_eq_iff (hr : r.Sound) (hlay : layout.Roundable)
    (h : FreeListHeap.allocFromRegion r layout.blockSize layout.blockAlign = some start) :
    start = r.start ↔ layout.blockAlign ∣ r.start := by
  obtain ⟨hle, hlt, hdvd, -⟩ := hr.alignUp_bounds hlay
  rw [← start_of_allocFromRegion h] at hle hlt hdvd
  constructor
  · rintro rfl
    exact hdvd
  · intro halign
    have hzero := Nat.eq_zero_of_dvd_of_lt (Nat.dvd_sub hdvd halign) (by omega)
    omega

/-- The search finds the first region that can hold the block. -/
lemma firstAligned_iff
    (h : FreeListHeap.findRegion layout.blockSize layout.blockAlign free =
      some (r, start, rest)) :
    FirstAligned layout free ↔ layout.blockAlign ∣ r.start := by
  obtain ⟨l₁, l₂, hfree, -, halloc, hnone⟩ := extractFirst_eq_some.mp h
  refine ⟨fun hfirst => hfirst l₁ r l₂ start hfree hnone halloc, fun hdvd => ?_⟩
  intro l₁' r' l₂' start' hfree' hnone' halloc'
  have h' : FreeListHeap.findRegion layout.blockSize layout.blockAlign free =
      some (r', start', l₁' ++ l₂') :=
    extractFirst_eq_some.mpr ⟨l₁', l₂', hfree', rfl, halloc', hnone'⟩
  obtain rfl : r = r' := congrArg Prod.fst (Option.some.inj (h.symm.trans h'))
  exact hdvd

/-- **What an allocation does to the free bytes**: the block and the bytes in front of it are taken
from them. -/
lemma totalSize_served (hsound : ∀ r ∈ free, r.Sound) (hlay : layout.Roundable)
    (h : FreeListHeap.findRegion layout.blockSize layout.blockAlign free =
      some (r, start, rest)) :
    totalSize (r.tail (start + layout.blockSize) ++ rest) + layout.blockSize + (start - r.start) =
      totalSize free := by
  obtain ⟨hserves, hperm⟩ := FreeListHeap.findRegion_some hsound hlay h
  have htotal : totalSize free = totalSize (r :: rest) := (hperm.map Region.size).sum_eq
  have hle := hserves.start_le
  have hfits := hserves.fits
  rw [htotal, totalSize_append, totalSize_cons]
  unfold Region.tail
  split_ifs
  · simp only [totalSize_cons, totalSize_nil]
    omega
  · rw [totalSize_nil]
    omega

/-! ## Steps -/

variable {s s' : HeapState} {fuel : ℕ}

/-- The free list is the one in memory. -/
lemma HeapInv.conserved_iff_total (h : HeapInv s free) :
    s.Conserved ↔ totalSize free + totalSize (s.live.map Block.region) = heapSize := by
  constructor
  · exact fun hcons => hcons free h.lists
  · intro htotal free' hl
    rwa [hl.unique h.lists]

/-- The condition is about the free list in memory. -/
lemma HeapInv.takesAligned_iff (h : HeapInv s free) (result : Option ℕ) :
    s.TakesAligned (.alloc layout result) ↔ FirstAligned layout free := by
  constructor
  · exact fun haligned => haligned free h.lists
  · intro hfirst free' hl
    rwa [hl.unique h.lists]

/-- **A step loses no byte** exactly if it takes its block from a region that starts aligned. -/
lemma HeapInv.conserved_step (hfuel : heapSize / nodeSize < fuel) {e : HeapEvent}
    (hstep : HeapStep fuel s e s') (h : HeapInv s free) (hcons : s.Conserved) :
    s'.Conserved ↔ s.TakesAligned e := by
  obtain ⟨free', h'⟩ := h.step hfuel hstep
  rw [h.conserved_iff_total] at hcons
  rw [h'.conserved_iff_total]
  cases hstep with
  | @alloc heap heap' live layout result hlay hrun =>
    obtain ⟨heap₁, free₁, result₁, hrun₁, hlist, hl₁⟩ :=
      NodeHeap.alloc_eq h.lists h.packed_free hlay (h.length_lt hfuel)
    obtain ⟨rfl, rfl⟩ := Prod.mk.inj (Except.ok.inj (hrun₁.symm.trans hrun))
    obtain rfl := hl₁.unique h'.lists
    have hsound := h.packed_free.sound
    rw [h.takesAligned_iff]
    rw [FreeListHeap.alloc_eq_served hsound hlay] at hlist
    cases hfind : FreeListHeap.findRegion layout.blockSize layout.blockAlign free with
    | none =>
      -- null: nothing is taken
      rw [hfind] at hlist
      obtain ⟨hfree, rfl⟩ := Prod.mk.inj (Except.ok.inj hlist)
      obtain rfl := FreeListHeap.mk.inj hfree
      refine iff_of_true hcons fun l₁ r l₂ start hfree hnone halloc => ?_
      have hall := extractFirst_eq_none.mp hfind r (by simp [hfree])
      exact nomatch hall.symm.trans halloc
    | some found =>
      obtain ⟨r, start, rest⟩ := found
      have hserved := totalSize_served hsound hlay hfind
      have hstart : start = r.start ↔ layout.blockAlign ∣ r.start := by
        obtain ⟨l₁, l₂, hfree, -, halloc, -⟩ := extractFirst_eq_some.mp hfind
        exact start_eq_iff (hsound r (by simp [hfree])) hlay halloc
      have hle := (FreeListHeap.findRegion_some hsound hlay hfind).1.start_le
      rw [firstAligned_iff hfind, ← hstart]
      rw [hfind] at hlist
      obtain ⟨hfree, rfl⟩ := Prod.mk.inj (Except.ok.inj hlist)
      obtain rfl := FreeListHeap.mk.inj hfree
      have hblock : (Block.region ⟨start, layout⟩).size = layout.blockSize := rfl
      simp only [Option.toList_some, List.map_cons, List.map_nil, List.cons_append,
        List.nil_append, totalSize_cons, hblock]
      dsimp only at hcons
      omega
  | @dealloc heap heap' live₁ live₂ b hrun =>
    have hb := h.block b (by simp)
    have hp : Packed (b.region :: free) :=
      h.packed_block.of_sublist (List.Sublist.cons_cons _ (List.sublist_append_left ..))
    obtain ⟨heap₁, hrun₁, -, hl₁⟩ := NodeHeap.dealloc_eq h.lists hp hb.1
    obtain rfl := Except.ok.inj (hrun₁.symm.trans hrun)
    obtain rfl := hl₁.unique h'.lists
    refine iff_of_true ?_ trivial
    have hblock : b.region.size = b.layout.blockSize := rfl
    simp only [List.map_append, List.map_cons, totalSize_append, totalSize_cons, hblock] at hcons ⊢
    omega
  | @write heap live mem hmem =>
    obtain rfl := (h.write hmem).lists.unique h'.lists
    exact iff_of_true hcons trivial

/-! ## Runs -/

/-- **When no byte is lost.**  In a run of calls in accordance with the contract of an allocator,
the free regions and the live blocks add up to the heap in every state exactly if every allocation
meets a first region that starts at a multiple of its alignment. -/
theorem conserved_iff (fuel : ℕ) (hfuel : heapSize / nodeSize < fuel) (mem : ℕ → ℕ) :
    ∃ heap₀, NodeHeap.init ⟨mem, 0⟩ heapBase heapSize = .ok heap₀ ∧
      ∀ tr s, Run (HeapStep fuel) ⟨heap₀, []⟩ tr s →
        ((HeapState.Conserved ⟨heap₀, []⟩ ∧ ∀ x ∈ tr, x.post.Conserved) ↔
          ∀ x ∈ tr, x.pre.TakesAligned x.event) := by
  obtain ⟨heap₀, hinit, hinv⟩ := init_inv mem
  refine ⟨heap₀, hinit, fun tr s hrun => ?_⟩
  have hstart : HeapState.Conserved ⟨heap₀, []⟩ := hinv.conserved_iff_total.mpr rfl
  rw [and_iff_right hstart]
  refine hrun.forall_post_iff (I := fun s => ∃ free, HeapInv s free)
    (fun s e t hs hstep => ?_) (fun s e t hs hcons hstep => ?_) ⟨_, hinv⟩ hstart
  · obtain ⟨free, hfree⟩ := hs
    exact hfree.step hfuel hstep
  · obtain ⟨free, hfree⟩ := hs
    exact hfree.conserved_step hfuel hstep hcons

/-- A request of 16 bytes at a multiple of 16. -/
def alignedLayout : Layout := ⟨16, 16, ⟨4, by decide, rfl⟩, by decide⟩

/-- On the fresh heap a block with alignment 16 lies at its start. -/
lemma firstAligned_alignedLayout {l : List Region} {size : ℕ}
    (hfind : FreeListHeap.findRegion alignedLayout.blockSize alignedLayout.blockAlign
      (⟨heapBase, size⟩ :: l) = some (⟨heapBase, size⟩, heapBase, l)) :
    FirstAligned alignedLayout (⟨heapBase, size⟩ :: l) :=
  (firstAligned_iff hfind).mpr (show alignedLayout.blockAlign ∣ heapBase by decide)

/-- An aligned block at the start of the heap is given back and asked for again, while another block
is live: no byte is lost. -/
theorem conserved_iff_alignedLayout : ∃ heap₀ tr s,
    NodeHeap.init ⟨fun _ => 0, 0⟩ heapBase heapSize = .ok heap₀ ∧
      Run (HeapStep 65537) ⟨heap₀, []⟩ tr s ∧
      tr.map Transition.event = [.alloc alignedLayout (some heapBase),
        .alloc smallLayout (some (heapBase + 16)), .dealloc ⟨heapBase, alignedLayout⟩,
        .alloc alignedLayout (some heapBase)] ∧
      ∀ x ∈ tr, x.post.Conserved := by
  obtain ⟨heap₀, hinit, hiff⟩ := conserved_iff 65537 (by decide) fun _ => 0
  obtain ⟨heap₀', hinit', hinv⟩ := init_inv fun _ => 0
  obtain rfl := Except.ok.inj (hinit.symm.trans hinit')
  have hfuel : heapSize / nodeSize < 65537 := by decide
  have hlist₁ : FreeListHeap.alloc ⟨[⟨heapBase, heapSize⟩]⟩ alignedLayout =
      (.ok (⟨[⟨heapBase + 16, heapSize - 16⟩]⟩, some heapBase) : Exec Unit _) := by
    decide +kernel
  have hlist₂ : FreeListHeap.alloc ⟨[⟨heapBase + 16, heapSize - 16⟩]⟩ smallLayout =
      (.ok (⟨[⟨heapBase + 40, heapSize - 40⟩]⟩, some (heapBase + 16)) : Exec Unit _) := by
    decide +kernel
  have hlist₄ : FreeListHeap.alloc ⟨[⟨heapBase, 16⟩, ⟨heapBase + 40, heapSize - 40⟩]⟩
      alignedLayout = (.ok (⟨[⟨heapBase + 40, heapSize - 40⟩]⟩, some heapBase) : Exec Unit _) := by
    decide +kernel
  obtain ⟨heap₁, hstep₁, h₁⟩ := hinv.alloc_step hfuel ⟨by decide, by decide⟩ hlist₁
  obtain ⟨heap₂, hstep₂, h₂⟩ := h₁.alloc_step hfuel ⟨by decide, by decide⟩ hlist₂
  -- the first block is given back while the second one is live
  have hlive₂ : HeapInv
      ⟨heap₂, [⟨heapBase + 16, smallLayout⟩] ++ ⟨heapBase, alignedLayout⟩ :: []⟩ _ := h₂
  obtain ⟨heap₃, hstep₃, h₃⟩ := hlive₂.dealloc_step hfuel
  obtain ⟨heap₄, hstep₄, -⟩ := h₃.alloc_step hfuel ⟨by decide, by decide⟩ hlist₄
  have hrun := Run.cons hstep₁ (.cons hstep₂ (.cons hstep₃ (.cons hstep₄ (.nil _))))
  refine ⟨heap₀, _, _, hinit, hrun, rfl, ((hiff _ _ hrun).mpr fun x hx => ?_).2⟩
  simp only [List.mem_cons, List.not_mem_nil, or_false] at hx
  rcases hx with rfl | rfl | rfl | rfl
  · exact (hinv.takesAligned_iff _).mpr (firstAligned_alignedLayout (by decide +kernel))
  · exact (h₁.takesAligned_iff _).mpr (firstAligned_of_le h₁.packed_free.sound le_rfl)
  · trivial
  · exact (h₃.takesAligned_iff _).mpr (firstAligned_alignedLayout (by decide +kernel))

/-- Two requests with alignments 8 and 16 lose 8 bytes of the heap. -/
theorem leak_of_align_sixteen : ∃ heap₀ tr s,
    NodeHeap.init ⟨fun _ => 0, 0⟩ heapBase heapSize = .ok heap₀ ∧
      Run (HeapStep 65537) ⟨heap₀, []⟩ tr s ∧
      (∀ x ∈ tr, ∀ layout result, x.event = .alloc layout result → layout.align ≤ 16) ∧
      ¬ s.Conserved := by
  obtain ⟨heap₀, hinit, hinv⟩ := init_inv fun _ => 0
  obtain ⟨heap₁, hstep₁, h₁⟩ := step_smallLayout hinv
  have hfuel : heapSize / nodeSize < 65537 := by decide
  -- the second block leaves 8 bytes in front of it
  have hlist : FreeListHeap.alloc ⟨[⟨heapBase + 24, heapSize - 24⟩]⟩ alignedLayout =
      (.ok (⟨[⟨heapBase + 48, heapSize - 48⟩]⟩, some (heapBase + 32)) : Exec Unit _) := by
    decide +kernel
  obtain ⟨heap₂, hstep₂, h₂⟩ := h₁.alloc_step hfuel ⟨by decide, by decide⟩ hlist
  refine ⟨heap₀, _, _, hinit, .cons hstep₁ (.cons hstep₂ (.nil _)), ?_, fun hcons => ?_⟩
  · intro x hx layout result hevent
    simp only [List.mem_cons, List.not_mem_nil, or_false] at hx
    rcases hx with rfl | rfl
    · obtain ⟨rfl, -⟩ := HeapEvent.alloc.inj hevent
      decide
    · obtain ⟨rfl, -⟩ := HeapEvent.alloc.inj hevent
      decide
  · have htotal : totalSize [⟨heapBase + 48, heapSize - 48⟩] +
        totalSize [⟨heapBase + 32, alignedLayout.blockSize⟩, ⟨heapBase, smallLayout.blockSize⟩] ≠
          heapSize := by decide
    exact htotal (hcons _ h₂.lists)

end ZiranOS
