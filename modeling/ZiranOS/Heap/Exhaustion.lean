import ZiranOS.Heap.Safety

/-!
# When an allocation fails

The null pointer says that no region of the free list can hold the block, and then the heap is left
as it was (`HonestAlloc`).  A request whose size has no room for the alignment of a node does not
come so far: the language admits it, but the allocator asserts that it can be rounded
(`alloc_of_not_roundable`).  These are the only requests for which an allocation is not honest
(`alloc_honest_iff`).
-/

namespace ZiranOS

open ProgLib

namespace NodeHeap

variable {heap heap' : NodeHeap} {free free' : List Region} {layout : Layout} {fuel : ℕ}

/-- The free list is determined by the memory. -/
lemma Lists.unique (h : heap.Lists free) (h' : heap.Lists free') : free = free' := by
  have hstarts : free.map Region.start = free'.map Region.start := Segment.unique h.nodes h'.nodes
  have hread : ∀ {l : List Region}, heap.Lists l →
      l = (l.map Region.start).map fun addr => ⟨addr, heap.mem addr⟩ := by
    intro l hl
    refine (List.map_id l).symm.trans ?_
    rw [List.map_map]
    refine List.map_congr_left fun r hr => ?_
    rw [Function.comp_apply, hl.size r hr, id_eq]
  rw [hread h, hread h', hstarts]

/-- A search that finds nothing writes nothing. -/
lemma eq_of_findRegion_none {size align : ℕ} : ∀ {fuel : ℕ} {cell : Option ℕ},
    findRegion size align heap fuel cell = .ok (heap', none) → heap' = heap := by
  intro fuel
  induction fuel with
  | zero =>
    intro cell h
    cases h
  | succ fuel ih =>
    intro cell h
    rw [findRegion] at h
    dsimp only at h
    split_ifs at h with hend
    · exact (Prod.mk.inj (Except.ok.inj h)).1.symm
    · obtain ⟨found, -, h⟩ := Exec.bind_eq_ok.mp h
      cases found with
      | none => exact ih h
      | some start => cases (Prod.mk.inj (Except.ok.inj h)).2

/-- An allocation that returns null writes nothing. -/
lemma eq_of_alloc_none (h : heap.alloc fuel layout = .ok (heap', none)) : heap' = heap := by
  unfold alloc at h
  obtain ⟨rounded, -, h⟩ := Exec.bind_eq_ok.mp h
  obtain ⟨⟨heap₁, found⟩, hfind, h⟩ := Exec.bind_eq_ok.mp h
  cases found with
  | none =>
    obtain ⟨rfl, -⟩ := Prod.mk.inj (Except.ok.inj h)
    exact eq_of_findRegion_none hfind
  | some found =>
    obtain ⟨allocEnd, -, h⟩ := Exec.bind_eq_ok.mp h
    obtain ⟨regionEnd, -, h⟩ := Exec.bind_eq_ok.mp h
    dsimp only at h
    split_ifs at h
    · obtain ⟨heap₂, -, h⟩ := Exec.bind_eq_ok.mp h
      exact nomatch (Prod.mk.inj (Except.ok.inj h)).2
    · exact nomatch (Prod.mk.inj (Except.ok.inj h)).2

/-- A request that cannot be rounded is a failed assertion. -/
lemma alloc_of_not_roundable (h : ¬ layout.size + max layout.align nodeAlign ≤ 2 ^ 63) :
    heap.alloc fuel layout = Exec.panic .assertion := by
  unfold alloc sizeAlign
  dsimp only
  rw [if_neg h, Exec.bind_panic]

end NodeHeap

/-! ## Honest allocations -/

/-- The allocation returns: a block of the heap that is aligned and spans what was asked for, or
null exactly if no region of the free list can hold the block, and then the heap is as before. -/
def HonestAlloc (fuel : ℕ) (heap : NodeHeap) (free : List Region) (layout : Layout) : Prop :=
  ∃ heap' result, heap.alloc fuel layout = .ok (heap', result) ∧
    (∀ ptr, result = some ptr →
      layout.align ∣ ptr ∧ heapBase ≤ ptr ∧ ptr + layout.size ≤ heapBase + heapSize) ∧
    (result = none ↔ ∀ r ∈ free,
      NodeHeap.allocFromRegion r layout.blockSize layout.blockAlign = .ok none) ∧
    (result = none → heap' = heap)

variable {s : HeapState} {free : List Region} {layout : Layout} {fuel : ℕ}

/-- In the list model the result is null exactly if no region can hold the block. -/
lemma served_eq_none_iff :
    (FreeListHeap.served layout free
      (FreeListHeap.findRegion layout.blockSize layout.blockAlign free)).2 = none ↔
      ∀ r ∈ free, FreeListHeap.allocFromRegion r layout.blockSize layout.blockAlign = none := by
  have hnone := extractFirst_eq_none (l := free)
    (f := fun r => FreeListHeap.allocFromRegion r layout.blockSize layout.blockAlign)
  rw [← hnone]
  unfold FreeListHeap.findRegion
  cases hfind : extractFirst
    (fun r => FreeListHeap.allocFromRegion r layout.blockSize layout.blockAlign) free with
  | none => exact iff_of_true rfl rfl
  | some x => exact iff_of_false (fun h => nomatch h) fun h => nomatch h

/-- **A request that can be rounded is served honestly.** -/
lemma HeapInv.honestAlloc (h : HeapInv s free) (hfuel : heapSize / nodeSize < fuel)
    (hlay : layout.Roundable) : HonestAlloc fuel s.heap free layout := by
  obtain ⟨heap', free', result, hrun, hlist, -⟩ :=
    NodeHeap.alloc_eq h.lists h.packed_free hlay (h.length_lt hfuel)
  refine ⟨heap', result, hrun, ?_, ?_, ?_⟩
  · rintro ptr rfl
    obtain ⟨heap₁, result₁, hrun₁, hblock⟩ := (h.safe hfuel).alloc layout hlay
    obtain ⟨-, rfl⟩ := Prod.mk.inj (Except.ok.inj (hrun₁.symm.trans hrun))
    exact hblock ptr rfl
  · rw [FreeListHeap.alloc_eq_served h.packed_free.sound hlay] at hlist
    have hresult := (Prod.ext_iff.mp (Except.ok.inj hlist)).2
    have hnone := @served_eq_none_iff free layout
    rw [hresult] at hnone
    refine hnone.trans (forall₂_congr fun r hr => ?_)
    rw [NodeHeap.allocFromRegion_eq (h.packed_free.sound r hr) hlay, Except.ok.injEq]
  · rintro rfl
    exact NodeHeap.eq_of_alloc_none hrun

/-- An allocation in memory does what the list model does. -/
lemma HeapInv.alloc_of_list (h : HeapInv s free) (hfuel : heapSize / nodeSize < fuel)
    (hlay : layout.Roundable) {free' : List Region} {result : Option ℕ}
    (hlist : FreeListHeap.alloc ⟨free⟩ layout = (.ok (⟨free'⟩, result) : Exec Unit _)) :
    ∃ heap', s.heap.alloc fuel layout = .ok (heap', result) ∧ heap'.Lists free' := by
  obtain ⟨heap', free₁, result₁, hrun, hlist₁, hl'⟩ :=
    NodeHeap.alloc_eq h.lists h.packed_free hlay (h.length_lt hfuel)
  obtain ⟨hfree, rfl⟩ := Prod.mk.inj (Except.ok.inj (hlist₁.symm.trans hlist))
  obtain rfl := FreeListHeap.mk.inj hfree
  exact ⟨heap', hrun, hl'⟩

/-- An allocation that the list model serves is a step. -/
lemma HeapInv.alloc_step (h : HeapInv s free) (hfuel : heapSize / nodeSize < fuel)
    (hlay : layout.Roundable) {free' : List Region} {ptr : ℕ}
    (hlist : FreeListHeap.alloc ⟨free⟩ layout = (.ok (⟨free'⟩, some ptr) : Exec Unit _)) :
    ∃ heap', HeapStep fuel s (.alloc layout (some ptr)) ⟨heap', ⟨ptr, layout⟩ :: s.live⟩ ∧
      HeapInv ⟨heap', ⟨ptr, layout⟩ :: s.live⟩ free' := by
  obtain ⟨heap', hrun, hl⟩ := h.alloc_of_list hfuel hlay hlist
  have hstep : HeapStep fuel s (.alloc layout (some ptr)) ⟨heap', ⟨ptr, layout⟩ :: s.live⟩ :=
    .alloc hlay hrun
  obtain ⟨free₁, h₁⟩ := h.step hfuel hstep
  obtain rfl := hl.unique h₁.lists
  exact ⟨heap', hstep, h₁⟩

/-- A live block can be given back, and is the first free region afterwards. -/
lemma HeapInv.dealloc_step {heap : NodeHeap} {live₁ live₂ : List Block} {b : Block}
    (h : HeapInv ⟨heap, live₁ ++ b :: live₂⟩ free) (hfuel : heapSize / nodeSize < fuel) :
    ∃ heap', HeapStep fuel ⟨heap, live₁ ++ b :: live₂⟩ (.dealloc b) ⟨heap', live₁ ++ live₂⟩ ∧
      HeapInv ⟨heap', live₁ ++ live₂⟩ (b.region :: free) := by
  have hp : Packed (b.region :: free) :=
    h.packed_block.of_sublist (List.Sublist.cons_cons _ (List.sublist_append_left ..))
  obtain ⟨heap', hrun, -, hl⟩ := NodeHeap.dealloc_eq h.lists hp (h.block b (by simp)).1
  have hstep : HeapStep fuel ⟨heap, live₁ ++ b :: live₂⟩ (.dealloc b) ⟨heap', live₁ ++ live₂⟩ :=
    .dealloc hrun
  obtain ⟨free₁, h₁⟩ := h.step hfuel hstep
  obtain rfl := hl.unique h₁.lists
  exact ⟨heap', hstep, h₁⟩

/-- **When an allocation is honest.**  In every state that calls in accordance with the contract of
an allocator can reach, the allocation for a request that the language admits is honest if and only
if the size leaves room for rounding to the alignment of a node. -/
theorem alloc_honest_iff (fuel : ℕ) (hfuel : heapSize / nodeSize < fuel) (mem : ℕ → ℕ) :
    ∃ heap₀, NodeHeap.init ⟨mem, 0⟩ heapBase heapSize = .ok heap₀ ∧
      ∀ tr s, Run (HeapStep fuel) ⟨heap₀, []⟩ tr s → ∃ free, s.heap.Lists free ∧
        ∀ layout : Layout, 1 ≤ layout.size →
          (HonestAlloc fuel s.heap free layout ↔
            layout.size + max layout.align nodeAlign ≤ 2 ^ 63) := by
  obtain ⟨heap₀, hinit, hinv⟩ := init_inv mem
  refine ⟨heap₀, hinit, fun tr s hrun => ?_⟩
  obtain ⟨free, hfree⟩ := hrun.invariant (I := fun s => ∃ free, HeapInv s free)
    (fun s e t hs hstep => hs.elim fun free hfree => hfree.step hfuel hstep) ⟨_, hinv⟩
  refine ⟨free, hfree.lists, fun layout hsize => ⟨fun hhonest => ?_, fun hround => ?_⟩⟩
  · by_contra hnot
    obtain ⟨heap', result, hrun', -⟩ := hhonest
    rw [NodeHeap.alloc_of_not_roundable hnot] at hrun'
    cases hrun'
  · exact hfree.honestAlloc hfuel ⟨hsize, hround⟩

theorem alloc_honest_iff_zero : ∃ heap₀,
    NodeHeap.init ⟨fun _ => 0, 0⟩ heapBase heapSize = .ok heap₀ ∧
      ∀ tr s, Run (HeapStep 65537) ⟨heap₀, []⟩ tr s → ∃ free, s.heap.Lists free ∧
        ∀ layout : Layout, 1 ≤ layout.size →
          (HonestAlloc 65537 s.heap free layout ↔
            layout.size + max layout.align nodeAlign ≤ 2 ^ 63) :=
  alloc_honest_iff 65537 (by decide) fun _ => 0

/-- All bytes of half of the address space but one, without alignment. -/
def hugeLayout : Layout := ⟨2 ^ 63 - 1, 1, ⟨0, by decide, rfl⟩, by decide⟩

/-- The language admits the request, and the allocator answers it with a failed assertion. -/
theorem alloc_hugeLayout_panics : ∃ heap₀,
    NodeHeap.init ⟨fun _ => 0, 0⟩ heapBase heapSize = .ok heap₀ ∧ 1 ≤ hugeLayout.size ∧
      ∀ fuel free, heap₀.alloc fuel hugeLayout = Exec.panic .assertion ∧
        ¬ HonestAlloc fuel heap₀ free hugeLayout := by
  obtain ⟨heap₀, hinit, -⟩ := init_inv fun _ => 0
  refine ⟨heap₀, hinit, by decide, fun fuel free => ?_⟩
  have hpanic : heap₀.alloc fuel hugeLayout = Exec.panic .assertion :=
    NodeHeap.alloc_of_not_roundable (by decide)
  refine ⟨hpanic, fun h => ?_⟩
  obtain ⟨heap', result, hrun, -⟩ := h
  rw [hpanic] at hrun
  cases hrun

end ZiranOS
