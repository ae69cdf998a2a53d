import ZiranOS.Heap.Links
import ZiranOS.Lib.Run

/-!
# Safety of the heap

A run of the heap consists of allocations, deallocations of live blocks with their own layouts, and
writes of the program to its live blocks, or anywhere outside of the heap.  The live blocks are
ghost state: the allocator does not know them.  `HeapInv` is the invariant: the nodes in memory list
free regions which, together with the live blocks, are packed into the heap.
-/

namespace ZiranOS

open ProgLib

/-- A block that was handed out, with the layout that was asked for. -/
structure Block where
  ptr : ℕ
  layout : Layout

/-- The bytes of a block, rounded as the allocator rounds them. -/
def Block.region (b : Block) : Region := ⟨b.ptr, b.layout.blockSize⟩

/-- The heap, and the blocks that were handed out and not taken back. -/
structure HeapState where
  heap : NodeHeap
  live : List Block

/-- What happens to the heap. -/
inductive HeapEvent where
  | alloc (layout : Layout) (result : Option ℕ)
  | dealloc (block : Block)
  | write

/-- The steps that the contract of an allocator allows. -/
inductive HeapStep (fuel : ℕ) : HeapState → HeapEvent → HeapState → Prop
  /-- A block is asked for. -/
  | alloc {heap heap' : NodeHeap} {live : List Block} {layout : Layout} {result : Option ℕ}
      (hlay : layout.Roundable) (hrun : heap.alloc fuel layout = .ok (heap', result)) :
      HeapStep fuel ⟨heap, live⟩ (.alloc layout result)
        ⟨heap', result.toList.map (fun ptr => ⟨ptr, layout⟩) ++ live⟩
  /-- A live block is given back, with its own layout. -/
  | dealloc {heap heap' : NodeHeap} {live₁ live₂ : List Block} {b : Block}
      (hrun : heap.dealloc b.ptr b.layout = .ok heap') :
      HeapStep fuel ⟨heap, live₁ ++ b :: live₂⟩ (.dealloc b) ⟨heap', live₁ ++ live₂⟩
  /-- The program writes; the words of the heap that lie in no live block stay. -/
  | write {heap : NodeHeap} {live : List Block} {mem : ℕ → ℕ}
      (hmem : ∀ a, 8 ∣ a → heapBase ≤ a → a < heapBase + heapSize →
        (∀ b ∈ live, a < b.ptr ∨ b.ptr + b.layout.blockSize ≤ a) → mem a = heap.mem a) :
      HeapStep fuel ⟨heap, live⟩ .write ⟨{ heap with mem := mem }, live⟩

/-- The invariant of the heap, for the free regions `free`. -/
structure HeapInv (s : HeapState) (free : List Region) : Prop where
  lists : s.heap.Lists free
  packed : Packed (free ++ s.live.map Block.region)
  block : ∀ b ∈ s.live, b.layout.Roundable ∧ b.layout.blockAlign ∣ b.ptr

variable {s s' : HeapState} {free : List Region} {fuel : ℕ}

namespace HeapInv

/-- The free regions alone are packed. -/
lemma packed_free (h : HeapInv s free) : Packed free :=
  h.packed.of_sublist (List.sublist_append_left ..)

/-- There are no more free regions than nodes have room in the heap. -/
lemma length_lt (h : HeapInv s free) (hfuel : heapSize / nodeSize < fuel) : free.length < fuel := by
  have hlen := h.packed_free.length_le
  have h16 : nodeSize = 16 := rfl
  rw [h16] at hlen hfuel
  omega

/-- A live block does not overlap the free regions. -/
lemma packed_block {heap : NodeHeap} {live₁ live₂ : List Block} {b : Block}
    (h : HeapInv ⟨heap, live₁ ++ b :: live₂⟩ free) :
    Packed (b.region :: (free ++ (live₁ ++ live₂).map Block.region)) := by
  refine h.packed.perm ?_
  rw [List.map_append, List.map_append, List.map_cons, ← List.append_assoc, ← List.append_assoc]
  exact List.perm_middle

/-- A write of the program leaves the free list: the words of a node lie in its region, which no
live block overlaps. -/
lemma write {heap : NodeHeap} {live : List Block} {mem : ℕ → ℕ} (h : HeapInv ⟨heap, live⟩ free)
    (hmem : ∀ a, 8 ∣ a → heapBase ≤ a → a < heapBase + heapSize →
      (∀ b ∈ live, a < b.ptr ∨ b.ptr + b.layout.blockSize ≤ a) → mem a = heap.mem a) :
    HeapInv ⟨{ heap with mem := mem }, live⟩ free := by
  refine ⟨h.lists.congr rfl fun r hr => ?_, h.packed, h.block⟩
  have hr' := h.packed.sound r (List.mem_append_left _ hr)
  have hdvd := hr'.start_dvd
  have hnode := hr'.node_le
  have hbase := hr'.base_le
  have hend := hr'.end_le
  have h16 : nodeSize = 16 := rfl
  have hapart : ∀ b ∈ live, r.start + r.size ≤ b.ptr ∨ b.ptr + b.layout.blockSize ≤ r.start :=
    fun b hb => (List.pairwise_append.mp h.packed.disjoint).2.2 r hr b.region
      (List.mem_map_of_mem hb)
  refine ⟨hmem _ hdvd hbase (by omega) fun b hb => ?_,
    hmem _ (by omega) (by omega) (by omega) fun b hb => ?_⟩
  · have := hapart b hb
    omega
  · have := hapart b hb
    omega

/-- **A step keeps the invariant.** -/
lemma step (hfuel : heapSize / nodeSize < fuel) {e : HeapEvent} (hstep : HeapStep fuel s e s')
    (h : HeapInv s free) : ∃ free', HeapInv s' free' := by
  cases hstep with
  | @alloc heap heap' live layout result hlay hrun =>
    obtain ⟨h₁, free', r, hrun₁, hlist, hlists⟩ :=
      NodeHeap.alloc_eq h.lists h.packed_free hlay (h.length_lt hfuel)
    obtain ⟨rfl, rfl⟩ := Prod.mk.inj (Except.ok.inj (hrun₁.symm.trans hrun))
    refine ⟨free', ?_⟩
    rcases FreeListHeap.alloc_packed h.packed hlay hlist with ⟨rfl, rfl⟩ | ⟨start, rfl, hdvd, hp⟩
    · exact ⟨hlists, h.packed, h.block⟩
    · refine ⟨hlists, hp, fun b hb => ?_⟩
      rcases List.mem_cons.mp hb with rfl | hb
      · exact ⟨hlay, hdvd⟩
      · exact h.block b hb
  | @dealloc heap heap' live₁ live₂ b hrun =>
    have hb := h.block b (by simp)
    have hp := h.packed_block
    have hcons : Packed (b.region :: free) :=
      hp.of_sublist (List.Sublist.cons_cons _ (List.sublist_append_left ..))
    obtain ⟨h₁, hrun₁, -, hlists⟩ := NodeHeap.dealloc_eq h.lists hcons hb.1
    obtain rfl := Except.ok.inj (hrun₁.symm.trans hrun)
    refine ⟨_, hlists, hp, fun c hc => h.block c ?_⟩
    rcases List.mem_append.mp hc with hc | hc <;> simp [hc]
  | write hmem => exact ⟨free, h.write hmem⟩

end HeapInv

/-- The whole heap is one free region. -/
lemma wholeHeap_packed : Packed [⟨heapBase, heapSize⟩] where
  sound r hr := by
    obtain rfl := List.mem_singleton.mp hr
    exact ⟨⟨by decide, by decide, by decide, le_rfl⟩, le_rfl⟩
  disjoint := List.pairwise_singleton ..
  total := le_rfl

/-- The allocator that has just adopted the heap. -/
lemma init_inv (mem : ℕ → ℕ) : ∃ heap₀, NodeHeap.init ⟨mem, 0⟩ heapBase heapSize = .ok heap₀ ∧
    HeapInv ⟨heap₀, []⟩ [⟨heapBase, heapSize⟩] := by
  have hempty : NodeHeap.Lists ⟨mem, 0⟩ [] := ⟨rfl, fun r hr => nomatch hr⟩
  exact ⟨_, NodeHeap.addFreeRegion_eq (wholeHeap_packed.sound _ (List.mem_singleton_self _)),
    hempty.pushed wholeHeap_packed, wholeHeap_packed, fun b hb => nomatch hb⟩

/-- What holds of the heap between any two calls. -/
structure HeapSafe (fuel : ℕ) (s : HeapState) (free : List Region) : Prop where
  /-- The nodes in memory are those of the free regions. -/
  lists : s.heap.Lists free
  /-- No node is met twice. -/
  acyclic : (free.map Region.start).Nodup
  /-- Free regions and live blocks do not overlap. -/
  disjoint : (free ++ s.live.map Block.region).Pairwise Region.Disjoint
  /-- They lie in the heap. -/
  inside : ∀ r ∈ free ++ s.live.map Block.region,
    heapBase ≤ r.start ∧ r.start + r.size ≤ heapBase + heapSize
  /-- Free regions are aligned and have room for a node. -/
  regions : ∀ r ∈ free, 8 ∣ r.start ∧ 8 ∣ r.size ∧ 16 ≤ r.size
  /-- Blocks are aligned and span what was asked for. -/
  blocks : ∀ b ∈ s.live, b.layout.align ∣ b.ptr ∧ b.layout.size ≤ b.region.size
  /-- Free and live bytes never exceed the heap. -/
  total : totalSize free + totalSize (s.live.map Block.region) ≤ heapSize
  /-- The statistics end, and count the free bytes without saturating. -/
  stats : s.heap.stats fuel = .ok (heapSize - totalSize free, totalSize free)
  /-- An allocation returns null, or a block that is aligned and spans what was asked for. -/
  alloc : ∀ layout : Layout, layout.Roundable → ∃ heap' result,
    s.heap.alloc fuel layout = .ok (heap', result) ∧ ∀ ptr, result = some ptr →
      layout.align ∣ ptr ∧ heapBase ≤ ptr ∧ ptr + layout.size ≤ heapBase + heapSize
  /-- A deallocation of a live block returns. -/
  dealloc : ∀ b ∈ s.live, ∃ heap', s.heap.dealloc b.ptr b.layout = .ok heap'

/-- The invariant makes the heap safe. -/
lemma HeapInv.safe (h : HeapInv s free) (hfuel : heapSize / nodeSize < fuel) :
    HeapSafe fuel s free where
  lists := h.lists
  acyclic := h.lists.nodes.nodup
  disjoint := h.packed.disjoint
  inside r hr := ⟨(h.packed.sound r hr).base_le, (h.packed.sound r hr).end_le⟩
  regions r hr :=
    ⟨(h.packed_free.sound r hr).start_dvd, (h.packed_free.sound r hr).size_dvd,
      (h.packed_free.sound r hr).node_le⟩
  blocks b hb :=
    ⟨b.layout.align_dvd_blockAlign.trans (h.block b hb).2, b.layout.size_le_blockSize⟩
  total := by
    rw [← totalSize_append]
    exact h.packed.total
  stats := NodeHeap.stats_eq h.lists h.packed_free (h.length_lt hfuel)
  alloc := by
    intro layout hlay
    obtain ⟨heap', free', result, hrun, hlist, -⟩ :=
      NodeHeap.alloc_eq h.lists h.packed_free hlay (h.length_lt hfuel)
    refine ⟨heap', result, hrun, ?_⟩
    rintro ptr rfl
    rcases FreeListHeap.alloc_packed h.packed hlay hlist with ⟨hnone, -⟩ | ⟨start, hsome, hdvd, hp⟩
    · cases hnone
    · obtain rfl := Option.some.inj hsome
      have hsound := hp.sound ⟨ptr, layout.blockSize⟩ (by simp)
      have hend : ptr + layout.blockSize ≤ heapBase + heapSize := hsound.end_le
      have hspan := layout.size_le_blockSize
      exact ⟨layout.align_dvd_blockAlign.trans hdvd, hsound.base_le, by omega⟩
  dealloc := by
    intro b hb
    obtain ⟨live₁, live₂, hlive⟩ := List.append_of_mem hb
    obtain ⟨heap, live⟩ := s
    obtain rfl : live = live₁ ++ b :: live₂ := hlive
    have hcons : Packed (b.region :: free) :=
      h.packed_block.of_sublist (List.Sublist.cons_cons _ (List.sublist_append_left ..))
    obtain ⟨heap', hrun, -⟩ := NodeHeap.dealloc_eq h.lists hcons (h.block b hb).1
    exact ⟨heap', hrun⟩

/-- **The heap is safe.**  Whatever memory held before, the allocator adopts the heap; and after
every run of calls that keep the contract of an allocator, free regions and live blocks are packed
into the heap without overlap, the list of the free regions has no cycle, and every call returns
within as many steps as the heap has room for nodes, without a failed assertion and without an
overflow. -/
theorem heap_safe (fuel : ℕ) (hfuel : heapSize / nodeSize < fuel) (mem : ℕ → ℕ) :
    ∃ heap₀, NodeHeap.init ⟨mem, 0⟩ heapBase heapSize = .ok heap₀ ∧
      ∀ tr s, Run (HeapStep fuel) ⟨heap₀, []⟩ tr s → ∃ free, HeapSafe fuel s free := by
  obtain ⟨heap₀, hinit, hinv⟩ := init_inv mem
  refine ⟨heap₀, hinit, fun tr s hrun => ?_⟩
  obtain ⟨free, hfree⟩ := hrun.invariant (I := fun s => ∃ free, HeapInv s free)
    (fun s e t hs hstep => hs.elim fun free hfree => hfree.step hfuel hstep) ⟨_, hinv⟩
  exact ⟨free, hfree.safe hfuel⟩

/-- Every walk over the heap of 1 MiB ends within 65537 steps. -/
theorem heap_safe_zero : ∃ heap₀, NodeHeap.init ⟨fun _ => 0, 0⟩ heapBase heapSize = .ok heap₀ ∧
    ∀ tr s, Run (HeapStep 65537) ⟨heap₀, []⟩ tr s → ∃ free, HeapSafe 65537 s free :=
  heap_safe 65537 (by decide) fun _ => 0

/-- A request aligned to a page is served from the start of the heap, and the next one behind it. -/
example : (do
    let heap ← NodeHeap.init ⟨fun _ => 0, 0⟩ heapBase heapSize
    let x ← heap.alloc 3 ⟨100, 4096, ⟨12, by decide, rfl⟩, by decide⟩
    let y ← x.1.alloc 3 ⟨1, 1, ⟨0, by decide, rfl⟩, by decide⟩
    pure (x.2, y.2)) = .ok (some 0x40000000, some 0x40001000) := by decide +kernel

end ZiranOS
