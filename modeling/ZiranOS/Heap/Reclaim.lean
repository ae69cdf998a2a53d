import ZiranOS.Heap.Exhaustion

/-!
# Blocks that are freed in reverse order come back

A deallocation pushes the block to the front of the free list, and the allocation of the same layout
finds it there: it starts aligned, it is exactly as large, and nothing is left of it.  So a program
that gives blocks back in reverse order and asks for them again gets the same blocks, and leaves the
free list as it was (`reclaim_exact`), as often as it repeats that.
-/

namespace ZiranOS

open ProgLib

namespace NodeHeap

/-- Take blocks back, one after another. -/
def deallocAll (heap : NodeHeap) (blocks : List Block) : Exec Unit NodeHeap :=
  blocks.foldlM (fun heap b => heap.dealloc b.ptr b.layout) heap

/-- Allocate for several requests, one after another. -/
def allocAll (fuel : ℕ) : NodeHeap → List Layout → Exec Unit (NodeHeap × List (Option ℕ))
  | heap, [] => pure (heap, [])
  | heap, layout :: layouts => do
    let (heap, ptr) ← heap.alloc fuel layout
    let (heap, ptrs) ← allocAll fuel heap layouts
    pure (heap, ptr :: ptrs)

/-- Take blocks back in reverse order, and allocate for their layouts again. -/
def reclaim (fuel : ℕ) (blocks : List Block) (heap : NodeHeap) :
    Exec Unit (NodeHeap × List (Option ℕ)) := do
  let heap ← heap.deallocAll blocks.reverse
  heap.allocAll fuel (blocks.map Block.layout)

/-- Reclaim the blocks several times; the results are those of each time. -/
def reclaimTimes (fuel : ℕ) (blocks : List Block) :
    ℕ → NodeHeap → Exec Unit (NodeHeap × List (List (Option ℕ)))
  | 0, heap => pure (heap, [])
  | times + 1, heap => do
    let (heap, ptrs) ← reclaim fuel blocks heap
    let (heap, rest) ← reclaimTimes fuel blocks times heap
    pure (heap, ptrs :: rest)

variable {heap : NodeHeap} {free : List Region} {b : Block} {blocks : List Block} {fuel : ℕ}

/-! ## Giving back -/

/-- **Deallocations put the blocks in front**, the last one first. -/
lemma deallocAll_eq : ∀ {blocks : List Block} {heap : NodeHeap} {free : List Region},
    heap.Lists free → Packed ((blocks.map Block.region).reverse ++ free) →
    (∀ b ∈ blocks, b.layout.Roundable) →
    ∃ heap', heap.deallocAll blocks = .ok heap' ∧
      heap'.Lists ((blocks.map Block.region).reverse ++ free) := by
  intro blocks
  induction blocks with
  | nil => exact fun hl _ _ => ⟨_, rfl, hl⟩
  | cons b blocks ih =>
    intro heap free hl hp hround
    obtain ⟨hb, hround⟩ := List.forall_mem_cons.mp hround
    rw [List.map_cons, List.reverse_cons, List.append_assoc, List.singleton_append] at hp ⊢
    have hcons : Packed (b.region :: free) := hp.of_sublist (List.sublist_append_right ..)
    obtain ⟨heap₁, hrun₁, -, hl₁⟩ := dealloc_eq hl hcons hb
    obtain ⟨heap', hrun, hl'⟩ := ih hl₁ hp hround
    refine ⟨heap', ?_, hl'⟩
    rw [deallocAll, List.foldlM_cons, hrun₁, Exec.bind_ok]
    exact hrun

/-! ## Asking again -/

/-- A block that was just given back is found for its own layout, and nothing is left of it. -/
lemma allocFromRegion_block (hb : b.region.Sound) (hround : b.layout.Roundable)
    (halign : b.layout.blockAlign ∣ b.ptr) :
    FreeListHeap.allocFromRegion b.region b.layout.blockSize b.layout.blockAlign = some b.ptr := by
  obtain ⟨hle, hlt, hdvd, -⟩ := hb.alignUp_bounds hround
  have hstart : b.region.start = b.ptr := rfl
  have hsize : b.region.size = b.layout.blockSize := rfl
  rw [hstart] at hle hlt hdvd
  -- the next multiple of the alignment is the start itself
  have hsame : ZiranOS.alignUp b.ptr b.layout.blockAlign = b.ptr := by
    have hzero := Nat.eq_zero_of_dvd_of_lt (Nat.dvd_sub hdvd halign) (by omega)
    omega
  have hend := hb.end_le
  have hheap := heapEnd_lt
  rw [hstart, hsize] at hend
  unfold FreeListHeap.allocFromRegion
  rw [hb.endAddr_eq, hstart, hsize, hsame]
  dsimp only
  rw [if_neg (by omega), if_neg (by omega), if_neg (by omega)]

/-- An allocation takes the block in front that has its layout. -/
lemma alloc_block (hl : heap.Lists (b.region :: free)) (hp : Packed (b.region :: free))
    (hround : b.layout.Roundable) (halign : b.layout.blockAlign ∣ b.ptr)
    (hfuel : (b.region :: free).length < fuel) :
    ∃ heap', heap.alloc fuel b.layout = .ok (heap', some b.ptr) ∧ heap'.Lists free := by
  obtain ⟨heap', free', result, hrun, hlist, hl'⟩ := alloc_eq hl hp hround hfuel
  have hb := hp.sound _ List.mem_cons_self
  have hfind : FreeListHeap.findRegion b.layout.blockSize b.layout.blockAlign
      (b.region :: free) = some (b.region, b.ptr, free) := by
    rw [FreeListHeap.findRegion, extractFirst, allocFromRegion_block hb hround halign]
  have htail : b.region.tail (b.ptr + b.layout.blockSize) = [] := if_neg (lt_irrefl _)
  rw [FreeListHeap.alloc_eq_served hp.sound hround, hfind, FreeListHeap.served, htail] at hlist
  obtain ⟨hfree, rfl⟩ := Prod.mk.inj (Except.ok.inj hlist)
  obtain rfl := FreeListHeap.mk.inj hfree
  exact ⟨heap', hrun, hl'⟩

/-- **Allocations take the blocks in front**, one after another. -/
lemma allocAll_eq : ∀ {blocks : List Block} {heap : NodeHeap},
    heap.Lists (blocks.map Block.region ++ free) → Packed (blocks.map Block.region ++ free) →
    (∀ b ∈ blocks, b.layout.Roundable ∧ b.layout.blockAlign ∣ b.ptr) →
    (blocks.map Block.region ++ free).length < fuel →
    ∃ heap', heap.allocAll fuel (blocks.map Block.layout) =
        .ok (heap', blocks.map fun b => some b.ptr) ∧ heap'.Lists free := by
  intro blocks
  induction blocks with
  | nil => exact fun hl _ _ _ => ⟨_, rfl, hl⟩
  | cons b blocks ih =>
    intro heap hl hp hblocks hfuel
    obtain ⟨⟨hround, halign⟩, hblocks⟩ := List.forall_mem_cons.mp hblocks
    rw [List.map_cons, List.cons_append] at hl hp hfuel
    obtain ⟨heap₁, hrun₁, hl₁⟩ := alloc_block hl hp hround halign hfuel
    have hp₁ := hp.of_sublist (List.sublist_cons_self ..)
    obtain ⟨heap', hrun, hl'⟩ := ih hl₁ hp₁ hblocks (Nat.lt_of_succ_lt hfuel)
    refine ⟨heap', ?_, hl'⟩
    simp only [List.map_cons, allocAll, hrun₁, hrun, Exec.bind_ok, Exec.pure_eq_ok]

end NodeHeap

/-! ## Both -/

variable {s : HeapState} {free : List Region} {blocks : List Block} {fuel : ℕ}

/-- Some of the live blocks and the free regions are packed into the heap. -/
lemma HeapInv.packed_blocks (h : HeapInv s free) (hnodup : blocks.Nodup)
    (hlive : ∀ b ∈ blocks, b ∈ s.live) : Packed (blocks.map Block.region ++ free) := by
  obtain ⟨l, hperm, hsub⟩ := List.subperm_of_subset hnodup hlive
  have hp : Packed (free ++ l.map Block.region) :=
    h.packed.of_sublist ((List.Sublist.refl _).append (hsub.map _))
  refine hp.perm ?_
  exact List.perm_append_comm.trans ((hperm.map Block.region).append_right free)

/-- **Reclaiming live blocks** returns the same blocks and leaves the free list as it was. -/
lemma HeapInv.reclaim_eq (h : HeapInv s free) (hfuel : heapSize / nodeSize < fuel)
    (hnodup : blocks.Nodup) (hlive : ∀ b ∈ blocks, b ∈ s.live) :
    ∃ heap', NodeHeap.reclaim fuel blocks s.heap =
        .ok (heap', blocks.map fun b => some b.ptr) ∧ heap'.Lists free := by
  have hp := h.packed_blocks hnodup hlive
  have hblocks : ∀ b ∈ blocks, b.layout.Roundable ∧ b.layout.blockAlign ∣ b.ptr :=
    fun b hb => h.block b (hlive b hb)
  have hreverse : (blocks.reverse.map Block.region).reverse = blocks.map Block.region := by
    rw [List.map_reverse, List.reverse_reverse]
  have hpacked : Packed ((blocks.reverse.map Block.region).reverse ++ free) := by rwa [hreverse]
  obtain ⟨heap₁, hrun₁, hl₁⟩ := NodeHeap.deallocAll_eq h.lists hpacked
    fun b hb => (hblocks b (List.mem_reverse.mp hb)).1
  rw [hreverse] at hl₁
  have hlen := hp.length_le
  have h16 : nodeSize = 16 := rfl
  rw [h16] at hlen hfuel
  have hroom : (blocks.map Block.region ++ free).length < fuel := by omega
  obtain ⟨heap', hrun, hl'⟩ := NodeHeap.allocAll_eq hl₁ hp hblocks hroom
  refine ⟨heap', ?_, hl'⟩
  rw [NodeHeap.reclaim, hrun₁, Exec.bind_ok, hrun]

/-- Reclaiming live blocks several times. -/
lemma HeapInv.reclaimTimes_eq (hfuel : heapSize / nodeSize < fuel) (hnodup : blocks.Nodup) :
    ∀ (times : ℕ) {s : HeapState}, HeapInv s free → (∀ b ∈ blocks, b ∈ s.live) →
      ∃ heap', NodeHeap.reclaimTimes fuel blocks times s.heap =
          .ok (heap', List.replicate times (blocks.map fun b => some b.ptr)) ∧
        heap'.Lists free := by
  intro times
  induction times with
  | zero => exact fun h _ => ⟨_, rfl, h.lists⟩
  | succ times ih =>
    intro s h hlive
    obtain ⟨heap₁, hrun₁, hl₁⟩ := h.reclaim_eq hfuel hnodup hlive
    -- only the memory has changed
    have h₁ : HeapInv ⟨heap₁, s.live⟩ free := ⟨hl₁, h.packed, h.block⟩
    obtain ⟨heap', hrun, hl'⟩ := ih h₁ hlive
    refine ⟨heap', ?_, hl'⟩
    simp only [NodeHeap.reclaimTimes, hrun₁, hrun, Exec.bind_ok, Exec.pure_eq_ok,
      List.replicate_succ]

/-- **Exact reclaim.**  In every state that calls in accordance with the contract of an allocator
can reach, a program that gives distinct live blocks back in reverse order and allocates for their
layouts again gets the same blocks, and the free list is as it was before; and so it is however
often the program repeats that. -/
theorem reclaim_exact (fuel : ℕ) (hfuel : heapSize / nodeSize < fuel) (mem : ℕ → ℕ) :
    ∃ heap₀, NodeHeap.init ⟨mem, 0⟩ heapBase heapSize = .ok heap₀ ∧
      ∀ tr s, Run (HeapStep fuel) ⟨heap₀, []⟩ tr s →
        ∀ blocks : List Block, blocks.Nodup → (∀ b ∈ blocks, b ∈ s.live) →
          (∃ heap', NodeHeap.reclaim fuel blocks s.heap =
              .ok (heap', blocks.map fun b => some b.ptr) ∧
            ∀ free, s.heap.Lists free ↔ heap'.Lists free) ∧
          ∀ times, ∃ heap', NodeHeap.reclaimTimes fuel blocks times s.heap =
              .ok (heap', List.replicate times (blocks.map fun b => some b.ptr)) ∧
            ∀ free, s.heap.Lists free ↔ heap'.Lists free := by
  obtain ⟨heap₀, hinit, hinv⟩ := init_inv mem
  refine ⟨heap₀, hinit, fun tr s hrun blocks hnodup hlive => ?_⟩
  obtain ⟨free, hfree⟩ := hrun.invariant (I := fun s => ∃ free, HeapInv s free)
    (fun s e t hs hstep => hs.elim fun free hfree => hfree.step hfuel hstep) ⟨_, hinv⟩
  -- two heaps with this free list have no other
  have hsame : ∀ {heap' : NodeHeap}, heap'.Lists free →
      ∀ free', s.heap.Lists free' ↔ heap'.Lists free' := by
    intro heap' hl' free'
    constructor
    · intro h
      rwa [h.unique hfree.lists]
    · intro h
      rw [h.unique hl']
      exact hfree.lists
  refine ⟨?_, fun times => ?_⟩
  · obtain ⟨heap', hreclaim, hl'⟩ := hfree.reclaim_eq hfuel hnodup hlive
    exact ⟨heap', hreclaim, hsame hl'⟩
  · obtain ⟨heap', hreclaim, hl'⟩ := hfree.reclaimTimes_eq hfuel hnodup times hlive
    exact ⟨heap', hreclaim, hsame hl'⟩

/-- A request of 24 bytes. -/
def smallLayout : Layout := ⟨24, 8, ⟨3, by decide, rfl⟩, by decide⟩

/-- A request of 40 bytes. -/
def wideLayout : Layout := ⟨40, 8, ⟨3, by decide, rfl⟩, by decide⟩

/-- The first block for 24 bytes lies at the start of the heap. -/
lemma step_smallLayout {heap₀ : NodeHeap} (h : HeapInv ⟨heap₀, []⟩ [⟨heapBase, heapSize⟩]) :
    ∃ heap₁, HeapStep 65537 ⟨heap₀, []⟩ (.alloc smallLayout (some heapBase))
        ⟨heap₁, [⟨heapBase, smallLayout⟩]⟩ ∧
      HeapInv ⟨heap₁, [⟨heapBase, smallLayout⟩]⟩ [⟨heapBase + 24, heapSize - 24⟩] :=
  h.alloc_step (by decide) ⟨by decide, by decide⟩ (by decide +kernel)

/-- Of two blocks the smaller one comes first; in the other order it would be cut off the larger
one. -/
theorem reclaim_exact_wideLayout : ∃ heap₀ tr s heap',
    NodeHeap.init ⟨fun _ => 0, 0⟩ heapBase heapSize = .ok heap₀ ∧
      Run (HeapStep 65537) ⟨heap₀, []⟩ tr s ∧
      tr.map Transition.event = [.alloc smallLayout (some heapBase),
        .alloc wideLayout (some (heapBase + 24))] ∧
      NodeHeap.reclaimTimes 65537 [⟨heapBase, smallLayout⟩, ⟨heapBase + 24, wideLayout⟩] 2 s.heap =
        .ok (heap', List.replicate 2 [some heapBase, some (heapBase + 24)]) := by
  obtain ⟨heap₀, hinit, hreclaim⟩ := reclaim_exact 65537 (by decide) fun _ => 0
  obtain ⟨heap₀', hinit', hinv⟩ := init_inv fun _ => 0
  obtain rfl := Except.ok.inj (hinit.symm.trans hinit')
  obtain ⟨heap₁, hstep₁, h₁⟩ := step_smallLayout hinv
  have hlist : FreeListHeap.alloc ⟨[⟨heapBase + 24, heapSize - 24⟩]⟩ wideLayout =
      (.ok (⟨[⟨heapBase + 64, heapSize - 64⟩]⟩, some (heapBase + 24)) : Exec Unit _) := by
    decide +kernel
  have hfuel : heapSize / nodeSize < 65537 := by decide
  obtain ⟨heap₂, hstep₂, -⟩ := h₁.alloc_step hfuel ⟨by decide, by decide⟩ hlist
  have hrun := Run.cons hstep₁ (.cons hstep₂ (.nil _))
  obtain ⟨-, htimes⟩ := hreclaim _ _ hrun [⟨heapBase, smallLayout⟩, ⟨heapBase + 24, wideLayout⟩]
    (by simp) (by simp)
  obtain ⟨heap', hrun', -⟩ := htimes 2
  exact ⟨heap₀, _, _, heap', hinit, hrun, rfl, hrun'⟩

end ZiranOS
