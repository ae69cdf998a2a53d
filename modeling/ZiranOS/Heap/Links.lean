import ZiranOS.Heap.Packing
import ZiranOS.Heap.Memory
import ZiranOS.Lib.Linked

/-!
# The list in memory is the list of regions

`NodeHeap.Lists h l` says that the nodes in memory are those of the regions `l`, in this order.  As
long as the regions are packed into the heap, each operation in memory does to the nodes what the
list model does to the list, without a fault and within as many steps as there are regions
(`alloc_eq`, `addFreeRegion_eq`, `sumFree_eq`).  Nodes lie in free regions only, so writes elsewhere
leave the list (`Lists.congr`).
-/

namespace ZiranOS

open ProgLib

namespace NodeHeap

/-- The nodes of the heap as a linked list. -/
def linked (h : NodeHeap) : Linked ℕ := ⟨h.head, fun addr => h.mem (addr + 8)⟩

/-- The list in memory consists of the nodes of the given regions. -/
structure Lists (h : NodeHeap) (l : List Region) : Prop where
  nodes : h.linked.Nodes 0 (l.map Region.start)
  size : ∀ r ∈ l, h.mem r.start = r.size

variable {h h' : NodeHeap} {l l₁ l₂ free live : List Region} {r : Region} {layout : Layout}

/-! ## Reading the list -/

/-- The cell behind the regions walked so far. -/
def cellOf (l : List Region) : Option ℕ := (l.map Region.start).getLast?

/-- The pointer in a cell of the list. -/
lemma getNext_eq (h : NodeHeap) (cell : Option ℕ) : h.getNext cell = h.linked.get cell := by
  cases cell <;> rfl

/-- Behind the last region the cell holds 0. -/
lemma Lists.getNext_nil (hl : h.Lists l) : h.getNext (cellOf l) = 0 := by
  have hnodes := hl.nodes
  rw [← List.append_nil (l.map Region.start)] at hnodes
  rw [getNext_eq]
  exact hnodes.get

/-- Behind the regions walked so far the cell points to the next one. -/
lemma Lists.getNext_cons (hl : h.Lists (l₁ ++ r :: l₂)) :
    h.getNext (cellOf l₁) = r.start ∧ r.start ≠ 0 ∧ h.regionAt r.start = r := by
  have hnodes := hl.nodes
  rw [List.map_append, List.map_cons] at hnodes
  obtain ⟨heq, hne, -⟩ := hnodes.get
  refine ⟨by rw [getNext_eq]; exact heq, hne, ?_⟩
  unfold regionAt
  rw [hl.size r (by simp)]

/-- A list depends on the head and on the words of its nodes. -/
lemma Lists.congr (hl : h.Lists l) (hhead : h'.head = h.head)
    (hmem : ∀ r ∈ l, h'.mem r.start = h.mem r.start ∧ h'.mem (r.start + 8) = h.mem (r.start + 8)) :
    h'.Lists l where
  nodes := by
    refine hl.nodes.congr hhead fun addr haddr => ?_
    obtain ⟨r, hr, rfl⟩ := List.mem_map.mp haddr
    exact (hmem r hr).2
  size r hr := (hmem r hr).1.trans (hl.size r hr)

/-! ## Pushing a region -/

/-- A multiple of 8 is aligned for a node. -/
lemma alignUp_nodeAlign {addr : ℕ} (hdvd : 8 ∣ addr) (hlt : addr < 2 ^ 32) :
    alignUp addr nodeAlign = .ok addr := by
  have h8 : nodeAlign = 8 := rfl
  have hlist := ZiranOS.alignUp_eq hdvd hlt
  rw [ZiranOS.alignUp, Nat.mod_eq_of_lt (by omega)] at hlist
  rw [alignUp, addUsize_eq (by omega), Exec.bind_ok, hlist]
  rfl

/-- The heap after a region was pushed. -/
def pushed (h : NodeHeap) (r : Region) : NodeHeap where
  mem := Function.update (Function.update h.mem r.start r.size) (r.start + 8) h.head
  head := r.start

/-- Pushing a region of the heap does not fault. -/
lemma addFreeRegion_eq (hr : r.Sound) : h.addFreeRegion r.start r.size = .ok (h.pushed r) := by
  have hnode := hr.node_le
  have hend := hr.end_le
  have hheap := heapEnd_lt
  unfold addFreeRegion
  rw [alignUp_nodeAlign hr.start_dvd (by omega), Exec.bind_ok, if_neg (by simp), if_pos hnode]
  rfl

/-- **Pushing a region** that does not overlap the listed ones puts its node in front. -/
lemma Lists.pushed (hl : h.Lists l) (hp : Packed (r :: l)) : (h.pushed r).Lists (r :: l) := by
  have hbase := (hp.sound r List.mem_cons_self).base_le
  have hnode := (hp.sound r List.mem_cons_self).node_le
  have h16 : nodeSize = 16 := rfl
  have hbase0 : 0 < heapBase := by decide
  -- the words of the new node lie in no other region
  have hother : ∀ x ∈ l, x.start ≠ r.start ∧ x.start ≠ r.start + 8 ∧ x.start + 8 ≠ r.start := by
    intro x hx
    have hd : r.start + r.size ≤ x.start ∨ x.start + x.size ≤ r.start := hp.disjoint_of_cons x hx
    have hxnode := (hp.sound x (List.mem_cons_of_mem _ hx)).node_le
    omega
  have hnew : r.start ∉ l.map Region.start := by
    intro hmem
    obtain ⟨x, hx, heq⟩ := List.mem_map.mp hmem
    exact (hother x hx).1 heq
  refine ⟨?_, fun x hx => ?_⟩
  · have hpush := Linked.Nodes.push hl.nodes hnew (by omega)
    refine hpush.congr rfl fun addr haddr => ?_
    unfold linked NodeHeap.pushed
    dsimp only
    rw [Function.update_apply, Function.update_apply, Function.update_apply]
    rcases List.mem_cons.mp haddr with rfl | haddr
    · rw [if_pos rfl, if_pos rfl]
    · obtain ⟨x, hx, rfl⟩ := List.mem_map.mp haddr
      obtain ⟨h₁, h₂, h₃⟩ := hother x hx
      rw [if_neg (by omega), if_neg h₃, if_neg h₁]
  · unfold NodeHeap.pushed
    dsimp only
    rcases List.mem_cons.mp hx with rfl | hx
    · rw [Function.update_of_ne (by omega), Function.update_self]
    · obtain ⟨h₁, h₂, -⟩ := hother x hx
      rw [Function.update_of_ne h₂, Function.update_of_ne h₁]
      exact hl.size x hx

/-! ## Unlinking a region -/

/-- Writing a cell of the heap is writing a cell of the linked list. -/
lemma linked_setNext (h : NodeHeap) (cell : Option ℕ) (next : ℕ) :
    (h.setNext cell next).linked = h.linked.set cell next := by
  cases cell with
  | none => rfl
  | some addr =>
    change Linked.mk h.head _ = Linked.mk h.head _
    congr 1
    funext b
    change Function.update h.mem (addr + 8) next (b + 8) =
      Function.update h.linked.next addr next b
    rw [Function.update_apply, Function.update_apply]
    exact if_congr (by omega) rfl rfl

/-- Writing the cell of a region leaves the sizes of regions that do not overlap it. -/
lemma setNext_mem (hp : Packed l) {addr next : ℕ} (haddr : addr ∈ l.map Region.start)
    (hr : r ∈ l) : (h.setNext (some addr) next).mem r.start = h.mem r.start := by
  obtain ⟨x, hx, rfl⟩ := List.mem_map.mp haddr
  refine Function.update_of_ne ?_ _ _
  by_cases hxr : r = x
  · rw [hxr]
    omega
  · have hd : r.start + r.size ≤ x.start ∨ x.start + x.size ≤ r.start :=
      hp.disjoint_of_ne hr hx hxr
    have hrnode := (hp.sound r hr).node_le
    have hxnode := (hp.sound x hx).node_le
    have h16 : nodeSize = 16 := rfl
    omega

/-- Writing the head leaves all sizes, and writing another cell those of the listed regions. -/
lemma setNext_cellOf_mem (hp : Packed l) (hsub : l₁ ⊆ l) {next : ℕ} (hr : r ∈ l) :
    (h.setNext (cellOf l₁) next).mem r.start = h.mem r.start := by
  unfold cellOf
  cases hcell : (l₁.map Region.start).getLast? with
  | none => rfl
  | some addr =>
    obtain ⟨x, hx, rfl⟩ := List.mem_map.mp (List.mem_of_getLast? hcell)
    exact setNext_mem hp (List.mem_map_of_mem (hsub hx)) hr

/-- **Unlinking a region**: the two writes leave the list of the others, and the size of the
region. -/
lemma Lists.unlink (hl : h.Lists (l₁ ++ r :: l₂)) (hp : Packed (l₁ ++ r :: l₂)) :
    ((h.setNext (some r.start) 0).setNext (cellOf l₁) (h.getNext (some r.start))).Lists
        (l₁ ++ l₂) ∧
      ((h.setNext (some r.start) 0).setNext (cellOf l₁) (h.getNext (some r.start))).mem r.start =
        r.size := by
  have hnodes := hl.nodes
  have hnodup := hnodes.nodup
  rw [List.map_append, List.map_cons] at hnodes hnodup
  obtain ⟨hnot, -⟩ := List.nodup_cons.mp (List.perm_middle.nodup_iff.mp hnodup)
  have hsub : l₁ ⊆ l₁ ++ r :: l₂ := List.subset_append_left ..
  have hmemr : r ∈ l₁ ++ r :: l₂ := by simp
  -- sizes are not written
  have hsize : ∀ x ∈ l₁ ++ r :: l₂, ((h.setNext (some r.start) 0).setNext (cellOf l₁)
      (h.getNext (some r.start))).mem x.start = x.size := by
    intro x hx
    rw [setNext_cellOf_mem hp hsub hx, setNext_mem hp (List.mem_map_of_mem hmemr) hx]
    exact hl.size x hx
  refine ⟨⟨?_, fun x hx => hsize x ?_⟩, hsize r hmemr⟩
  · have hcell : some r.start ≠ cellOf l₁ := by
      intro heq
      exact hnot (List.mem_append_left _ (List.mem_of_getLast? heq.symm))
    rw [linked_setNext, linked_setNext, Linked.set_comm hcell, List.map_append]
    exact hnodes.unlink.set_of_notMem hnot 0
  · rcases List.mem_append.mp hx with hx | hx <;> simp [hx]

/-! ## The search -/

/-- The check of a region does what it does in the list model. -/
lemma allocFromRegion_eq (hr : r.Sound) (hlay : layout.Roundable) :
    allocFromRegion r layout.blockSize layout.blockAlign =
      .ok (FreeListHeap.allocFromRegion r layout.blockSize layout.blockAlign) := by
  obtain ⟨-, hlt, -, hsum⟩ := hr.alignUp_bounds hlay
  have hpos := layout.blockAlign_pos
  have hend := hr.end_le
  have hheap := heapEnd_lt
  have halign : alignUp r.start layout.blockAlign =
      .ok (ZiranOS.alignUp r.start layout.blockAlign) := by
    rw [alignUp, addUsize_eq hsum, Exec.bind_ok, ZiranOS.alignUp, Nat.mod_eq_of_lt (by omega)]
    rfl
  have hregion : endAddr r = .ok r.endAddr := by
    rw [endAddr, addUsize_eq (by omega), hr.endAddr_eq]
  unfold allocFromRegion FreeListHeap.allocFromRegion
  rw [halign, Exec.bind_ok]
  dsimp only
  split_ifs with h₁ h₂ h₃
  · rfl
  · rw [hregion, Exec.bind_ok, if_pos h₂]
    rfl
  · rw [hregion, Exec.bind_ok, if_neg h₂, if_pos h₃]
    rfl
  · rw [hregion, Exec.bind_ok, if_neg h₂, if_neg h₃]
    rfl

/-- What the search leaves of the list. -/
def unlinked (l : List Region) : Option (Region × ℕ × List Region) → List Region
  | none => l
  | some x => x.2.2

/-- What the search leaves of a list whose first region it goes past. -/
lemma unlinked_cons (r : Region) (l : List Region) (found : Option (Region × ℕ × List Region)) :
    unlinked (r :: l) (found.map fun x => (x.1, x.2.1, r :: x.2.2)) = r :: unlinked l found := by
  cases found with
  | none => rfl
  | some x => rfl

/-- **The search finds and unlinks the region that the list model finds**, after at most one step
for each region. -/
lemma findRegion_eq (hlay : layout.Roundable) : ∀ l₂ l₁ fuel, h.Lists (l₁ ++ l₂) →
    Packed (l₁ ++ l₂) → l₂.length < fuel →
    ∃ h', findRegion layout.blockSize layout.blockAlign h fuel (cellOf l₁) =
        .ok (h', (FreeListHeap.findRegion layout.blockSize layout.blockAlign l₂).map
          fun x => (x.1.start, x.2.1)) ∧
      h'.Lists (l₁ ++ unlinked l₂
        (FreeListHeap.findRegion layout.blockSize layout.blockAlign l₂)) ∧
      ∀ x, FreeListHeap.findRegion layout.blockSize layout.blockAlign l₂ = some x →
        h'.mem x.1.start = x.1.size := by
  intro l₂
  induction l₂ with
  | nil =>
    intro l₁ fuel hl hp hfuel
    obtain ⟨fuel, rfl⟩ := Nat.exists_eq_succ_of_ne_zero (Nat.ne_of_gt hfuel)
    refine ⟨h, ?_, hl, fun x hx => nomatch hx⟩
    rw [List.append_nil] at hl
    rw [findRegion, hl.getNext_nil, if_pos rfl]
    rfl
  | cons r l₂ ih =>
    intro l₁ fuel hl hp hfuel
    obtain ⟨fuel, rfl⟩ := Nat.exists_eq_succ_of_ne_zero (Nat.ne_of_gt (Nat.zero_lt_of_lt hfuel))
    obtain ⟨hnext, hne, hregion⟩ := hl.getNext_cons
    have hr := hp.sound r (by simp)
    rw [findRegion, hnext, if_neg hne, hregion, allocFromRegion_eq hr hlay, Exec.bind_ok]
    rw [FreeListHeap.findRegion, extractFirst]
    cases halloc : FreeListHeap.allocFromRegion r layout.blockSize layout.blockAlign with
    | some start =>
      obtain ⟨hrest, hsize⟩ := hl.unlink hp
      refine ⟨_, rfl, hrest, fun x hx => ?_⟩
      obtain rfl := Option.some.inj hx
      exact hsize
    | none =>
      have hassoc : l₁ ++ r :: l₂ = l₁ ++ [r] ++ l₂ := by simp
      rw [hassoc] at hl hp
      obtain ⟨h', hrun, hrest, hsize⟩ :=
        ih (l₁ ++ [r]) fuel hl hp (by rw [List.length_cons] at hfuel; omega)
      have hcell : cellOf (l₁ ++ [r]) = some r.start := by
        rw [cellOf, List.map_append, List.map_singleton, List.getLast?_concat]
      rw [hcell] at hrun
      refine ⟨h', ?_, ?_, fun x hx => ?_⟩
      · refine hrun.trans ?_
        rw [Option.map_map]
        rfl
      · rw [List.append_assoc, List.singleton_append] at hrest
        rwa [unlinked_cons]
      · obtain ⟨y, hy, rfl⟩ := Option.map_eq_some_iff.mp hx
        exact hsize y hy

/-! ## The operations -/

/-- **An allocation in memory is an allocation in the list model.** -/
lemma alloc_eq {fuel : ℕ} (hl : h.Lists free) (hp : Packed free) (hlay : layout.Roundable)
    (hfuel : free.length < fuel) :
    ∃ h' free' r, h.alloc fuel layout = .ok (h', r) ∧
      FreeListHeap.alloc ⟨free⟩ layout = (.ok (⟨free'⟩, r) : Exec Unit _) ∧ h'.Lists free' := by
  obtain ⟨h₁, hrun, hrest, hsize⟩ := findRegion_eq (h := h) hlay free [] fuel hl hp hfuel
  have hcell : cellOf [] = none := rfl
  rw [hcell] at hrun
  rw [List.nil_append] at hrest
  rw [FreeListHeap.alloc_eq_served hp.sound hlay, alloc, hlay.sizeAlign_eq, Exec.bind_ok]
  dsimp only
  rw [hrun, Exec.bind_ok]
  cases hfind : FreeListHeap.findRegion layout.blockSize layout.blockAlign free with
  | none =>
    rw [hfind] at hrest
    exact ⟨h₁, free, none, rfl, rfl, hrest⟩
  | some x =>
    obtain ⟨r, start, rest⟩ := x
    rw [hfind] at hrest
    obtain ⟨hserves, hperm⟩ := FreeListHeap.findRegion_some hp.sound hlay hfind
    have hpacked := hserves.packed (hp.perm hperm)
    have hregion : h₁.regionAt r.start = r := by
      unfold regionAt
      rw [hsize _ hfind]
    have hr := hp.sound r (hperm.mem_iff.mpr List.mem_cons_self)
    have hend := hr.end_le
    have hheap := heapEnd_lt
    have hfits := hserves.fits
    have hadd : (addUsize start layout.blockSize : Exec Unit ℕ) =
        .ok (start + layout.blockSize) := addUsize_eq (by omega)
    have hendAddr : endAddr r = .ok (r.start + r.size) := addUsize_eq (by omega)
    have hserved : FreeListHeap.served layout free (some (r, start, rest)) =
        (⟨r.tail (start + layout.blockSize) ++ rest⟩, some start) := rfl
    simp only [Option.map_some, hadd, hregion, hendAddr, Exec.bind_ok, hserved]
    unfold Region.tail at hpacked ⊢
    by_cases hlt : start + layout.blockSize < r.start + r.size
    · -- the rest of the region is pushed
      rw [if_pos hlt] at hpacked
      rw [if_pos (by omega), if_pos hlt]
      have hcons : Packed (⟨start + layout.blockSize, r.start + r.size -
          (start + layout.blockSize)⟩ :: rest) := by
        refine hpacked.of_sublist ?_
        rw [List.append_assoc]
        exact List.Sublist.cons_cons _ (List.sublist_append_right ..)
      exact ⟨_, _, _, congrArg (· >>= _) (addFreeRegion_eq (hcons.sound _ List.mem_cons_self)),
        rfl, hrest.pushed hcons⟩
    · rw [if_neg (by omega), if_neg hlt]
      exact ⟨h₁, rest, some start, rfl, rfl, hrest⟩

/-- **A deallocation pushes the block to the front**, as in the list model. -/
lemma dealloc_eq {ptr : ℕ} (hl : h.Lists free) (hp : Packed (⟨ptr, layout.blockSize⟩ :: free))
    (hlay : layout.Roundable) :
    ∃ h', h.dealloc ptr layout = .ok h' ∧
      FreeListHeap.dealloc ⟨free⟩ ptr layout =
        (.ok ⟨⟨ptr, layout.blockSize⟩ :: free⟩ : Exec Unit FreeListHeap) ∧
      h'.Lists (⟨ptr, layout.blockSize⟩ :: free) := by
  refine ⟨h.pushed ⟨ptr, layout.blockSize⟩, ?_, ?_, hl.pushed hp⟩
  · rw [dealloc, hlay.sizeAlign_eq, Exec.bind_ok]
    exact addFreeRegion_eq (hp.sound _ List.mem_cons_self)
  · rw [FreeListHeap.dealloc, hlay.sizeAlign_eq, Exec.bind_ok]
    exact if_pos layout.nodeSize_le_blockSize

/-- The walk over the list adds up the sizes, one step for each region. -/
lemma sumFree_eq : ∀ (l : List Region) (p fuel total : ℕ),
    Segment 0 (fun addr => h.mem (addr + 8)) p (l.map Region.start) 0 →
    (∀ r ∈ l, h.mem r.start = r.size) → l.length < fuel → total + totalSize l < 2 ^ 64 →
    h.sumFree fuel p total = .ok (total + totalSize l) := by
  intro l
  induction l with
  | nil =>
    intro p fuel total hseg _ hfuel _
    obtain ⟨fuel, rfl⟩ := Nat.exists_eq_succ_of_ne_zero (Nat.ne_of_gt hfuel)
    obtain rfl : p = 0 := hseg
    rw [sumFree, if_pos rfl]
    rfl
  | cons r l ih =>
    intro p fuel total hseg hsize hfuel htotal
    obtain ⟨fuel, rfl⟩ := Nat.exists_eq_succ_of_ne_zero (Nat.ne_of_gt (Nat.zero_lt_of_lt hfuel))
    obtain ⟨rfl, hne, hseg⟩ := hseg
    obtain ⟨hr, hsize⟩ := List.forall_mem_cons.mp hsize
    rw [totalSize_cons] at htotal ⊢
    rw [List.length_cons] at hfuel
    rw [sumFree, if_neg hne, hr, addUsize_eq (by omega), Exec.bind_ok,
      ih _ fuel _ hseg hsize (by omega) (by omega), Nat.add_assoc]

/-- **The statistics count the free bytes.** -/
lemma stats_eq {fuel : ℕ} (hl : h.Lists free) (hp : Packed free) (hfuel : free.length < fuel) :
    h.stats fuel = .ok (heapSize - totalSize free, totalSize free) := by
  have hheap : heapSize < 2 ^ 64 := by decide
  have htotal := hp.total
  have hsum := sumFree_eq free h.head fuel 0 hl.nodes hl.size hfuel (by omega)
  rw [stats, hsum, Exec.bind_ok, Nat.zero_add]
  rfl

end NodeHeap

end ZiranOS
