import ZiranOS.Heap.Blocks

/-!
# Regions and blocks packed into the heap

`Packed` says that regions lie in the heap, are fit to hold a node, and do not overlap.  It is a
statement about free regions and live blocks together, in any order: an allocation cuts one of them
into at most a block and a rest (`Packed.cut`), and a deallocation only moves a block from one side
to the other.

The rest of the file is what a request of any alignment gets from a region (`Region.Serves`), for
the list model of the allocator (`alloc_cases`).
-/

namespace ZiranOS

open ProgLib

/-! ## Regions of the heap -/

/-- A region that can hold a node and lies in the heap. -/
structure Region.Sound (r : Region) : Prop extends r.Ok where
  base_le : heapBase ≤ r.start

/-- Two regions have no byte in common. -/
def Region.Disjoint (r r' : Region) : Prop :=
  r.start + r.size ≤ r'.start ∨ r'.start + r'.size ≤ r.start

/-- Disjointness is symmetric. -/
lemma Region.Disjoint.symm {r r' : Region} (h : r.Disjoint r') : r'.Disjoint r := Or.symm h

instance : Std.Symm Region.Disjoint := ⟨fun _ _ h => h.symm⟩

/-- The sizes of regions together. -/
def totalSize (l : List Region) : ℕ := (l.map Region.size).sum

@[simp] lemma totalSize_nil : totalSize [] = 0 := rfl

@[simp] lemma totalSize_cons (r : Region) (l : List Region) :
    totalSize (r :: l) = r.size + totalSize l := rfl

@[simp] lemma totalSize_append (l l' : List Region) :
    totalSize (l ++ l') = totalSize l + totalSize l' := by
  unfold totalSize
  rw [List.map_append, List.sum_append]

/-- Regions that are fit to hold a node, lie in the heap and do not overlap. -/
structure Packed (l : List Region) : Prop where
  sound : ∀ r ∈ l, r.Sound
  disjoint : l.Pairwise Region.Disjoint
  total : totalSize l ≤ heapSize

namespace Packed

variable {l l' : List Region} {r r' : Region}

/-- The order does not matter. -/
lemma perm (h : Packed l) (hperm : l.Perm l') : Packed l' where
  sound r hr := h.sound r (hperm.mem_iff.mpr hr)
  disjoint := (hperm.pairwise_iff fun hd => hd.symm).mp h.disjoint
  total := by
    have htotal : totalSize l = totalSize l' := (hperm.map Region.size).sum_eq
    exact htotal ▸ h.total

/-- **Cutting a region keeps the heap packed**: the pieces lie in it and do not overlap. -/
lemma cut (h : Packed (r :: l)) {pieces : List Region} (hsound : ∀ x ∈ pieces, x.Sound)
    (hdisjoint : pieces.Pairwise Region.Disjoint)
    (hin : ∀ x ∈ pieces, r.start ≤ x.start ∧ x.start + x.size ≤ r.start + r.size)
    (htotal : totalSize pieces ≤ r.size) : Packed (pieces ++ l) := by
  obtain ⟨hr, hl⟩ := List.pairwise_cons.mp h.disjoint
  refine ⟨fun x hx => ?_, List.pairwise_append.mpr ⟨hdisjoint, hl, fun x hx y hy => ?_⟩, ?_⟩
  · rcases List.mem_append.mp hx with hx | hx
    · exact hsound x hx
    · exact h.sound x (List.mem_cons_of_mem _ hx)
  · have hxr := hin x hx
    have hry : r.start + r.size ≤ y.start ∨ y.start + y.size ≤ r.start := hr y hy
    rcases hry with hle | hle
    · exact Or.inl (by omega)
    · exact Or.inr (by omega)
  · have := h.total
    rw [totalSize_cons] at this
    rw [totalSize_append]
    omega

/-- Different regions of a packed heap are disjoint. -/
lemma disjoint_of_ne (h : Packed l) (hr : r ∈ l) (hr' : r' ∈ l) (hne : r ≠ r') : r.Disjoint r' :=
  h.disjoint.forall hr hr' hne

/-- Regions of a packed heap that come first are disjoint from the others. -/
lemma disjoint_of_cons (h : Packed (r :: l)) : ∀ x ∈ l, r.Disjoint x :=
  (List.pairwise_cons.mp h.disjoint).1

/-- Part of a packed heap. -/
lemma of_sublist (h : Packed l) (hsub : l'.Sublist l) : Packed l' where
  sound r hr := h.sound r (hsub.subset hr)
  disjoint := h.disjoint.sublist hsub
  total := by
    refine le_trans ?_ h.total
    exact (hsub.map Region.size).sum_le_sum fun _ _ => Nat.zero_le _

/-- A packed heap has no more regions than nodes have room. -/
lemma length_le (h : Packed l) : nodeSize * l.length ≤ heapSize := by
  refine le_trans ?_ h.total
  have hnode : ∀ r ∈ l, nodeSize ≤ r.size := fun r hr => (h.sound r hr).node_le
  clear h
  induction l with
  | nil => exact le_rfl
  | cons r l ih =>
    obtain ⟨hr, hl⟩ := List.forall_mem_cons.mp hnode
    rw [List.length_cons, Nat.mul_succ, totalSize_cons]
    have := ih hl
    omega

end Packed

/-! ## Requests -/

namespace Layout

/-- The requests that the language admits and the allocator can round. -/
def Roundable (layout : Layout) : Prop :=
  1 ≤ layout.size ∧ layout.size + max layout.align nodeAlign ≤ 2 ^ 63

/-- The alignment of the block for a request. -/
def blockAlign (layout : Layout) : ℕ := max layout.align nodeAlign

/-- The size of the block for a request. -/
def blockSize (layout : Layout) : ℕ :=
  max ((layout.size + layout.blockAlign - 1) / layout.blockAlign * layout.blockAlign) nodeSize

variable {layout : Layout}

/-- A request is rounded to its block. -/
lemma Roundable.sizeAlign_eq {ε : Type} (h : layout.Roundable) :
    (sizeAlign layout : Exec ε (ℕ × ℕ)) = .ok (layout.blockSize, layout.blockAlign) := by
  unfold sizeAlign
  dsimp only
  rw [if_pos h.2]
  rfl

/-- The alignment of a block is a power of two, and at least that of a node. -/
lemma blockAlign_pow (layout : Layout) : ∃ k, 3 ≤ k ∧ layout.blockAlign = 2 ^ k := by
  obtain ⟨k, -, hk⟩ := layout.align_pow
  have h8 : nodeAlign = 2 ^ 3 := rfl
  unfold blockAlign
  rw [hk, h8]
  rcases le_total 3 k with hle | hle
  · exact ⟨k, hle, max_eq_left (Nat.pow_le_pow_right two_pos hle)⟩
  · exact ⟨3, le_rfl, max_eq_right (Nat.pow_le_pow_right two_pos hle)⟩

/-- The alignment that was asked for divides that of the block. -/
lemma align_dvd_blockAlign (layout : Layout) : layout.align ∣ layout.blockAlign := by
  obtain ⟨k, -, hk⟩ := layout.align_pow
  have h8 : nodeAlign = 2 ^ 3 := rfl
  unfold blockAlign
  rw [hk, h8]
  rcases le_total 3 k with hle | hle
  · rw [max_eq_left (Nat.pow_le_pow_right two_pos hle)]
  · rw [max_eq_right (Nat.pow_le_pow_right two_pos hle)]
    exact pow_dvd_pow 2 hle

/-- A block is aligned for a node. -/
lemma eight_dvd_blockAlign (layout : Layout) : 8 ∣ layout.blockAlign := by
  obtain ⟨k, hk, heq⟩ := layout.blockAlign_pow
  rw [heq]
  exact pow_dvd_pow 2 hk

/-- The alignment of a block is positive. -/
lemma blockAlign_pos (layout : Layout) : 0 < layout.blockAlign := by
  obtain ⟨k, -, heq⟩ := layout.blockAlign_pow
  rw [heq]
  exact Nat.two_pow_pos k

/-- A block is a multiple of 8. -/
lemma eight_dvd_blockSize (layout : Layout) : 8 ∣ layout.blockSize := by
  unfold blockSize
  rcases max_choice ((layout.size + layout.blockAlign - 1) / layout.blockAlign *
    layout.blockAlign) nodeSize with h | h
  · rw [h]
    exact (eight_dvd_blockAlign layout).mul_left _
  · rw [h, nodeSize]
    norm_num

/-- A block has room for a node. -/
lemma nodeSize_le_blockSize (layout : Layout) : nodeSize ≤ layout.blockSize := le_max_right _ _

/-- A block spans the request. -/
lemma size_le_blockSize (layout : Layout) : layout.size ≤ layout.blockSize := by
  have hpos := layout.blockAlign_pos
  have hdiv := Nat.div_add_mod (layout.size + layout.blockAlign - 1) layout.blockAlign
  have hmod := Nat.mod_lt (layout.size + layout.blockAlign - 1) hpos
  rw [Nat.mul_comm] at hdiv
  refine le_trans ?_ (le_max_left _ _)
  omega

/-- A block is at most half of the address space, and so is its alignment. -/
lemma Roundable.bounds (h : layout.Roundable) :
    layout.blockSize ≤ 2 ^ 63 ∧ layout.blockAlign ≤ 2 ^ 63 := by
  have hle : layout.size + layout.blockAlign ≤ 2 ^ 63 := h.2
  have hround := Nat.div_mul_le_self (layout.size + layout.blockAlign - 1) layout.blockAlign
  refine ⟨max_le (by omega) (by decide), by omega⟩

end Layout

/-! ## What a region gives to a request -/

/-- The region can hold the block of the request at the given start, and what is left behind the
block is nothing or has room for a node. -/
structure Region.Serves (r : Region) (layout : Layout) (start : ℕ) : Prop where
  start_le : r.start ≤ start
  dvd : layout.blockAlign ∣ start
  fits : start + layout.blockSize = r.start + r.size ∨
    start + layout.blockSize + nodeSize ≤ r.start + r.size

/-- What is left of a region behind the address `stop`. -/
def Region.tail (r : Region) (stop : ℕ) : List Region :=
  if stop < r.start + r.size then [⟨stop, r.start + r.size - stop⟩] else []

variable {r : Region} {layout : Layout} {start : ℕ} {free live rest : List Region}

/-- Rounding up without overflow. -/
lemma alignUp_two_pow {addr k : ℕ} (hk : k ≤ 64) (hlt : addr + 2 ^ k ≤ 2 ^ 64) :
    alignUp addr (2 ^ k) = (addr + 2 ^ k - 1) / 2 ^ k * 2 ^ k := by
  have hpos := Nat.two_pow_pos k
  have hmod : (addr + 2 ^ k - 1) % 2 ^ 64 = addr + 2 ^ k - 1 := Nat.mod_eq_of_lt (by omega)
  rw [alignUp, hmod, not64_two_pow_sub_one, and_mask_eq hk (by omega)]

/-- Rounding up reaches the next multiple. -/
lemma alignUp_bounds {addr k : ℕ} (hk : k ≤ 64) (hlt : addr + 2 ^ k ≤ 2 ^ 64) :
    addr ≤ alignUp addr (2 ^ k) ∧ alignUp addr (2 ^ k) < addr + 2 ^ k ∧
      2 ^ k ∣ alignUp addr (2 ^ k) := by
  have hpos := Nat.two_pow_pos k
  have hdiv := Nat.div_add_mod (addr + 2 ^ k - 1) (2 ^ k)
  have hmod := Nat.mod_lt (addr + 2 ^ k - 1) hpos
  rw [Nat.mul_comm] at hdiv
  rw [alignUp_two_pow hk hlt]
  exact ⟨by omega, by omega, Dvd.intro_left _ rfl⟩

/-- The start of a region of the heap is rounded up without overflow. -/
lemma Region.Sound.alignUp_bounds (hr : r.Sound) (hl : layout.Roundable) :
    r.start ≤ alignUp r.start layout.blockAlign ∧
      alignUp r.start layout.blockAlign < r.start + layout.blockAlign ∧
      layout.blockAlign ∣ alignUp r.start layout.blockAlign ∧
      r.start + layout.blockAlign < 2 ^ 64 := by
  obtain ⟨k, -, hk⟩ := layout.blockAlign_pow
  have hend := hr.end_le
  have hheap := heapEnd_lt
  have hle := hl.bounds.2
  have hk64 : k ≤ 64 := by
    by_contra hno
    have : 2 ^ 64 ≤ 2 ^ k := Nat.pow_le_pow_right two_pos (by omega)
    omega
  rw [hk] at hle ⊢
  obtain ⟨h₁, h₂, h₃⟩ := ZiranOS.alignUp_bounds hk64 (show r.start + 2 ^ k ≤ 2 ^ 64 by omega)
  exact ⟨h₁, h₂, h₃, by omega⟩

/-- **A region that is taken serves the request.** -/
lemma serves_of_allocFromRegion (hr : r.Sound) (hl : layout.Roundable)
    (h : FreeListHeap.allocFromRegion r layout.blockSize layout.blockAlign = some start) :
    r.Serves layout start := by
  obtain ⟨hle, -, hdvd, -⟩ := hr.alignUp_bounds hl
  unfold FreeListHeap.allocFromRegion at h
  rw [hr.endAddr_eq] at h
  dsimp only at h
  split_ifs at h
  obtain rfl := Option.some.inj h
  exact ⟨hle, hdvd, by omega⟩

namespace Region.Serves

/-- The block lies in the heap and can hold a node. -/
lemma block_sound (h : r.Serves layout start) (hr : r.Sound) :
    (⟨start, layout.blockSize⟩ : Region).Sound where
  start_dvd := layout.eight_dvd_blockAlign.trans h.dvd
  size_dvd := layout.eight_dvd_blockSize
  node_le := layout.nodeSize_le_blockSize
  end_le := by
    have hend := hr.end_le
    have hfits := h.fits
    dsimp only
    omega
  base_le := hr.base_le.trans h.start_le

/-- What is left behind the block lies in the heap and can hold a node. -/
lemma tail_sound (h : r.Serves layout start) (hr : r.Sound) :
    ∀ x ∈ r.tail (start + layout.blockSize), x.Sound := by
  intro x hx
  have hstart : 8 ∣ start := layout.eight_dvd_blockAlign.trans h.dvd
  have hsize := layout.eight_dvd_blockSize
  have hdvd₁ := hr.start_dvd
  have hdvd₂ := hr.size_dvd
  have hend := hr.end_le
  have hbase := hr.base_le.trans h.start_le
  have hfits := h.fits
  unfold Region.tail at hx
  split_ifs at hx with hlt
  · obtain rfl := List.mem_singleton.mp hx
    refine ⟨⟨?_, ?_, ?_, ?_⟩, ?_⟩
    · exact dvd_add hstart hsize
    · exact Nat.dvd_sub (dvd_add hdvd₁ hdvd₂) (dvd_add hstart hsize)
    · dsimp only
      omega
    · dsimp only
      omega
    · dsimp only
      omega
  · cases hx

/-- **Serving a request keeps the heap packed.** -/
lemma packed (h : r.Serves layout start) (hp : Packed (r :: rest)) :
    Packed (r.tail (start + layout.blockSize) ++ [⟨start, layout.blockSize⟩] ++ rest) := by
  have hr := hp.sound r List.mem_cons_self
  have hle := h.start_le
  have hfits := h.fits
  refine hp.cut (fun x hx => ?_) ?_ (fun x hx => ?_) ?_
  · rcases List.mem_append.mp hx with hx | hx
    · exact h.tail_sound hr x hx
    · obtain rfl := List.mem_singleton.mp hx
      exact h.block_sound hr
  · unfold Region.tail
    split_ifs
    · refine List.pairwise_pair.mpr (Or.inr ?_)
      exact le_rfl
    · exact List.pairwise_singleton ..
  · unfold Region.tail at hx
    split_ifs at hx
    · rcases List.mem_append.mp hx with hx | hx
      · obtain rfl := List.mem_singleton.mp hx
        exact ⟨by dsimp only; omega, by dsimp only; omega⟩
      · obtain rfl := List.mem_singleton.mp hx
        exact ⟨hle, by dsimp only; omega⟩
    · obtain rfl := List.mem_singleton.mp hx
      exact ⟨hle, by dsimp only; omega⟩
  · rw [totalSize_append]
    unfold Region.tail
    split_ifs
    · simp only [totalSize_cons, totalSize_nil]
      omega
    · simp only [totalSize_cons, totalSize_nil]
      omega

end Region.Serves

/-! ## Allocation in the list model -/

namespace FreeListHeap

/-- The outcome of an allocation, given the region that is taken. -/
def served (layout : Layout) (free : List Region) :
    Option (Region × ℕ × List Region) → FreeListHeap × Option ℕ
  | none => (⟨free⟩, none)
  | some (r, start, rest) => (⟨r.tail (start + layout.blockSize) ++ rest⟩, some start)

/-- **An allocation takes its block from the first region that serves it.** -/
lemma alloc_eq_served {ε : Type} (hsound : ∀ r ∈ free, r.Sound) (hl : layout.Roundable) :
    (alloc ⟨free⟩ layout : Exec ε (FreeListHeap × Option ℕ)) =
      .ok (served layout free (findRegion layout.blockSize layout.blockAlign free)) := by
  rw [alloc, hl.sizeAlign_eq, Exec.bind_ok]
  cases hfind : findRegion layout.blockSize layout.blockAlign free with
  | none => simp only [hfind, served, Exec.pure_eq_ok]
  | some x =>
    obtain ⟨r, start, rest⟩ := x
    obtain ⟨l₁, l₂, rfl, rfl, halloc, -⟩ := extractFirst_eq_some.mp hfind
    have hr := hsound r (by simp)
    have hserves := serves_of_allocFromRegion hr hl halloc
    have hfits := hserves.fits
    simp only [hfind, served, hr.endAddr_eq, Region.tail]
    split_ifs with h₁ h₂ h₂
    · rw [addFreeRegion, if_pos (by omega)]
      rfl
    · omega
    · omega
    · rfl

/-- The region that is taken serves the request, and the others stay. -/
lemma findRegion_some (hsound : ∀ r ∈ free, r.Sound) (hl : layout.Roundable)
    (h : findRegion layout.blockSize layout.blockAlign free = some (r, start, rest)) :
    r.Serves layout start ∧ free.Perm (r :: rest) := by
  obtain ⟨l₁, l₂, rfl, rfl, halloc, -⟩ := extractFirst_eq_some.mp h
  exact ⟨serves_of_allocFromRegion (hsound r (by simp)) hl halloc, List.perm_middle⟩

/-- **An allocation keeps the heap packed**: it changes nothing, or its block is aligned and comes
out of the free regions. -/
lemma alloc_packed {ε : Type} {free' : List Region} {result : Option ℕ}
    (hp : Packed (free ++ live)) (hl : layout.Roundable)
    (h : (alloc ⟨free⟩ layout : Exec ε (FreeListHeap × Option ℕ)) = .ok (⟨free'⟩, result)) :
    (result = none ∧ free' = free) ∨
      ∃ start, result = some start ∧ layout.blockAlign ∣ start ∧
        Packed (free' ++ ⟨start, layout.blockSize⟩ :: live) := by
  have hsound : ∀ r ∈ free, r.Sound := fun r hr => hp.sound r (List.mem_append_left _ hr)
  rw [alloc_eq_served hsound hl] at h
  cases hfind : findRegion layout.blockSize layout.blockAlign free with
  | none =>
    rw [hfind] at h
    obtain ⟨hfree, rfl⟩ := Prod.mk.inj (Except.ok.inj h)
    exact Or.inl ⟨rfl, (FreeListHeap.mk.inj hfree).symm⟩
  | some x =>
    obtain ⟨r, start, rest⟩ := x
    rw [hfind] at h
    obtain ⟨hfree, rfl⟩ := Prod.mk.inj (Except.ok.inj h)
    obtain rfl := FreeListHeap.mk.inj hfree
    obtain ⟨hserves, hperm⟩ := findRegion_some hsound hl hfind
    have hpacked := hserves.packed (hp.perm (hperm.append_right live))
    refine Or.inr ⟨start, rfl, hserves.dvd, hpacked.perm ?_⟩
    -- the block moves behind the free regions
    rw [List.append_assoc, List.append_assoc]
    have hblock : (rest ++ ⟨start, layout.blockSize⟩ :: live).Perm
        (⟨start, layout.blockSize⟩ :: (rest ++ live)) := List.perm_middle
    exact hblock.symm.append_left _

end FreeListHeap

end ZiranOS
