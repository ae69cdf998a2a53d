import ZiranOS.Heap.FreeList

/-!
# Blocks of bytes

Requests for bytes have alignment 1, so a block is a multiple of 8 of at least 16 bytes
(`blockSize`), it starts where its region starts, and a region can hold it when it is exactly as
large or leaves room for a node (`Region.Fits`).  As long as every region is a multiple of 8 of at
least 16 bytes inside the heap (`Region.Ok`), an allocation is the first fit among the sizes and
nothing else (`alloc_bytes_eq`).
-/

namespace ZiranOS

open ProgLib

/-- The size of the block for a request of bytes. -/
def blockSize (size : ℕ) : ℕ := max ((size + 7) / 8 * 8) nodeSize

/-- A block has room for a node. -/
lemma nodeSize_le_blockSize (size : ℕ) : nodeSize ≤ blockSize size := le_max_right _ _

/-- A block is a multiple of 8. -/
lemma eight_dvd_blockSize (size : ℕ) : 8 ∣ blockSize size := by
  rw [blockSize, nodeSize]
  omega

/-- A power of two that is at least 16 is its own block size. -/
lemma blockSize_eq_self {size : ℕ} (hdvd : 8 ∣ size) (hle : nodeSize ≤ size) :
    blockSize size = size := by
  unfold blockSize
  rw [nodeSize] at *
  omega

/-- A block is at most 15 bytes larger than the request. -/
lemma blockSize_le (size : ℕ) : blockSize size ≤ size + 16 := by
  rw [blockSize, nodeSize]
  omega

/-- A region that an allocation of bytes can use as it is. -/
structure Region.Ok (r : Region) : Prop where
  start_dvd : 8 ∣ r.start
  size_dvd : 8 ∣ r.size
  node_le : nodeSize ≤ r.size
  end_le : r.start + r.size ≤ heapBase + heapSize

/-- The end of the heap is far below the end of the address space. -/
lemma heapEnd_lt : heapBase + heapSize < 2 ^ 32 := by decide

/-- The end of a region of the heap does not wrap. -/
lemma Region.Ok.endAddr_eq {r : Region} (hr : r.Ok) : r.endAddr = r.start + r.size := by
  have hend := hr.end_le
  have hheap := heapEnd_lt
  exact Nat.mod_eq_of_lt (by omega)

/-- The region holds a block of the given size: it is as large, or leaves room for a node. -/
def Region.Fits (size : ℕ) (r : Region) : Prop := r.size = size ∨ size + nodeSize ≤ r.size

instance (size : ℕ) (r : Region) : Decidable (r.Fits size) :=
  inferInstanceAs (Decidable (_ ∨ _))

/-- What is left of a region behind a block. -/
def Region.rest (size : ℕ) (r : Region) : List Region :=
  if r.size = size then [] else [⟨r.start + size, r.size - size⟩]

variable {ε : Type}

/-- A request for bytes is rounded to a block. -/
lemma sizeAlign_bytes {size : ℕ} (hsize : size < 2 ^ 32) {layout : Layout}
    (hl : (Layout.bytes size : Exec ε Layout) = .ok layout) :
    (sizeAlign layout : Exec ε (ℕ × ℕ)) = .ok (blockSize size, nodeAlign) := by
  have hle : size + 1 ≤ 2 ^ 63 := by omega
  rw [Layout.bytes, dif_pos hle] at hl
  obtain rfl := Except.ok.inj hl
  have halign : max 1 nodeAlign = nodeAlign := by decide
  have h8 : nodeAlign = 8 := rfl
  simp only [sizeAlign, halign]
  rw [if_pos (by omega), h8]
  rfl

/-- Every request for bytes that the kernel makes has a layout. -/
lemma layout_bytes {size : ℕ} (hsize : size < 2 ^ 32) :
    ∃ layout, (Layout.bytes size : Exec ε Layout) = .ok layout :=
  ⟨_, dif_pos (show size + 1 ≤ 2 ^ 63 by omega)⟩

/-- Rounding up to a multiple of 8 leaves a multiple of 8. -/
lemma alignUp_eq {addr : ℕ} (hdvd : 8 ∣ addr) (hlt : addr < 2 ^ 32) :
    alignUp addr nodeAlign = addr := by
  have hmask : not64 (nodeAlign - 1) = 2 ^ 64 - 2 ^ 3 := not64_two_pow_sub_one 3
  have h8 : nodeAlign = 8 := rfl
  have hmod : (addr + nodeAlign - 1) % 2 ^ 64 = addr + 7 := by
    rw [h8]
    omega
  rw [alignUp, hmod, hmask, and_mask_eq (by norm_num) (by omega)]
  omega

/-- A region can be used exactly when the block fits it, and then from its start. -/
lemma allocFromRegion_eq {r : Region} (hr : r.Ok) {size : ℕ} (hsize : size < 2 ^ 33) :
    FreeListHeap.allocFromRegion r size nodeAlign = if r.Fits size then some r.start else none := by
  have hendAddr := hr.endAddr_eq
  obtain ⟨hdvd, -, hnode, hend⟩ := hr
  have hheap := heapEnd_lt
  have h16 : nodeSize = 16 := rfl
  rw [FreeListHeap.allocFromRegion, alignUp_eq hdvd (by omega), hendAddr]
  dsimp only
  by_cases hfit : r.Fits size
  · rw [if_pos hfit]
    unfold Region.Fits at hfit
    split_ifs <;> first | rfl | omega
  · rw [if_neg hfit]
    unfold Region.Fits at hfit
    split_ifs <;> first | rfl | omega

/-- A region whose start and size are those of a block of bytes inside the heap. -/
lemma Region.Ok.rest {r : Region} (hr : r.Ok) {size : ℕ} (hdvd : 8 ∣ size) (hfit : r.Fits size) :
    ∀ x ∈ r.rest size, x.Ok := by
  obtain ⟨hstart, hsize, hnode, hend⟩ := hr
  intro x hx
  unfold Region.rest at hx
  split_ifs at hx with heq
  · cases hx
  · obtain rfl := List.mem_singleton.mp hx
    unfold Region.Fits at hfit
    have hle : size + nodeSize ≤ r.size := hfit.resolve_left heq
    have h16 : nodeSize = 16 := rfl
    refine ⟨?_, ?_, ?_, ?_⟩
    · exact dvd_add hstart hdvd
    · exact Nat.dvd_sub hsize hdvd
    · exact show nodeSize ≤ r.size - size by omega
    · exact show r.start + size + (r.size - size) ≤ heapBase + heapSize by omega

/-- The block that is cut off a region. -/
lemma Region.Ok.block {r : Region} (hr : r.Ok) {size : ℕ} (hdvd : 8 ∣ size)
    (hnode : nodeSize ≤ size) (hfit : r.Fits size) : (⟨r.start, size⟩ : Region).Ok := by
  obtain ⟨hstart, -, -, hend⟩ := hr
  refine ⟨hstart, hdvd, hnode, ?_⟩
  unfold Region.Fits at hfit
  exact show r.start + size ≤ heapBase + heapSize by omega

namespace FreeListHeap

/-- All regions of the heap can be used as they are. -/
def Ok (h : FreeListHeap) : Prop := ∀ r ∈ h.regions, r.Ok

/-- **An allocation of bytes is the first fit among the regions.** -/
lemma alloc_bytes_eq {l₁ l₂ : List Region} {r : Region} {size : ℕ} {layout : Layout}
    (hok : Ok ⟨l₁ ++ r :: l₂⟩) (hsize : size < 2 ^ 32)
    (hl : (Layout.bytes size : Exec ε Layout) = .ok layout)
    (hnone : ∀ x ∈ l₁, ¬ x.Fits (blockSize size)) (hfit : r.Fits (blockSize size)) :
    (alloc ⟨l₁ ++ r :: l₂⟩ layout : Exec ε (FreeListHeap × Option ℕ)) =
      .ok (⟨r.rest (blockSize size) ++ (l₁ ++ l₂)⟩, some r.start) := by
  have hblock : blockSize size < 2 ^ 33 := lt_of_le_of_lt (blockSize_le size) (by omega)
  have hr : r.Ok := hok r (by simp)
  have hfound : findRegion (blockSize size) nodeAlign (l₁ ++ r :: l₂) =
      some (r, r.start, l₁ ++ l₂) := by
    refine extractFirst_eq_some.mpr ⟨l₁, l₂, rfl, rfl, ?_, fun x hx => ?_⟩
    · rw [allocFromRegion_eq hr hblock, if_pos hfit]
    · rw [allocFromRegion_eq (hok x (by simp [hx])) hblock, if_neg (hnone x hx)]
  rw [alloc, sizeAlign_bytes hsize hl, Exec.bind_ok]
  simp only [hfound, hr.endAddr_eq]
  have hexcess : r.start + r.size - (r.start + blockSize size) = r.size - blockSize size := by
    omega
  rw [hexcess]
  unfold Region.Fits at hfit
  split_ifs with hpos
  · have hle : nodeSize ≤ r.size - blockSize size := by omega
    rw [addFreeRegion, if_pos hle, Region.rest, if_neg (by omega)]
    rfl
  · rw [Region.rest, if_pos (by omega)]
    rfl

/-- A block of bytes comes back as a region at the front. -/
lemma dealloc_bytes_eq (h : FreeListHeap) {ptr size : ℕ} {layout : Layout} (hsize : size < 2 ^ 32)
    (hl : (Layout.bytes size : Exec ε Layout) = .ok layout) :
    (h.dealloc ptr layout : Exec ε FreeListHeap) = .ok ⟨⟨ptr, blockSize size⟩ :: h.regions⟩ := by
  rw [dealloc, sizeAlign_bytes hsize hl, Exec.bind_ok]
  exact if_pos (nodeSize_le_blockSize size)

/-! ## Room -/

/-- Some region has at least `room` bytes. -/
def Room (room : ℕ) (regions : List Region) : Prop := ∃ r ∈ regions, room ≤ r.size

/-- A list that holds all regions of another has as much room. -/
lemma Room.mono {room : ℕ} {l l' : List Region} (h : Room room l) (hsub : l ⊆ l') :
    Room room l' := by
  obtain ⟨r, hr, hle⟩ := h
  exact ⟨r, hsub hr, hle⟩

/-- Less room is still room. -/
lemma Room.le {room room' : ℕ} {l : List Region} (h : Room room l) (hle : room' ≤ room) :
    Room room' l := by
  obtain ⟨r, hr, hroom⟩ := h
  exact ⟨r, hr, hle.trans hroom⟩

/-- Cutting a block off a region that it fits leaves the heap usable. -/
lemma Ok.cut {l₁ l₂ : List Region} {r : Region} {size : ℕ} (hok : Ok ⟨l₁ ++ r :: l₂⟩)
    (hdvd : 8 ∣ size) (hfit : r.Fits size) : Ok ⟨r.rest size ++ (l₁ ++ l₂)⟩ := by
  intro x hx
  rcases List.mem_append.mp hx with hx | hx
  · exact (hok r (by simp)).rest hdvd hfit x hx
  · apply hok x
    rcases List.mem_append.mp hx with hx | hx <;> simp [hx]

/-- **An allocation takes no more than its block from the room.**  Where a region has room for the
block and a node, the allocation succeeds. -/
lemma alloc_bytes_room {h : FreeListHeap} {room size : ℕ} {layout : Layout} (hok : h.Ok)
    (hroom : Room room h.regions) (hle : blockSize size + nodeSize ≤ room) (hsize : size < 2 ^ 32)
    (hl : (Layout.bytes size : Exec ε Layout) = .ok layout) :
    ∃ h' ptr, (h.alloc layout : Exec ε (FreeListHeap × Option ℕ)) = .ok (h', some ptr) ∧ h'.Ok ∧
      Region.Ok ⟨ptr, blockSize size⟩ ∧ Room (room - blockSize size) h'.regions := by
  obtain ⟨w, hw, hwroom⟩ := hroom
  -- the first region that fits
  cases hfirst : extractFirst (fun r => if r.Fits (blockSize size) then some r else none)
      h.regions with
  | none =>
    have hfit : w.Fits (blockSize size) := Or.inr (hle.trans hwroom)
    have := extractFirst_eq_none.mp hfirst w hw
    rw [if_pos hfit] at this
    cases this
  | some x =>
    obtain ⟨r, b, rest⟩ := x
    obtain ⟨l₁, l₂, hlist, -, hfit, hnone⟩ := extractFirst_eq_some.mp hfirst
    have hr : r.Fits (blockSize size) := by
      by_contra hno
      rw [if_neg hno] at hfit
      cases hfit
    have hl₁ : ∀ x ∈ l₁, ¬ x.Fits (blockSize size) := by
      intro x hx hfits
      have := hnone x hx
      rw [if_pos hfits] at this
      cases this
    obtain ⟨regions⟩ := h
    obtain rfl : regions = l₁ ++ r :: l₂ := hlist
    refine ⟨_, r.start, alloc_bytes_eq hok hsize hl hl₁ hr, hok.cut (eight_dvd_blockSize size) hr,
      (hok r (by simp)).block (eight_dvd_blockSize size) (nodeSize_le_blockSize size) hr, ?_⟩
    have hmem : w ∈ l₁ ∨ w = r ∨ w ∈ l₂ := by simpa using hw
    rcases hmem with hw | rfl | hw
    · exact ⟨w, by simp [hw], (Nat.sub_le _ _).trans hwroom⟩
    · have hne : w.size ≠ blockSize size := by
        have h16 : nodeSize = 16 := rfl
        omega
      refine ⟨⟨w.start + blockSize size, w.size - blockSize size⟩, ?_,
        Nat.sub_le_sub_right hwroom _⟩
      rw [Region.rest, if_neg hne]
      simp
    · exact ⟨w, by simp [hw], (Nat.sub_le _ _).trans hwroom⟩

end FreeListHeap

end ZiranOS
