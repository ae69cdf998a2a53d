import ZiranOS.Frames.Allocator
import ZiranOS.Lib.Run

/-!
# The bitmap is a set of free frames

`Refines a S` says that the clear bits of the bitmap are the set `S`, and that the counter is its
size.  Each function of the allocator does to the bitmap what a set operation does to `S`, and none
of its checks fails: reserving removes, releasing inserts, `alloc` takes the least element, and
`free` inserts.
-/

namespace ZiranOS

open ProgLib

/-- The bitmap covers 2^20 frames. -/
lemma frameCount_eq : frameCount = 2 ^ 20 := by decide

/-- The words of the bitmap have a bit for each frame. -/
lemma bitmapWords_mul : bitmapWords * 64 = frameCount := by decide

/-- The clear bits are the set `S`, and the counter is its size. -/
structure Refines (a : FrameAllocator) (S : Finset ℕ) : Prop where
  bits : ∀ i < frameCount, Bitmap.bit a.bitmap i = false ↔ i ∈ S
  below : ∀ i ∈ S, i < frameCount
  count : a.freeFrames = S.card

namespace Refines

variable {a : FrameAllocator} {S : Finset ℕ} {i : ℕ}

/-- A frame of the bitmap has a word. -/
lemma word_lt (hi : i < frameCount) : i / 64 < bitmapWords := by
  have := bitmapWords_mul
  omega

/-- The check of a bit does not fail, and says whether the frame is used. -/
lemma isUsed_eq (h : Refines a S) (hi : i < frameCount) :
    a.isUsed i = .ok (decide (i ∉ S)) := by
  have hbit := h.bits i hi
  unfold Bitmap.bit at hbit
  rw [FrameAllocator.isUsed, if_pos (word_lt hi)]
  refine congrArg Except.ok (decide_eq_decide.mpr ?_)
  refine (Bitmap.and_mask_ne_zero (by norm_num) _ i).trans ?_
  rw [← hbit, Bool.not_eq_false]

/-- Marking a frame as used, with the counter adjusted, removes it. -/
lemma setUsed (h : Refines a S) (hi : i < frameCount) (count : ℕ)
    (hcount : count = (S.erase i).card) :
    ∃ a', (FrameAllocator.mk a.bitmap count).setUsed i = .ok a' ∧ Refines a' (S.erase i) := by
  refine ⟨_, if_pos (word_lt hi), ⟨fun j hj => ?_, fun j hj => ?_, hcount⟩⟩
  · rw [Bitmap.bit_setBit (by norm_num), Finset.mem_erase, Bool.or_eq_false_iff,
      decide_eq_false_iff_not, h.bits j hj]
  · exact h.below j (Finset.mem_of_mem_erase hj)

/-- Marking a frame as free, with the counter adjusted, inserts it. -/
lemma setFree (h : Refines a S) (hi : i < frameCount) (count : ℕ)
    (hcount : count = (insert i S).card) :
    ∃ a', (FrameAllocator.mk a.bitmap count).setFree i = .ok a' ∧ Refines a' (insert i S) := by
  refine ⟨_, if_pos (word_lt hi), ⟨fun j hj => ?_, fun j hj => ?_, hcount⟩⟩
  · rw [Bitmap.bit_clearBit (by norm_num), Finset.mem_insert, Bool.and_eq_false_iff,
      Bool.not_eq_false', decide_eq_true_iff, h.bits j hj]
  · rcases Finset.mem_insert.mp hj with rfl | hj
    · exact hi
    · exact h.below j hj

/-- **Reserving a frame** removes it; the counter does not underflow. -/
lemma reserveFrame (h : Refines a S) (hi : i < frameCount) :
    ∃ a', a.reserveFrame i = .ok a' ∧ Refines a' (S.erase i) := by
  rw [FrameAllocator.reserveFrame, h.isUsed_eq hi, Exec.bind_ok]
  by_cases hmem : i ∈ S
  · have hcard := Finset.card_erase_of_mem hmem
    have hpos : 1 ≤ a.freeFrames := by
      rw [h.count]
      exact Finset.card_pos.mpr ⟨i, hmem⟩
    obtain ⟨a', hrun, h'⟩ := h.setUsed hi (a.freeFrames - 1) (by rw [hcard, h.count])
    refine ⟨a', ?_, h'⟩
    rw [if_pos (by simpa using hmem), FrameAllocator.decFree, if_pos hpos, Exec.bind_ok]
    exact hrun
  · obtain ⟨a', hrun, h'⟩ := h.setUsed hi a.freeFrames
      (by rw [Finset.erase_eq_of_notMem hmem, h.count])
    exact ⟨a', by rw [if_neg (by simpa using hmem)]; exact hrun, h'⟩

/-- **Releasing a frame** inserts it. -/
lemma releaseFrame (h : Refines a S) (hi : i < frameCount) :
    ∃ a', a.releaseFrame i = .ok a' ∧ Refines a' (insert i S) := by
  rw [FrameAllocator.releaseFrame, h.isUsed_eq hi, Exec.bind_ok]
  by_cases hmem : i ∈ S
  · rw [if_neg (by simpa using hmem), Finset.insert_eq_of_mem hmem]
    exact ⟨a, rfl, h⟩
  · obtain ⟨a', hrun, h'⟩ := h.setFree hi (a.freeFrames + 1)
      (by rw [Finset.card_insert_of_notMem hmem, h.count])
    exact ⟨a', by rw [if_pos (by simpa using hmem)]; exact hrun, h'⟩

/-- A loop over frames does what its body does for each of them. -/
lemma foldlM {body : FrameAllocator → ℕ → Exec Unit FrameAllocator}
    {op : Finset ℕ → ℕ → Finset ℕ}
    (hbody : ∀ a S i, Refines a S → i < frameCount →
      ∃ a', body a i = .ok a' ∧ Refines a' (op S i)) :
    ∀ (l : List ℕ) {a : FrameAllocator} {S : Finset ℕ}, Refines a S → (∀ i ∈ l, i < frameCount) →
      ∃ a', l.foldlM body a = .ok a' ∧ Refines a' (l.foldl op S) := by
  intro l
  induction l with
  | nil => exact fun h _ => ⟨_, rfl, h⟩
  | cons i l ih =>
    intro a S h hl
    obtain ⟨hi, hl⟩ := List.forall_mem_cons.mp hl
    obtain ⟨a₁, hrun₁, h₁⟩ := hbody _ _ _ h hi
    obtain ⟨a', hrun, h'⟩ := ih h₁ hl
    refine ⟨a', ?_, h'⟩
    rw [List.foldlM_cons, hrun₁, Exec.bind_ok, hrun]

end Refines

/-! ## The ranges that are taken back -/

/-- The frames that `reserve` takes back for the bytes from `start` to `stop`. -/
def Reserved (start stop i : ℕ) : Prop :=
  start < stop ∧ start / physFrameSize ≤ i ∧ i < wrapAdd stop (physFrameSize - 1) / physFrameSize

instance (start stop i : ℕ) : Decidable (Reserved start stop i) :=
  inferInstanceAs (Decidable (_ ∧ _ ∧ _))

/-- The frame overlaps the bytes from `start` to `stop`. -/
def Overlaps (start stop i : ℕ) : Prop := max start (4096 * i) < min stop (4096 * (i + 1))

instance (start stop i : ℕ) : Decidable (Overlaps start stop i) :=
  inferInstanceAs (Decidable (_ < _))

/-- As long as its end does not wrap, the frames that overlap a range are taken back. -/
lemma reserved_iff {start stop : ℕ} (hstop : stop < 2 ^ 63) (i : ℕ) :
    Reserved start stop i ↔ Overlaps start stop i := by
  have hwrap : wrapAdd stop (physFrameSize - 1) = stop + 4095 :=
    wrapAdd_eq (by unfold physFrameSize; omega)
  unfold Reserved Overlaps
  rw [hwrap, physFrameSize]
  omega

/-- Removing one frame after another. -/
lemma foldl_erase (l : List ℕ) (S : Finset ℕ) :
    l.foldl Finset.erase S = S.filter fun i => i ∉ l := by
  induction l generalizing S with
  | nil => simp
  | cons j l ih =>
    rw [List.foldl_cons, ih]
    ext i
    simp only [Finset.mem_filter, Finset.mem_erase, List.mem_cons, not_or]
    tauto

/-- **Reserving a range** takes back the frames that overlap it. -/
lemma Refines.reserve {a : FrameAllocator} {S : Finset ℕ} (h : Refines a S) (start stop : ℕ) :
    ∃ a', a.reserve start stop = .ok a' ∧
      Refines a' (S.filter fun i => ¬ Reserved start stop i) := by
  unfold FrameAllocator.reserve
  dsimp only
  split_ifs with hempty
  · refine ⟨a, rfl, ?_⟩
    rwa [Finset.filter_true_of_mem fun i _ hi => absurd hi.1 (not_lt.mpr hempty)]
  · have hbody : ∀ (a : FrameAllocator) (S : Finset ℕ) (i : ℕ), Refines a S → i < frameCount →
        ∃ a', a.reserveFrame i = .ok a' ∧ Refines a' (S.erase i) := fun a S i h hi =>
      h.reserveFrame hi
    obtain ⟨a', hrun, h'⟩ := h.foldlM hbody (List.range' (start / physFrameSize)
      (min (wrapAdd stop (physFrameSize - 1) / physFrameSize) frameCount - start / physFrameSize))
      (fun i hi => by have := List.mem_range'_1.mp hi; omega)
    refine ⟨a', hrun, ?_⟩
    rw [foldl_erase] at h'
    refine Eq.subst (motive := Refines a') (Finset.filter_congr fun i hi => ?_) h'
    have hlt := h.below i hi
    unfold Reserved
    rw [List.mem_range'_1]
    omega

/-! ## The regions of the memory map -/

/-- The frame lies wholly inside the region, and the region is usable. -/
def MemoryRegion.Covers (r : MemoryRegion) (i : ℕ) : Prop :=
  r.kind = memoryKindUsable ∧ r.base ≤ 4096 * i ∧ 4096 * (i + 1) ≤ r.base + r.length

instance (r : MemoryRegion) (i : ℕ) : Decidable (r.Covers i) :=
  inferInstanceAs (Decidable (_ ∧ _ ∧ _))

/-- Inserting one frame after another. -/
lemma foldl_insert (l : List ℕ) (S : Finset ℕ) :
    l.foldl (fun S i => insert i S) S = S ∪ l.toFinset := by
  induction l generalizing S with
  | nil => simp
  | cons j l ih =>
    rw [List.foldl_cons, ih, List.toFinset_cons, Finset.insert_union, Finset.union_insert]

/-- The frames of a usable region, by the bounds that `init` computes. -/
lemma covers_iff {r : MemoryRegion} (hkind : r.kind = memoryKindUsable) {i : ℕ}
    (hi : i < frameCount) : r.Covers i ↔
      (r.base + physFrameSize - 1) / physFrameSize ≤ i ∧
        i < min r.endAddr maxAddress / physFrameSize := by
  have hcount := frameCount_eq
  have hmax : maxAddress = 2 ^ 32 := by decide
  unfold MemoryRegion.Covers MemoryRegion.endAddr
  rw [hmax, physFrameSize]
  omega

/-- The frames that `init` frees in a usable region. -/
lemma toFinset_range_eq {r : MemoryRegion} (hkind : r.kind = memoryKindUsable) :
    (List.range' ((r.base + physFrameSize - 1) / physFrameSize)
      (min r.endAddr maxAddress / physFrameSize -
        (r.base + physFrameSize - 1) / physFrameSize)).toFinset =
      (Finset.range frameCount).filter r.Covers := by
  have hlast : min r.endAddr maxAddress / physFrameSize ≤ frameCount :=
    Nat.div_le_div_right (min_le_right _ _)
  ext i
  rw [List.mem_toFinset, List.mem_range'_1, Finset.mem_filter, Finset.mem_range]
  constructor
  · intro hi
    have hlt : i < frameCount := by omega
    exact ⟨hlt, (covers_iff hkind hlt).mpr (by omega)⟩
  · rintro ⟨hlt, hc⟩
    have := (covers_iff hkind hlt).mp hc
    omega

/-- **Going through a region** frees the frames that lie wholly inside it, if it is usable. -/
lemma Refines.freeRegion {p : FrameAllocator.Progress} {S : Finset ℕ} (h : Refines p.allocator S)
    (r : MemoryRegion) :
    ∃ p', FrameAllocator.freeRegion p r = .ok p' ∧
      Refines p'.allocator (S ∪ (Finset.range frameCount).filter r.Covers) := by
  -- where no frame is covered nothing changes
  have hsame : (∀ i < frameCount, ¬ r.Covers i) →
      Refines p.allocator (S ∪ (Finset.range frameCount).filter r.Covers) := by
    intro hno
    rwa [Finset.filter_false_of_mem fun i hi => hno i (Finset.mem_range.mp hi),
      Finset.union_empty]
  unfold FrameAllocator.freeRegion
  by_cases hkind : r.kind = memoryKindUsable
  · rw [if_neg (by simp [MemoryRegion.isUsable, hkind])]
    by_cases hbase : r.base ≥ maxAddress
    · rw [if_pos hbase]
      refine ⟨_, rfl, hsame fun i hi hc => ?_⟩
      have hlt := ((covers_iff hkind hi).mp hc).2
      have hmax : maxAddress = 2 ^ 32 := by decide
      have hle := hc.2.1
      rw [physFrameSize] at hlt
      omega
    · rw [if_neg hbase]
      dsimp only
      generalize (if r.endAddr > maxAddress then _ else _) = ignoredBytes
      split_ifs with hsmall
      · refine ⟨_, rfl, hsame fun i hi hc => ?_⟩
        have := (covers_iff hkind hi).mp hc
        omega
      · have hlast : min r.endAddr maxAddress / physFrameSize ≤ frameCount :=
          Nat.div_le_div_right (min_le_right _ _)
        have hbody : ∀ (a : FrameAllocator) (S : Finset ℕ) (i : ℕ), Refines a S → i < frameCount →
            ∃ a', a.releaseFrame i = .ok a' ∧ Refines a' (insert i S) := fun a S i h hi =>
          h.releaseFrame hi
        obtain ⟨a', hrun, h'⟩ := h.foldlM hbody
          (List.range' ((r.base + physFrameSize - 1) / physFrameSize)
            (min r.endAddr maxAddress / physFrameSize -
              (r.base + physFrameSize - 1) / physFrameSize))
          (fun i hi => by have := List.mem_range'_1.mp hi; omega)
        refine ⟨⟨a', p.usableRegions + 1, ignoredBytes⟩, ?_, ?_⟩
        · rw [hrun, Exec.bind_ok]
          rfl
        · rwa [foldl_insert, toFinset_range_eq hkind] at h'
  · rw [if_pos (by simp [MemoryRegion.isUsable, hkind])]
    exact ⟨p, rfl, hsame fun i _ hc => hkind hc.1⟩

/-- The frames that lie wholly inside one usable region. -/
def usableFrames (regions : List MemoryRegion) : Finset ℕ :=
  (Finset.range frameCount).filter fun i => ∃ r ∈ regions, r.Covers i

/-- Going through all regions frees the usable frames. -/
lemma Refines.freeRegions (regions : List MemoryRegion) {p : FrameAllocator.Progress}
    {S : Finset ℕ} (h : Refines p.allocator S) :
    ∃ p', regions.foldlM FrameAllocator.freeRegion p = .ok p' ∧
      Refines p'.allocator (S ∪ usableFrames regions) := by
  induction regions generalizing p S with
  | nil =>
    have hnil : usableFrames [] = ∅ := by
      refine Finset.filter_false_of_mem fun i _ hi => ?_
      obtain ⟨r, hr, -⟩ := hi
      cases hr
    have hunion : S ∪ usableFrames [] = S := by rw [hnil, Finset.union_empty]
    exact ⟨p, rfl, hunion.symm ▸ h⟩
  | cons r regions ih =>
    obtain ⟨p₁, hrun₁, h₁⟩ := h.freeRegion r
    obtain ⟨p', hrun, h'⟩ := ih h₁
    refine ⟨p', by rw [List.foldlM_cons, hrun₁, Exec.bind_ok, hrun], ?_⟩
    refine Eq.subst (motive := Refines p'.allocator) (Finset.ext fun i => ?_) h'
    simp only [usableFrames, Finset.mem_union, Finset.mem_filter, List.exists_mem_cons_iff,
      or_assoc, and_or_left]

/-! ## Standing up -/

/-- The frames that are free after `init`. -/
def freeFrames (regions : List MemoryRegion) (kernelStart kernelEnd : ℕ) (bootInfo : ℕ × ℕ) :
    Finset ℕ :=
  (usableFrames regions).filter fun i => i ≠ 0 ∧ ¬ Reserved kernelStart kernelEnd i ∧
    ¬ Reserved bootInfo.1 bootInfo.2 i

/-- No byte of the image of the kernel lies in a free frame. -/
lemma image_notMem_freeFrames {regions : List MemoryRegion} {kernelStart kernelEnd : ℕ}
    {bootInfo : ℕ × ℕ} (hend : kernelEnd < 2 ^ 63) {phys : ℕ}
    (hin : kernelStart ≤ phys ∧ phys < kernelEnd) :
    phys / physFrameSize ∉ freeFrames regions kernelStart kernelEnd bootInfo := by
  intro hfree
  have hreserved := (Finset.mem_filter.mp hfree).2.2.1
  rw [reserved_iff hend, Overlaps, physFrameSize] at hreserved
  exact hreserved (by omega)

/-- The null frame is the only one taken back first. -/
lemma reserved_null (i : ℕ) : Reserved 0 physFrameSize i ↔ i = 0 := by
  rw [reserved_iff (by decide), Overlaps, physFrameSize]
  omega

/-- All frames are used. -/
lemma refines_empty : Refines ⟨fun _ => BitVec.allOnes 64, 0⟩ ∅ where
  bits i _ := by
    have hmod : i % 64 < 64 := Nat.mod_lt _ (by norm_num)
    rw [Bitmap.bit, BitVec.getLsbD_allOnes, decide_eq_true hmod]
    simp
  below i hi := absurd hi (Finset.notMem_empty i)
  count := rfl

/-- **`init` leaves the frames free that lie wholly inside one usable region and are not taken
back**, if there is a usable frame at all. -/
lemma init_refines {regions : List MemoryRegion} (husable : (usableFrames regions).Nonempty)
    (kernelStart kernelEnd : ℕ) (bootInfo : ℕ × ℕ) :
    ∃ a report, FrameAllocator.init (some regions) kernelStart kernelEnd bootInfo =
        .ok (a, report) ∧
      Refines a (freeFrames regions kernelStart kernelEnd bootInfo) ∧
      report.usableFrames = (usableFrames regions).card ∧
      report.freeFrames = (freeFrames regions kernelStart kernelEnd bootInfo).card := by
  obtain ⟨p, hregions, hp⟩ := refines_empty.freeRegions (p := ⟨_, 0, 0⟩) regions
  rw [Finset.empty_union] at hp
  have hpos : 0 < p.allocator.freeFrames := by
    rw [hp.count]
    exact Finset.card_pos.mpr husable
  obtain ⟨a₁, hrun₁, h₁⟩ := hp.reserve 0 physFrameSize
  obtain ⟨a₂, hrun₂, h₂⟩ := h₁.reserve kernelStart kernelEnd
  obtain ⟨a₃, hrun₃, h₃⟩ := h₂.reserve bootInfo.1 bootInfo.2
  have hfree : (((usableFrames regions).filter fun i => ¬ Reserved 0 physFrameSize i).filter
      fun i => ¬ Reserved kernelStart kernelEnd i).filter
        (fun i => ¬ Reserved bootInfo.1 bootInfo.2 i) =
      freeFrames regions kernelStart kernelEnd bootInfo := by
    unfold freeFrames
    simp only [Finset.filter_filter, reserved_null]
    exact Finset.filter_congr fun i _ => and_assoc
  rw [hfree] at h₃
  refine ⟨a₃, ⟨p.allocator.freeFrames, p.usableRegions, a₃.freeFrames, p.ignoredBytes⟩, ?_, h₃,
    hp.count, h₃.count⟩
  unfold FrameAllocator.init
  dsimp only
  rw [hregions, Exec.bind_ok, if_pos hpos, hrun₁, Exec.bind_ok, hrun₂, Exec.bind_ok, hrun₃,
    Exec.bind_ok]
  rfl

/-! ## Calls -/

/-- The calls that the rest of the kernel makes. -/
inductive FrameCall where
  | alloc
  | free (frame : PhysFrame)
  deriving DecidableEq, Repr

/-- What a call returns. -/
inductive FrameResult where
  | allocated (frame : Option PhysFrame)
  | freed (outcome : FreeOutcome)
  deriving DecidableEq, Repr

namespace FrameAllocator

/-- The effect of a call. -/
def call (a : FrameAllocator) : FrameCall → Exec Unit (FrameAllocator × FrameResult)
  | .alloc => do
    let (a, frame) ← a.alloc
    pure (a, .allocated frame)
  | .free frame => do
    let (a, outcome) ← a.free frame
    pure (a, .freed outcome)

/-- One call with its result. -/
def Steps (a : FrameAllocator) (x : FrameCall × FrameResult) (a' : FrameAllocator) : Prop :=
  a.call x.1 = .ok (a', x.2)

end FrameAllocator

namespace FrameSet

/-- A call on the set of free frames: `alloc` removes and returns the least of them, and `free`
inserts a used frame that exists. -/
def call (S : Finset ℕ) : FrameCall → Finset ℕ × FrameResult
  | .alloc =>
    if h : S.Nonempty then (S.erase (S.min' h), .allocated (some ⟨S.min' h * physFrameSize⟩))
    else (S, .allocated none)
  | .free frame =>
    if frame.index ≥ frameCount then (S, .freed .outOfRange)
    else if frame.index ∈ S then (S, .freed .doubleFree)
    else (insert frame.index S, .freed .freed)

/-- The set after the calls of a run. -/
def after (S : Finset ℕ) (tr : List (Transition FrameAllocator (FrameCall × FrameResult))) :
    Finset ℕ :=
  (tr.map Transition.event).foldl (fun S x => (call S x.1).1) S

end FrameSet

namespace Refines

variable {a : FrameAllocator} {S : Finset ℕ}

/-- The scan of the words finds the least free frame. -/
lemma scan_eq (h : Refines a S) : Bitmap.firstClear a.bitmap bitmapWords =
    if hne : S.Nonempty then some (S.min' hne) else none := by
  cases hfirst : Bitmap.firstClear a.bitmap bitmapWords with
  | none =>
    rw [dif_neg]
    rintro ⟨i, hi⟩
    have hlt := h.below i hi
    have hset := Bitmap.firstClear_eq_none (by norm_num) hfirst (i := i)
      (by rw [bitmapWords_mul]; exact hlt)
    rw [(h.bits i hlt).mpr hi] at hset
    cases hset
  | some i =>
    obtain ⟨hlt, hclear, hbelow⟩ := Bitmap.firstClear_eq_some hfirst
    rw [bitmapWords_mul] at hlt
    have hi : i ∈ S := (h.bits i hlt).mp hclear
    rw [dif_pos ⟨i, hi⟩]
    refine congrArg some (le_antisymm ?_ (S.min'_le i hi))
    refine S.le_min' _ i fun j hj => ?_
    by_contra hji
    have hset := hbelow j (by omega)
    rw [(h.bits j (h.below j hj)).mpr hj] at hset
    cases hset

/-- **`alloc` takes the least free frame.** -/
lemma alloc_eq (h : Refines a S) : ∃ a', a.call .alloc = .ok (a', (FrameSet.call S .alloc).2) ∧
    Refines a' (FrameSet.call S .alloc).1 := by
  have hscan := h.scan_eq
  unfold Bitmap.firstClear at hscan
  by_cases hne : S.Nonempty
  · rw [dif_pos hne] at hscan
    obtain ⟨wordIndex, hfind, hindex⟩ := Option.map_eq_some_iff.mp hscan
    have hcall : FrameSet.call S .alloc =
        (S.erase (S.min' hne), .allocated (some ⟨S.min' hne * physFrameSize⟩)) := dif_pos hne
    have hmem := S.min'_mem hne
    have hlt := word_lt (h.below _ hmem)
    have hcard := Finset.card_erase_of_mem hmem
    have hpos : 1 ≤ a.freeFrames := by
      rw [h.count]
      exact Finset.card_pos.mpr hne
    have hset : a.setUsed (S.min' hne) =
        .ok { a with bitmap := Bitmap.setBit a.bitmap (S.min' hne) } := if_pos hlt
    have hdec : FrameAllocator.decFree { a with bitmap := Bitmap.setBit a.bitmap (S.min' hne) } =
        .ok ⟨Bitmap.setBit a.bitmap (S.min' hne), a.freeFrames - 1⟩ := if_pos hpos
    obtain ⟨a', hset', h'⟩ := h.setUsed (h.below _ hmem) (a.freeFrames - 1)
      (by rw [hcard, h.count])
    obtain rfl := Except.ok.inj ((if_pos hlt).symm.trans hset')
    rw [hcall]
    refine ⟨_, ?_, h'⟩
    unfold FrameAllocator.call FrameAllocator.alloc
    simp only [hfind, hindex, hset, hdec, Exec.bind_ok]
    rfl
  · rw [dif_neg hne] at hscan
    have hfind := Option.map_eq_none_iff.mp hscan
    have hcall : FrameSet.call S .alloc = (S, .allocated none) := dif_neg hne
    rw [hcall]
    refine ⟨a, ?_, h⟩
    unfold FrameAllocator.call FrameAllocator.alloc
    simp only [hfind]
    rfl

/-- **`free` inserts a used frame.** -/
lemma free_eq (h : Refines a S) (frame : PhysFrame) :
    ∃ a', a.call (.free frame) = .ok (a', (FrameSet.call S (.free frame)).2) ∧
      Refines a' (FrameSet.call S (.free frame)).1 := by
  unfold FrameAllocator.call FrameAllocator.free FrameSet.call
  dsimp only
  split_ifs with hrange hmem
  · exact ⟨a, rfl, h⟩
  · refine ⟨a, ?_, h⟩
    rw [h.isUsed_eq (not_le.mp hrange), Exec.bind_ok, if_pos (by simpa using hmem)]
    rfl
  · have hlt := not_le.mp hrange
    obtain ⟨a', hset, h'⟩ := h.setFree hlt (a.freeFrames + 1)
      (by rw [Finset.card_insert_of_notMem hmem, h.count])
    obtain rfl := Except.ok.inj ((if_pos (word_lt hlt)).symm.trans hset)
    refine ⟨_, ?_, h'⟩
    rw [h.isUsed_eq hlt, Exec.bind_ok, if_neg (by simpa using hmem), FrameAllocator.setFree,
      if_pos (word_lt hlt)]
    rfl

/-- **A call does to the bitmap what it does to the set**, and returns the same. -/
lemma call_eq (h : Refines a S) (c : FrameCall) :
    ∃ a', a.call c = .ok (a', (FrameSet.call S c).2) ∧ Refines a' (FrameSet.call S c).1 := by
  cases c with
  | alloc => exact h.alloc_eq
  | free frame => exact h.free_eq frame

/-- A step keeps the bitmap and the set together. -/
lemma step {a' : FrameAllocator} {x : FrameCall × FrameResult} (h : Refines a S)
    (hstep : FrameAllocator.Steps a x a') : Refines a' (FrameSet.call S x.1).1 := by
  obtain ⟨a₁, hrun, h₁⟩ := h.call_eq x.1
  obtain ⟨rfl, -⟩ := Prod.mk.inj (Except.ok.inj (hrun.symm.trans hstep))
  exact h₁

end Refines

/-- **The bitmap allocator refines a finite set.**  For every memory map with a usable frame, `init`
leaves exactly those frames free that lie wholly inside one usable region and overlap neither the
null frame nor the kernel nor the boot information.  After every run of calls the bitmap and the
counter are the set of free frames that the calls leave, and the next call returns what it returns
for that set; no check of an index or of the counter fails. -/
theorem frames_refine (regions : List MemoryRegion) (kernelStart kernelEnd : ℕ)
    (bootInfo : ℕ × ℕ) (hkernel : kernelEnd < 2 ^ 63) (hboot : bootInfo.2 < 2 ^ 63)
    (husable : ∃ i < 2 ^ 20, ∃ r ∈ regions, r.Covers i) :
    ∃ a report, FrameAllocator.init (some regions) kernelStart kernelEnd bootInfo =
        .ok (a, report) ∧
      (∀ i < 2 ^ 20, ∃ used, a.isUsed i = .ok used ∧
        (used = false ↔ (∃ r ∈ regions, r.Covers i) ∧ i ≠ 0 ∧
          ¬ Overlaps kernelStart kernelEnd i ∧ ¬ Overlaps bootInfo.1 bootInfo.2 i)) ∧
      ∀ tr a', Run FrameAllocator.Steps a tr a' →
        Refines a' (FrameSet.after (freeFrames regions kernelStart kernelEnd bootInfo) tr) ∧
        ∀ c, ∃ a'', a'.call c = .ok (a'', (FrameSet.call
            (FrameSet.after (freeFrames regions kernelStart kernelEnd bootInfo) tr) c).2) ∧
          Refines a'' (FrameSet.call
            (FrameSet.after (freeFrames regions kernelStart kernelEnd bootInfo) tr) c).1 := by
  have hcount := frameCount_eq
  have hnonempty : (usableFrames regions).Nonempty := by
    obtain ⟨i, hi, hcovers⟩ := husable
    exact ⟨i, Finset.mem_filter.mpr ⟨Finset.mem_range.mpr (by rwa [hcount]), hcovers⟩⟩
  obtain ⟨a, report, hinit, href, -⟩ := init_refines hnonempty kernelStart kernelEnd bootInfo
  refine ⟨a, report, hinit, fun i hi => ⟨_, href.isUsed_eq (by rwa [hcount]), ?_⟩,
    fun tr a' hrun => ?_⟩
  · rw [decide_eq_false_iff_not, not_not, freeFrames, Finset.mem_filter, usableFrames,
      Finset.mem_filter, Finset.mem_range, hcount, reserved_iff hkernel, reserved_iff hboot]
    exact ⟨fun h => ⟨h.1.2, h.2⟩, fun h => ⟨⟨hi, h.1⟩, h.2⟩⟩
  · have href' : Refines a'
        (FrameSet.after (freeFrames regions kernelStart kernelEnd bootInfo) tr) :=
      hrun.simulates (fun a x a' S h hstep => h.step hstep) href
    exact ⟨href', fun c => href'.call_eq c⟩

/-- With 12 KiB of memory from address 0 on and the kernel in its second frame, the third frame is
free. -/
theorem frames_refine_small : ∃ a report,
    FrameAllocator.init (some [⟨0, 0x3000, 1⟩]) 0x1000 0x2000 (0, 0) = .ok (a, report) ∧
      a.isUsed 2 = .ok false := by
  obtain ⟨a, report, hinit, hused, -⟩ := frames_refine [⟨0, 0x3000, 1⟩] 0x1000 0x2000 (0, 0)
    (by norm_num) (by norm_num) ⟨2, by norm_num, _, List.mem_singleton_self _, by decide⟩
  obtain ⟨used, hrun, hiff⟩ := hused 2 (by norm_num)
  refine ⟨a, report, hinit, ?_⟩
  rw [hrun, hiff.mpr ⟨⟨_, List.mem_singleton_self _, by decide⟩, by decide⟩]

end ZiranOS
