import ZiranOS.Frames.Refinement

/-!
# Frames of reserved regions

`init` looks at the usable regions only.  A frame that lies wholly inside a usable region is free,
and `alloc` returns it, also where a region of another kind overlaps it.

`FrameUsers` adds to the allocator the frames that its callers have obtained from it, and its steps
are the calls that give back obtained frames only.  Such runs obtain exactly the frames that are
free after `init` (`obtained_of_run`, `exists_run_obtaining`).
-/

namespace ZiranOS

open ProgLib

/-- The region has a byte in common with the frame. -/
def MemoryRegion.Meets (r : MemoryRegion) (frame : PhysFrame) : Prop :=
  max r.base frame.start < min (r.base + r.length) (frame.start + physFrameSize)

instance (r : MemoryRegion) (frame : PhysFrame) : Decidable (r.Meets frame) :=
  inferInstanceAs (Decidable (_ < _))

/-- The frame with a given number. -/
def PhysFrame.ofIndex (i : ℕ) : PhysFrame := ⟨i * physFrameSize⟩

/-- The number of a frame given by its number. -/
@[simp] lemma PhysFrame.index_ofIndex (i : ℕ) : (PhysFrame.ofIndex i).index = i :=
  Nat.mul_div_cancel i (by decide)

/-- The allocator, and the frames that its callers have obtained from it so far. -/
structure FrameUsers where
  allocator : FrameAllocator
  obtained : List PhysFrame

namespace FrameUsers

/-- The frames that a call adds to the obtained ones. -/
def gained : FrameResult → List PhysFrame
  | .allocated (some frame) => [frame]
  | _ => []

/-- A call of the callers: they give back obtained frames only. -/
structure Steps (s : FrameUsers) (x : FrameCall × FrameResult) (s' : FrameUsers) : Prop where
  call : s.allocator.call x.1 = .ok (s'.allocator, x.2)
  honest : ∀ frame, x.1 = .free frame → frame ∈ s.obtained
  obtained : s'.obtained = gained x.2 ++ s.obtained

/-- The invariant of the runs: what is free, and what was obtained, is one of the frames `F`. -/
def Within (F : Finset ℕ) (s : FrameUsers) : Prop :=
  (∃ S, Refines s.allocator S ∧ S ⊆ F) ∧ ∀ frame ∈ s.obtained, ∃ i ∈ F, frame = .ofIndex i

variable {F : Finset ℕ} {s s' : FrameUsers}

/-- A step keeps the invariant. -/
lemma Within.step {x : FrameCall × FrameResult} (h : s.Within F) (hstep : s.Steps x s') :
    s'.Within F := by
  obtain ⟨⟨S, href, hS⟩, hobtained⟩ := h
  obtain ⟨c, result⟩ := x
  obtain ⟨a, hcall, ha⟩ := href.call_eq c
  obtain ⟨rfl, rfl⟩ := Prod.mk.inj (Except.ok.inj (hcall.symm.trans hstep.call))
  have hgained := hstep.obtained
  cases c with
  | alloc =>
    unfold FrameSet.call at ha hgained
    by_cases hne : S.Nonempty
    · rw [dif_pos hne] at ha hgained
      refine ⟨⟨_, ha, (Finset.erase_subset _ S).trans hS⟩, ?_⟩
      rw [hgained]
      exact List.forall_mem_cons.mpr ⟨⟨_, hS (S.min'_mem hne), rfl⟩, hobtained⟩
    · rw [dif_neg hne] at ha hgained
      exact ⟨⟨S, ha, hS⟩, hgained ▸ hobtained⟩
  | free frame =>
    -- the frame was obtained, so that it is one of `F`
    obtain ⟨i, hi, rfl⟩ := hobtained frame (hstep.honest frame rfl)
    have hsub : (FrameSet.call S (.free (.ofIndex i))).1 ⊆ F := by
      unfold FrameSet.call
      dsimp only
      split_ifs
      · exact hS
      · exact hS
      · rw [PhysFrame.index_ofIndex]
        exact Finset.insert_subset hi hS
    have hnone : gained (FrameSet.call S (.free (.ofIndex i))).2 = [] := by
      unfold FrameSet.call
      dsimp only
      split_ifs <;> rfl
    dsimp only at hgained
    rw [hnone] at hgained
    exact ⟨⟨_, ha, hsub⟩, hgained ▸ hobtained⟩

/-- Every frame that is obtained was free at first. -/
lemma obtained_of_run {a : FrameAllocator} (h : Refines a F)
    {tr : List (Transition FrameUsers (FrameCall × FrameResult))} (hrun : Run Steps ⟨a, []⟩ tr s) :
    ∀ frame ∈ s.obtained, ∃ i ∈ F, frame = .ofIndex i := by
  have hstart : Within F ⟨a, []⟩ :=
    ⟨⟨F, h, Finset.Subset.refl F⟩, fun frame hframe => absurd hframe List.not_mem_nil⟩
  exact (hrun.invariant (fun _ _ _ hs hstep => hs.step hstep) hstart).2

/-- Every free frame can be obtained, by calls of `alloc` only. -/
lemma exists_run_obtaining {i : ℕ} {S : Finset ℕ} {a : FrameAllocator} (h : Refines a S)
    (hi : i ∈ S) (obtained : List PhysFrame) :
    ∃ tr s, Run Steps ⟨a, obtained⟩ tr s ∧ PhysFrame.ofIndex i ∈ s.obtained := by
  induction S using Finset.strongInduction generalizing a obtained with
  | H S ih =>
    have hne : S.Nonempty := ⟨i, hi⟩
    obtain ⟨a', hcall, ha'⟩ := h.call_eq .alloc
    have hset : FrameSet.call S .alloc =
        (S.erase (S.min' hne), .allocated (some (.ofIndex (S.min' hne)))) := dif_pos hne
    rw [hset] at hcall ha'
    have hstep : Steps ⟨a, obtained⟩ (.alloc, .allocated (some (.ofIndex (S.min' hne))))
        ⟨a', .ofIndex (S.min' hne) :: obtained⟩ := ⟨hcall, nofun, rfl⟩
    by_cases hmin : i = S.min' hne
    · exact ⟨_, _, Run.cons hstep (Run.nil _), hmin ▸ List.mem_cons_self⟩
    · obtain ⟨tr, s, hrun, hmem⟩ := ih _ (Finset.erase_ssubset (S.min'_mem hne)) ha'
        (Finset.mem_erase.mpr ⟨hmin, hi⟩) (.ofIndex (S.min' hne) :: obtained)
      exact ⟨_, s, Run.cons hstep hrun, hmem⟩

end FrameUsers

/-- Without a usable frame `init` fails. -/
lemma usableFrames_nonempty {regions : List MemoryRegion} {kernelStart kernelEnd : ℕ}
    {bootInfo : ℕ × ℕ} {x : FrameAllocator × InitReport}
    (hinit : FrameAllocator.init (some regions) kernelStart kernelEnd bootInfo = .ok x) :
    (usableFrames regions).Nonempty := by
  obtain ⟨p, hregions, hp⟩ := refines_empty.freeRegions (p := ⟨_, 0, 0⟩) regions
  rw [Finset.empty_union] at hp
  unfold FrameAllocator.init at hinit
  dsimp only at hinit
  rw [hregions, Exec.bind_ok] at hinit
  by_cases hpos : p.allocator.freeFrames > 0
  · rw [hp.count] at hpos
    exact Finset.card_pos.mp hpos
  · rw [if_neg hpos] at hinit
    exact absurd hinit (Exec.panic_ne_ok _ _)

/-- **No frame of a reserved region is handed out**, in any run after `init`, exactly if no region
that is not usable overlaps a frame that lies wholly inside a usable region and is not taken
back. -/
theorem reserved_kept_iff (regions : List MemoryRegion) (kernelStart kernelEnd : ℕ)
    (bootInfo : ℕ × ℕ) :
    (∀ a report, FrameAllocator.init (some regions) kernelStart kernelEnd bootInfo =
        .ok (a, report) → ∀ tr s, Run FrameUsers.Steps ⟨a, []⟩ tr s →
        ∀ frame ∈ s.obtained, ∀ r ∈ regions, r.kind ≠ memoryKindUsable → ¬ r.Meets frame) ↔
      ∀ i < 2 ^ 20, (∃ r ∈ regions, r.Covers i) → i ≠ 0 → ¬ Reserved kernelStart kernelEnd i →
        ¬ Reserved bootInfo.1 bootInfo.2 i →
        ∀ r ∈ regions, r.kind ≠ memoryKindUsable → ¬ r.Meets (.ofIndex i) := by
  have hmem : ∀ i, i ∈ freeFrames regions kernelStart kernelEnd bootInfo ↔
      (i < 2 ^ 20 ∧ ∃ r ∈ regions, r.Covers i) ∧ i ≠ 0 ∧ ¬ Reserved kernelStart kernelEnd i ∧
        ¬ Reserved bootInfo.1 bootInfo.2 i := fun i => by
    rw [freeFrames, Finset.mem_filter, usableFrames, Finset.mem_filter, Finset.mem_range,
      frameCount_eq]
  constructor
  · intro h i hi hcovers hnull hkernel hboot
    have hfree := (hmem i).mpr ⟨⟨hi, hcovers⟩, hnull, hkernel, hboot⟩
    obtain ⟨a, report, hinit, href, -⟩ :=
      init_refines ⟨i, (Finset.mem_filter.mp hfree).1⟩ kernelStart kernelEnd bootInfo
    obtain ⟨tr, s, hrun, hobtained⟩ := FrameUsers.exists_run_obtaining href hfree []
    exact h a report hinit tr s hrun _ hobtained
  · intro h a report hinit tr s hrun frame hframe
    obtain ⟨a', report', hinit', href, -⟩ :=
      init_refines (usableFrames_nonempty hinit) kernelStart kernelEnd bootInfo
    obtain ⟨rfl, -⟩ := Prod.mk.inj (Except.ok.inj (hinit.symm.trans hinit'))
    obtain ⟨i, hi, rfl⟩ := FrameUsers.obtained_of_run href hrun frame hframe
    obtain ⟨⟨hlt, hcovers⟩, hnull, hkernel, hboot⟩ := (hmem i).mp hi
    exact h i hlt hcovers hnull hkernel hboot

/-- A boot information with a memory map of two regions: 16 KiB of usable memory from `0x1000` on,
and 4 KiB of reserved memory inside it, from `0x2000` on. -/
def overlappingMap : List UInt8 :=
  [80, 0, 0, 0, 0, 0, 0, 0,
    6, 0, 0, 0, 64, 0, 0, 0, 24, 0, 0, 0, 0, 0, 0, 0,
    0, 0x10, 0, 0, 0, 0, 0, 0, 0, 0x40, 0, 0, 0, 0, 0, 0, 1, 0, 0, 0, 0, 0, 0, 0,
    0, 0x20, 0, 0, 0, 0, 0, 0, 0, 0x10, 0, 0, 0, 0, 0, 0, 2, 0, 0, 0, 0, 0, 0, 0,
    0, 0, 0, 0, 8, 0, 0, 0]

/-- The reserved frame at `0x2000` is handed out. -/
theorem overlappingMap_hands_out : ∃ regions a report tr s,
    (BootInfo.regions (fun addr => overlappingMap.getD (addr - 0x10000) 0) ⟨0x10000, 80⟩ 4).out =
        .ok (some regions) ∧
      FrameAllocator.init (some regions) 0x100000 0x200000 (0x10000, 0x10050) = .ok (a, report) ∧
      Run FrameUsers.Steps ⟨a, []⟩ tr s ∧
      ∃ frame ∈ s.obtained, ∃ r ∈ regions, r.kind ≠ memoryKindUsable ∧ r.Meets frame := by
  have hfree : 2 ∈ freeFrames [⟨0x1000, 0x4000, 1⟩, ⟨0x2000, 0x1000, 2⟩] 0x100000 0x200000
      (0x10000, 0x10050) := by
    rw [freeFrames, Finset.mem_filter, usableFrames, Finset.mem_filter, Finset.mem_range]
    exact ⟨⟨by decide, _, List.mem_cons_self, by decide⟩, by decide⟩
  obtain ⟨a, report, hinit, href, -⟩ :=
    init_refines ⟨2, (Finset.mem_filter.mp hfree).1⟩ 0x100000 0x200000 (0x10000, 0x10050)
  obtain ⟨tr, s, hrun, hobtained⟩ := FrameUsers.exists_run_obtaining href hfree []
  exact ⟨_, a, report, tr, s, by decide, hinit, hrun, _, hobtained,
    ⟨0x2000, 0x1000, 2⟩, List.mem_cons_of_mem _ List.mem_cons_self, by decide, by decide⟩

end ZiranOS
