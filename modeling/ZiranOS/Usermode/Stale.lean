import ZiranOS.Usermode.Program

/-!
# What a fresh program sees of the past

Two kernels that differ in the contents of memory only, outside of the tables, map a program to the
same frames.  The bytes that ring 3 can read there are the same in both exactly if they were the
same in the two frames before, behind the blob in the frame of the code and everywhere in that of
the stack (`sameView_iff`): mapping a program clears nothing.
-/

namespace ZiranOS

open ProgLib

namespace Kernel

/-- The frame that the code of the next program gets. -/
def codeFrame (k : Kernel) : Option ℕ := k.allocator.answer 0

/-- The frame that the stack of the next program gets: the walk for the code has an entry for each
table that is there, and the missing ones get their frames first. -/
def stackFrame (k : Kernel) : Option ℕ :=
  k.allocator.answer (5 - (k.paging.walk uvaCode).length)

/-- Ring 3 reads the same bytes in the pages of a program. -/
def SameView (k k' : Kernel) : Prop :=
  ∀ j < 4096, k.userByte (uvaCode + j) = k'.userByte (uvaCode + j) ∧
    k.userByte (uvaStack + j) = k'.userByte (uvaStack + j)

/-- The memories agree on what a program of the given length leaves of its frames. -/
structure AgreeOnFresh (k k' : Kernel) (len : ℕ) : Prop where
  /-- The rest of the frame of the code. -/
  code : ∀ f, k.codeFrame = some f → ∀ j, len ≤ j → j < 4096 →
    Lanes.byteAt k.paging.mem (f + j) = Lanes.byteAt k'.paging.mem (f + j)
  /-- The frame of the stack. -/
  stack : ∀ f, k.stackFrame = some f → ∀ j < 4096,
    Lanes.byteAt k.paging.mem (f + j) = Lanes.byteAt k'.paging.mem (f + j)

end Kernel

variable {k k' k₂ k₂' : Kernel} {frames : ℕ → Option ℕ} {T : TableTree} {S : Finset ℕ}

/-- `init` only returns with the free frames of the memory map. -/
lemma refines_of_init {regions : List MemoryRegion} {kernelStart kernelEnd : ℕ}
    {bootInfo : ℕ × ℕ} {a : FrameAllocator} {report : InitReport}
    (hinit : FrameAllocator.init (some regions) kernelStart kernelEnd bootInfo = .ok (a, report)) :
    Refines a (freeFrames regions kernelStart kernelEnd bootInfo) := by
  have husable : (usableFrames regions).Nonempty := by
    by_contra hempty
    obtain ⟨p, hp, hrefines⟩ := refines_empty.freeRegions (p := ⟨_, 0, 0⟩) regions
    have hcount : p.allocator.freeFrames = 0 := by
      rw [hrefines.count, Finset.not_nonempty_iff_eq_empty.mp hempty]
      rfl
    -- without a usable frame `init` is a failed assertion
    unfold FrameAllocator.init at hinit
    dsimp only at hinit
    rw [hp, Exec.bind_ok, if_neg (by omega)] at hinit
    cases hinit
  obtain ⟨a', report', hrun, hrefines, -⟩ := init_refines husable kernelStart kernelEnd bootInfo
  obtain ⟨rfl, -⟩ := Prod.mk.inj (Except.ok.inj (hrun.symm.trans hinit))
  exact hrefines

namespace Sound

/-- The frame of the code is the first free one. -/
lemma codeFrame_eq (h : Sound k frames T S) : k.codeFrame = FrameSet.answer S 0 :=
  h.refines.answer_eq 0

/-- The frame of the stack is the first one behind those of the missing tables. -/
lemma stackFrame_eq (h : Sound k frames T S) :
    k.stackFrame = FrameSet.answer S (1 + T.missing uvaCode 3) := by
  have hlength := h.length_walkLevels (show identityLimit ≤ uvaCode by decide) 3 _ le_rfl
    (h.root_slot (by decide))
  have hindex : 5 - (k.paging.walk uvaCode).length = 1 + T.missing uvaCode 3 := by
    rw [Paging.walk]
    omega
  rw [Kernel.stackFrame, h.refines.answer_eq, hindex]

/-- **Two runs on the same tables and the same bitmap.** -/
lemma sameView_agree (h : Sound k frames T S) (hsame : k.SameButMemory k₂) {blob : List UInt8}
    (hblob : blob.length ≤ 4096) {f f₂ : PhysFrame × PhysFrame}
    (hrun : k.mapUserProgram blob = .ok (k', f)) (hrun₂ : k₂.mapUserProgram blob = .ok (k₂', f₂)) :
    k'.SameView k₂' ↔ k.AgreeOnFresh k₂ blob.length := by
  have hp := h.mapUserProgram hblob hrun
  have hp₂ := (h.sameButMemory hsame).mapUserProgram hblob hrun₂
  obtain ⟨⟨c⟩, ⟨d⟩⟩ := f
  obtain ⟨⟨c₂⟩, ⟨d₂⟩⟩ := f₂
  -- both programs get the same frames
  obtain rfl : c = c₂ := Option.some.inj (hp.code.symm.trans hp₂.code)
  obtain rfl : d = d₂ := Option.some.inj (hp.stack.symm.trans hp₂.stack)
  have hcode : ∀ f, k.codeFrame = some f ↔ f = c := by
    intro f
    rw [h.codeFrame_eq, hp.code, Option.some.injEq, eq_comm]
  have hstack : ∀ f, k.stackFrame = some f ↔ f = d := by
    intro f
    rw [h.stackFrame_eq, hp.stack, Option.some.injEq, eq_comm]
  constructor
  · intro hview
    refine ⟨fun f hf j hlen hj => ?_, fun f hf j hj => ?_⟩
    · obtain rfl := (hcode f).mp hf
      have hbyte := (hview j hj).1
      rw [hp.codeByte j hj, hp₂.codeByte j hj, if_neg (not_lt.mpr hlen),
        if_neg (not_lt.mpr hlen)] at hbyte
      exact Option.some.inj (Except.ok.inj hbyte)
    · obtain rfl := (hstack f).mp hf
      have hbyte := (hview j hj).2
      rw [hp.stackByte j hj, hp₂.stackByte j hj] at hbyte
      exact Option.some.inj (Except.ok.inj hbyte)
  · intro hagree j hj
    rw [hp.codeByte j hj, hp₂.codeByte j hj, hp.stackByte j hj, hp₂.stackByte j hj,
      hagree.stack d ((hstack d).mpr rfl) j hj]
    refine ⟨?_, rfl⟩
    split_ifs with hlen
    · rfl
    · rw [hagree.code c ((hcode c).mpr rfl) j (not_lt.mp hlen) hj]

/-- A byte of a free frame is not part of a table. -/
lemma setByte_free (h : Sound k frames T S) {i a : ℕ} (hi : i ∈ S) (ha : a / physFrameSize = i)
    (b : UInt8) : k.SameButMemory (k.withMem (Lanes.setByte k.paging.mem a b)) := by
  refine ⟨rfl, fun ht hindex => ?_⟩
  obtain ⟨q, hq⟩ := h.isTable_iff.mp ht
  have hdvd := h.toPlaced.aligned h.fresh hq
  refine Lanes.setByte_of_ne fun heq => h.taken hq ?_
  convert hi using 1
  rw [← ha]
  unfold physFrameSize frameSize at *
  omega

end Sound

/-- **A fresh program sees no stale bytes exactly if there are none.**  For every kernel that a run
from boot reaches, and every kernel that differs from it in the contents of memory outside of the
tables only: after mapping a blob of at most a page in each, ring 3 reads the same bytes in the code
page and in the stack page of both if and only if the memories agreed, before, on the rest of the
frame that the code gets and on the frame that the stack gets. -/
theorem sameView_iff (regions : List MemoryRegion) (kernelStart kernelEnd : ℕ)
    (bootInfo : ℕ × ℕ) (a : FrameAllocator) (report : InitReport)
    (hframes : FrameAllocator.init (some regions) kernelStart kernelEnd bootInfo =
      .ok (a, report))
    (hlow : ∀ i ∈ freeFrames regions kernelStart kernelEnd bootInfo,
      i * physFrameSize < identityLimit)
    (mem : ℕ → ℕ) (cr3 : ℕ) (k₀ : Kernel) (hinit : (Kernel.atBoot mem cr3 a).init = .ok k₀)
    (tr : List (Transition Kernel KernelEvent)) (hrun : Run Kernel.Steps k₀ tr k)
    (hsame : k.SameButMemory k₂) (blob : List UInt8) (hblob : blob.length ≤ 4096)
    (f f₂ : PhysFrame × PhysFrame) (hmap : k.mapUserProgram blob = .ok (k', f))
    (hmap₂ : k₂.mapUserProgram blob = .ok (k₂', f₂)) :
    k'.SameView k₂' ↔ k.AgreeOnFresh k₂ blob.length := by
  obtain ⟨frames, T, S, hsound⟩ := hrun.invariant (I := Kernel.IsSound)
    (fun _ _ _ h hstep => h.step hstep)
    (Kernel.init_isSound (refines_of_init hframes) hlow hinit)
  exact hsound.sameView_agree hsame hblob hmap hmap₂

/-! ## A sample machine -/

/-- The program of the self-test: print a letter, leave, and a loop that is not reached. -/
def userBlob : List UInt8 :=
  [0xB8, 0x01, 0x00, 0x00, 0x00, 0xBF, 0x5A, 0x00, 0x00, 0x00, 0xCD, 0x80, 0xB8, 0x02, 0x00, 0x00,
    0x00, 0xCD, 0x80, 0xEB, 0xFE]

/-- A memory map with eight usable frames, from 16 on. -/
def eightFrames : List MemoryRegion := [⟨0x10000, 0x8000, memoryKindUsable⟩]

/-- The machine after boot, with all memory zero. -/
def bootEight : Exec Unit Kernel := do
  let (a, _) ← FrameAllocator.init (some eightFrames) 0 0 (0, 0)
  (Kernel.atBoot (fun _ => 0) 0 a).init

/-- The free frames of the machine lie in the identity map. -/
lemma freeFrames_eightFrames :
    ∀ i ∈ freeFrames eightFrames 0 0 (0, 0), i * physFrameSize < identityLimit := by
  intro i hi
  have h30 := identityLimit_eq
  obtain ⟨-, r, hr, -, -, hend⟩ := Finset.mem_filter.mp (Finset.mem_filter.mp hi).1
  obtain rfl := List.mem_singleton.mp hr
  have hlt : 4096 * (i + 1) ≤ 0x10000 + 0x8000 := hend
  rw [physFrameSize]
  omega

/-- The machine boots. -/
lemma bootEight_ok : ∃ a report k,
    FrameAllocator.init (some eightFrames) 0 0 (0, 0) = .ok (a, report) ∧
      (Kernel.atBoot (fun _ => 0) 0 a).init = .ok k ∧ bootEight = .ok k ∧
      k.codeFrame = some 0x13000 ∧ k.stackFrame = some 0x16000 := by
  have hboot : (do
      let k ← bootEight
      pure (k.codeFrame, k.stackFrame)) = .ok (some 0x13000, some 0x16000) := by decide +kernel
  obtain ⟨k, hk, hret⟩ := Exec.bind_eq_ok.mp hboot
  obtain ⟨hcode, hstack⟩ := Prod.mk.inj (Except.ok.inj hret)
  obtain ⟨⟨a, report⟩, ha, hinit⟩ := Exec.bind_eq_ok.mp hk
  exact ⟨a, report, k, ha, hinit, hk, hcode, hstack⟩

/-- A byte that the blob overwrites may differ. -/
theorem sameView_iff_bootEight : ∃ k k' k₂' f f₂, bootEight = .ok k ∧
    k.mapUserProgram userBlob = .ok (k', f) ∧
    (k.withMem (Lanes.setByte k.paging.mem 0x13003 0xFF)).mapUserProgram userBlob =
      .ok (k₂', f₂) ∧ k'.SameView k₂' := by
  obtain ⟨a, report, k, ha, hinit, hk, hcode, hstack⟩ := bootEight_ok
  have hmap : (do
      let k ← bootEight
      let (_, f) ← k.mapUserProgram userBlob
      let (_, f₂) ← (k.withMem
        (Lanes.setByte k.paging.mem 0x13003 0xFF)).mapUserProgram userBlob
      pure (f.1, f₂.1)) = .ok (⟨0x13000⟩, ⟨0x13000⟩) := by decide +kernel
  rw [hk, Exec.bind_ok] at hmap
  obtain ⟨⟨k', f⟩, hrun, hmap⟩ := Exec.bind_eq_ok.mp hmap
  obtain ⟨⟨k₂', f₂⟩, hrun₂, -⟩ := Exec.bind_eq_ok.mp hmap
  obtain ⟨frames, T, S, hsound⟩ :=
    Kernel.init_isSound (refines_of_init ha) freeFrames_eightFrames hinit
  have hanswer := hsound.codeFrame_eq.symm.trans hcode
  obtain ⟨i, hi, hstart, -⟩ := FrameSet.answer_spec hanswer
  have hframe : 0x13003 / physFrameSize = i := by
    rw [physFrameSize] at hstart ⊢
    omega
  refine ⟨k, k', k₂', f, f₂, hk, hrun, hrun₂, ?_⟩
  refine (sameView_iff eightFrames 0 0 (0, 0) a report ha freeFrames_eightFrames _ 0 k hinit []
    (.nil k) (hsound.setByte_free hi hframe 0xFF) userBlob (by decide) f f₂ hrun hrun₂).mpr ?_
  have hother : ∀ x, x ≠ 0x13003 → Lanes.byteAt k.paging.mem x =
      Lanes.byteAt (k.withMem (Lanes.setByte k.paging.mem 0x13003 0xFF)).paging.mem x :=
    fun x hx => (Lanes.byteAt_setByte.trans (if_neg hx)).symm
  have hlength : userBlob.length = 21 := by decide
  refine ⟨fun f hf j hlen _ => hother _ ?_, fun f hf j _ => hother _ ?_⟩
  · obtain rfl := Option.some.inj (hf.symm.trans hcode)
    omega
  · obtain rfl := Option.some.inj (hf.symm.trans hstack)
    omega

/-- A byte of the first free frame, left there by its last user, is read by the next program. -/
theorem stale_byte_bootEight : ∃ a report k k' k₂' f,
    FrameAllocator.init (some eightFrames) 0 0 (0, 0) = .ok (a, report) ∧
    (Kernel.atBoot (fun _ => 0) 0 a).init = .ok k ∧
    k.SameButMemory (k.withMem (Lanes.setByte k.paging.mem 0x13018 0x46)) ∧
    k.mapUserProgram userBlob = .ok (k', f) ∧
    (k.withMem (Lanes.setByte k.paging.mem 0x13018 0x46)).mapUserProgram userBlob =
      .ok (k₂', f) ∧
    k'.userByte (uvaCode + 24) = .ok (some 0) ∧
    k₂'.userByte (uvaCode + 24) = .ok (some 0x46) ∧ ¬ k'.SameView k₂' := by
  obtain ⟨a, report, k, ha, hinit, hk, hcode, -⟩ := bootEight_ok
  have hmap : (do
      let k ← bootEight
      let (k', f) ← k.mapUserProgram userBlob
      let (k₂', f₂) ← (k.withMem
        (Lanes.setByte k.paging.mem 0x13018 0x46)).mapUserProgram userBlob
      let b ← k'.userByte (uvaCode + 24)
      let b₂ ← k₂'.userByte (uvaCode + 24)
      pure (decide (f = f₂), b, b₂)) = .ok (true, some 0, some 0x46) := by decide +kernel
  rw [hk, Exec.bind_ok] at hmap
  obtain ⟨⟨k', f⟩, hrun, hmap⟩ := Exec.bind_eq_ok.mp hmap
  obtain ⟨⟨k₂', f₂⟩, hrun₂, hmap⟩ := Exec.bind_eq_ok.mp hmap
  obtain ⟨b, hb, hmap⟩ := Exec.bind_eq_ok.mp hmap
  obtain ⟨b₂, hb₂, hret⟩ := Exec.bind_eq_ok.mp hmap
  obtain ⟨hf, hret⟩ := Prod.mk.inj (Except.ok.inj hret)
  obtain ⟨rfl, rfl⟩ := Prod.mk.inj hret
  obtain rfl := of_decide_eq_true hf
  obtain ⟨frames, T, S, hsound⟩ :=
    Kernel.init_isSound (refines_of_init ha) freeFrames_eightFrames hinit
  have hanswer := hsound.codeFrame_eq.symm.trans hcode
  obtain ⟨i, hi, hstart, -⟩ := FrameSet.answer_spec hanswer
  have hframe : 0x13018 / physFrameSize = i := by
    rw [physFrameSize] at hstart ⊢
    omega
  refine ⟨a, report, k, k', k₂', f, ha, hinit, hsound.setByte_free hi hframe 0x46, hrun, hrun₂, hb,
    hb₂, fun hview => ?_⟩
  have hbyte := (hview 24 (by norm_num)).1
  rw [hb, hb₂] at hbyte
  exact absurd (Option.some.inj (Except.ok.inj hbyte)) (by decide)

end ZiranOS
