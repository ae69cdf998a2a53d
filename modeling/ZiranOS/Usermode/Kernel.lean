import ZiranOS.Frames.Answers
import ZiranOS.Paging.Footprint
import ZiranOS.Lib.Lanes

/-!
# Paging and the frame allocator together

The kernel's paging asks the frame allocator for its tables, and so do the callers that want frames
for pages.  A `Kernel` has both: `Kernel.frames` are the answers that the bitmap will give, so a
call of paging is the call of `Paging/Tables` with these answers, and the allocator goes on behind
them.

`Sound` is the invariant that keeps the two apart: the tables lie in frames that are not free, and
the free frames lie in the identity map.  Every step of the kernel keeps it (`Sound.step`); the
steps are calls of paging and of the allocator, and stores that leave the tables alone.
-/

namespace ZiranOS

open ProgLib

/-- The state of paging, with the memory, and the frame allocator. -/
structure Kernel where
  paging : Paging
  allocator : FrameAllocator

namespace Kernel

/-- The answers of the frame allocator to paging, by the number of the request. -/
def frames (k : Kernel) (n : ℕ) : Option ℕ := k.allocator.answer (n - k.paging.allocs)

/-- Run a function of paging; the frame allocator has answered the requests that it made. -/
def runPaging {α : Type} (k : Kernel)
    (f : (ℕ → Option ℕ) → Paging → Exec Unit (Paging × α)) : Exec Unit (Kernel × α) := do
  let (s, r) ← f k.frames k.paging
  let a ← k.allocator.advance (s.allocs - k.paging.allocs)
  pure (⟨s, a⟩, r)

/-- Build the tables of the kernel and switch to them. -/
def init (k : Kernel) : Exec Unit Kernel := do
  let (k, _) ← k.runPaging fun frames s => do
    let s ← s.init frames
    pure (s, ())
  pure k

/-- A call that changes the tables. -/
def call (k : Kernel) (c : PagingCall) : Exec Unit (Kernel × PagingResult) :=
  k.runPaging fun frames s => s.call frames c

/-- Take a free frame. -/
def alloc (k : Kernel) : Exec Unit (Kernel × Option PhysFrame) := do
  let (a, frame) ← k.allocator.alloc
  pure ({ k with allocator := a }, frame)

/-- Give a frame back. -/
def free (k : Kernel) (frame : PhysFrame) : Exec Unit (Kernel × FreeOutcome) := do
  let (a, outcome) ← k.allocator.free frame
  pure ({ k with allocator := a }, outcome)

/-- The memory replaced. -/
def withMem (k : Kernel) (mem : ℕ → ℕ) : Kernel := { k with paging := { k.paging with mem := mem } }

/-- Everything but the memory is the same, and so are the entries of all tables. -/
structure SameButMemory (k k' : Kernel) : Prop where
  /-- Only the memory differs. -/
  state : k' = k.withMem k'.paging.mem
  /-- The tables are the same. -/
  tables : ∀ {level table index}, k.paging.IsTable level table → index < 512 →
    k'.paging.entryAt table index = k.paging.entryAt table index

end Kernel

/-! ## The invariant -/

/-- The tables have a tree, their frames are not free, and the frames to come are those of the
bitmap. -/
structure Sound (k : Kernel) (frames : ℕ → Option ℕ) (T : TableTree) (S : Finset ℕ) : Prop
    extends Shape frames k.paging T where
  /-- The frames of paging are fresh. -/
  fresh : FreshFrames frames
  /-- The answers to come are those of the free frames. -/
  future : ∀ n, frames (k.paging.allocs + n) = FrameSet.answer S n
  /-- The free frames are those of the bitmap. -/
  refines : Refines k.allocator S
  /-- The free frames lie in the identity map. -/
  low : ∀ i ∈ S, i * physFrameSize < identityLimit
  /-- The frames of the tables are not free. -/
  taken : ∀ {level q t}, T level q = some t → t / physFrameSize ∉ S

/-- A frame that is neither free nor the frame of a table. -/
structure Owned (T : TableTree) (S : Finset ℕ) (i : ℕ) : Prop where
  /-- The frame is not free. -/
  used : i ∉ S
  /-- The frame is not the frame of a table. -/
  noTable : ∀ {level q t}, T level q = some t → t / physFrameSize ≠ i

section

variable {k k' : Kernel} {frames : ℕ → Option ℕ} {T T' : TableTree} {S S' : Finset ℕ} {i : ℕ}

/-- The bytes of a frame that belongs to someone else lie outside of the tables. -/
lemma Owned.avoids (h : Owned T S i) (hplaced : Placed frames k.paging T) (hf : FreshFrames frames)
    {a : ℕ} (ha : a / physFrameSize = i) : T.Avoids a := by
  intro level q t ht hin
  have hdvd := hplaced.aligned hf ht
  refine h.noTable ht ?_
  rw [← ha]
  unfold physFrameSize frameSize at *
  omega

namespace Sound

/-- The answers that a call of paging gets. -/
lemma frames_eq (h : Sound k frames T S) {n : ℕ} (hn : n ≥ k.paging.allocs) :
    k.frames n = frames n := by
  obtain ⟨m, rfl⟩ := Nat.exists_eq_add_of_le hn
  rw [Kernel.frames, Nat.add_sub_cancel_left, h.refines.answer_eq, h.future]

/-- **The frame allocator answers the requests of a walk**, and the tables do not lie in the frames
that remain free. -/
lemma grown (h : Sound k frames T S) {userPage : Bool} {s₁ s' : Paging}
    (hgrows : Relation.ReflTransGen (Grow frames userPage) (k.paging, T) (s₁, T'))
    (hshape : Shape frames s' T') (hallocs : s'.allocs = s₁.allocs) :
    ∃ a', k.allocator.advance (s'.allocs - k.paging.allocs) = .ok a' ∧
      Sound ⟨s', a'⟩ frames T' (FrameSet.rest^[s'.allocs - k.paging.allocs] S) ∧
      ∀ {i}, Owned T S i →
        Owned T' (FrameSet.rest^[s'.allocs - k.paging.allocs] S) i := by
  have hle : k.paging.allocs ≤ s₁.allocs := allocs_le_of_grows hgrows
  obtain ⟨m, hm⟩ := Nat.exists_eq_add_of_le hle
  rw [hallocs, hm, Nat.add_sub_cancel_left]
  have hsub : FrameSet.rest^[m] S ⊆ S := FrameSet.iterate_rest_subset S (Nat.zero_le m)
  -- a new table lies in one of the frames that the bitmap has given away
  have hnew : ∀ {level q t}, T' level q = some t → T level q = some t ∨
      t / physFrameSize ∈ S ∧ t / physFrameSize ∉ FrameSet.rest^[m] S := by
    intro level q t ht
    rcases table_of_grows hgrows ht with hold | ⟨n, hn, hlt, hframe⟩
    · exact .inl hold
    · obtain ⟨j, rfl⟩ := Nat.exists_eq_add_of_le hn
      obtain ⟨i, hi, rfl, hgone⟩ := FrameSet.answer_spec ((h.future j).symm.trans hframe)
      rw [Nat.mul_div_cancel i (by decide)]
      have hj : j + 1 ≤ m := by
        have : k.paging.allocs + j < s₁.allocs := hlt
        omega
      exact .inr ⟨FrameSet.iterate_rest_subset S (Nat.zero_le j) hi,
        fun hno => hgone (FrameSet.iterate_rest_subset S hj hno)⟩
  obtain ⟨a', hadvance, hrefines⟩ := h.refines.advance_eq m
  refine ⟨a', hadvance, ⟨hshape, h.fresh, fun n => ?_, hrefines, fun i hi => h.low i (hsub hi),
    fun ht => ?_⟩, fun hown => ⟨fun hno => hown.used (hsub hno), fun ht => ?_⟩⟩
  · have hsum : s'.allocs + n = k.paging.allocs + (m + n) := by omega
    rw [FrameSet.answer_add, ← h.future, ← hsum]
  · rcases hnew ht with hold | ⟨-, hgone⟩
    · exact fun hno => h.taken hold (hsub hno)
    · exact hgone
  · rcases hnew ht with hold | ⟨hfree, -⟩
    · exact hown.noTable hold
    · rintro rfl
      exact hown.used hfree

end Sound

/-! ## Other free frames -/

open Classical in
/-- The answers after a change of the free frames: those for the tables stay. -/
noncomputable def renewed (frames : ℕ → Option ℕ) (T : TableTree) (count : ℕ) (S : Finset ℕ)
    (n : ℕ) : Option ℕ :=
  if n < count then (frames n).filter fun f => decide (∃ level q, T level q = some f)
  else FrameSet.answer S (n - count)

/-- The answers so far are frames of tables. -/
lemma renewed_past {count n f : ℕ} (hn : n < count) :
    renewed frames T count S n = some f ↔
      frames n = some f ∧ ∃ level q, T level q = some f := by
  classical
  rw [renewed, if_pos hn, Option.filter_eq_some_iff, decide_eq_true_iff]

/-- The answers to come are free frames. -/
lemma renewed_future {count n : ℕ} (hn : ¬ n < count) :
    renewed frames T count S n = FrameSet.answer S (n - count) := if_neg hn

namespace Sound

/-- **The free frames may change**, as long as they are frames of the identity map and none of them
is the frame of a table. -/
lemma renew (h : Sound k frames T S) {a : FrameAllocator} (hrefines : Refines a S')
    (hlow : ∀ i ∈ S', i * physFrameSize < identityLimit)
    (htaken : ∀ {level q t}, T level q = some t → t / physFrameSize ∉ S') :
    Sound { k with allocator := a } (renewed frames T k.paging.allocs S') T S' := by
  -- a free frame is not an answer so far
  have hsplit : ∀ {n n' f}, n < k.paging.allocs → ¬ n' < k.paging.allocs →
      renewed frames T k.paging.allocs S' n = some f →
      renewed frames T k.paging.allocs S' n' ≠ some f := by
    intro n n' f hn hn' hf hf'
    obtain ⟨-, level, q, ht⟩ := (renewed_past hn).mp hf
    rw [renewed_future hn'] at hf'
    obtain ⟨i, hi, rfl, -⟩ := FrameSet.answer_spec hf'
    refine htaken ht ?_
    rw [Nat.mul_div_cancel i (by decide)]
    exact FrameSet.iterate_rest_subset S' (Nat.zero_le _) hi
  refine ⟨⟨⟨fun ht => ?_, h.inj⟩, h.root, h.top, h.parent, h.link, h.directory, h.noTable⟩,
    ⟨fun {n f} hf => ?_, fun {n f} hf => ?_, fun {n n' f} hf hf' => ?_⟩, fun n => ?_, hrefines,
    hlow, htaken⟩
  · obtain ⟨n, hn, hf⟩ := h.used ht
    exact ⟨n, hn, (renewed_past hn).mpr ⟨hf, _, _, ht⟩⟩
  · by_cases hn : n < k.paging.allocs
    · exact h.fresh.aligned ((renewed_past hn).mp hf).1
    · rw [renewed_future hn] at hf
      obtain ⟨i, -, rfl, -⟩ := FrameSet.answer_spec hf
      exact Nat.dvd_mul_left _ _
  · by_cases hn : n < k.paging.allocs
    · exact h.fresh.low ((renewed_past hn).mp hf).1
    · rw [renewed_future hn] at hf
      obtain ⟨i, hi, rfl, -⟩ := FrameSet.answer_spec hf
      exact hlow i (FrameSet.iterate_rest_subset S' (Nat.zero_le _) hi)
  · by_cases hn : n < k.paging.allocs <;> by_cases hn' : n' < k.paging.allocs
    · exact h.fresh.distinct ((renewed_past hn).mp hf).1 ((renewed_past hn').mp hf').1
    · exact absurd hf' (hsplit hn hn' hf)
    · exact absurd hf (hsplit hn' hn hf')
    · rw [renewed_future hn] at hf
      rw [renewed_future hn'] at hf'
      have := FrameSet.answer_inj hf hf'
      omega
  · have hn : ¬ k.paging.allocs + n < k.paging.allocs := by omega
    exact (renewed_future hn).trans (congrArg _ (Nat.add_sub_cancel_left _ _))

/-- **Taking a frame** leaves it to the caller. -/
lemma alloc (h : Sound k frames T S) {r : Option PhysFrame} (hrun : k.alloc = .ok (k', r)) :
    r = (FrameSet.answer S 0).map PhysFrame.mk ∧ k'.paging = k.paging ∧
      ∃ frames', Sound k' frames' T (FrameSet.rest S) := by
  obtain ⟨a, halloc, hrefines⟩ := h.refines.alloc_answer
  rw [Kernel.alloc, halloc, Exec.bind_ok] at hrun
  obtain ⟨rfl, rfl⟩ := Prod.mk.inj (Except.ok.inj hrun)
  have hsub := FrameSet.rest_subset S
  exact ⟨rfl, rfl, _, h.renew hrefines (fun i hi => h.low i (hsub hi))
    fun ht hno => h.taken ht (hsub hno)⟩

/-- **Giving a frame back** that is not the frame of a table. -/
lemma free (h : Sound k frames T S) {frame : PhysFrame} {r : FreeOutcome}
    (hlow : frame.start < identityLimit)
    (htable : ∀ {level table}, k.paging.IsTable level table → table / physFrameSize ≠ frame.index)
    (hrun : k.free frame = .ok (k', r)) : ∃ frames' S', Sound k' frames' T S' := by
  obtain ⟨a, hcall, hrefines⟩ := h.refines.free_eq frame
  obtain ⟨⟨a₁, outcome⟩, hfree, hret⟩ := Exec.bind_eq_ok.mp hcall
  obtain ⟨rfl, -⟩ := Prod.mk.inj (Except.ok.inj hret)
  rw [Kernel.free, hfree, Exec.bind_ok] at hrun
  obtain ⟨rfl, -⟩ := Prod.mk.inj (Except.ok.inj hrun)
  have hmem : ∀ i ∈ (FrameSet.call S (.free frame)).1, i ∈ S ∨ i = frame.index := by
    intro i hi
    unfold FrameSet.call at hi
    dsimp only at hi
    split_ifs at hi
    · exact .inl hi
    · exact .inl hi
    · exact (Finset.mem_insert.mp hi).symm
  refine ⟨_, _, h.renew hrefines (fun i hi => ?_) fun ht hno => ?_⟩
  · rcases hmem i hi with hi | rfl
    · exact h.low i hi
    · exact (Nat.div_mul_le_self _ _).trans_lt hlow
  · rcases hmem _ hno with hi | hi
    · exact h.taken ht hi
    · exact htable (h.isTable_iff.mpr ⟨_, ht⟩) hi

/-- **The memory may change** outside of the tables. -/
lemma sameButMemory (h : Sound k frames T S) (hsame : k.SameButMemory k') :
    Sound k' frames T S := by
  have hword : ∀ level n, k'.paging.word T level n = k.paging.word T level n := by
    intro level n
    cases ht : T level (n / 512) with
    | none => rw [Paging.word, Paging.word, ht, Option.map_none, Option.map_none]
    | some t =>
      rw [word_eq ht, word_eq ht]
      exact congrArg some (hsame.tables (h.isTable_iff.mpr ⟨_, ht⟩) (Nat.mod_lt n (by norm_num)))
  obtain ⟨⟨mem, cr3, allocs⟩, a⟩ := k'
  obtain ⟨hpaging, rfl⟩ := Kernel.mk.inj hsame.state
  obtain ⟨-, rfl, rfl⟩ := Paging.mk.inj hpaging
  refine ⟨⟨⟨h.used, h.inj⟩, h.root, h.top, h.parent, fun {level n entry} hentry => ?_,
    fun {n} hn => ?_, h.noTable⟩, h.fresh, h.future, h.refines, h.low, h.taken⟩
  · rw [hword] at hentry
    exact h.link hentry
  · rw [hword]
    exact h.directory hn

/-- What a call of paging has done, and what the frame allocator has answered. -/
lemma call_eq (h : Sound k frames T S) {c : PagingCall} {r : PagingResult}
    (hrun : k.call c = .ok (k', r)) : k.paging.call frames c = .ok (k'.paging, r) ∧
      k.allocator.advance (k'.paging.allocs - k.paging.allocs) = .ok k'.allocator := by
  obtain ⟨⟨s, r₁⟩, hcall, hrest⟩ := Exec.bind_eq_ok.mp hrun
  obtain ⟨a, hadvance, hret⟩ := Exec.bind_eq_ok.mp hrest
  obtain ⟨rfl, rfl⟩ := Prod.mk.inj (Except.ok.inj hret)
  exact ⟨(call_answers c fun n hn => (h.frames_eq hn).symm).trans hcall, hadvance⟩

/-- **A call of paging.** -/
lemma call (h : Sound k frames T S) {c : PagingCall} {r : PagingResult} (hc : c.Words)
    (hrun : k.call c = .ok (k', r)) : ∃ T' S', Sound k' frames T' S' := by
  obtain ⟨hcall, hadvance⟩ := h.call_eq hrun
  obtain ⟨_, s₁, T', hgrows, hshape, hallocs⟩ := call_grows h.toShape h.fresh hc hcall
  obtain ⟨a', hadvance', hsound, -⟩ := h.grown hgrows hshape hallocs
  obtain rfl := Except.ok.inj (hadvance.symm.trans hadvance')
  exact ⟨T', _, hsound⟩

end Sound

/-! ## Runs -/

/-- The steps of the kernel as far as they concern frames and tables. -/
inductive KernelEvent where
  | paging (c : PagingCall) (r : PagingResult)
  | alloc (frame : Option PhysFrame)
  | free (frame : PhysFrame) (outcome : FreeOutcome)
  | store

/-- One step: a call of paging, a call of the frame allocator (its callers give back no frame of a
table and none above the identity map), or a store outside of the tables. -/
def Kernel.Steps (k : Kernel) : KernelEvent → Kernel → Prop
  | .paging c r, k' => c.Words ∧ k.call c = .ok (k', r)
  | .alloc frame, k' => k.alloc = .ok (k', frame)
  | .free frame outcome, k' => frame.start < identityLimit ∧
      (∀ {level table}, k.paging.IsTable level table → table / physFrameSize ≠ frame.index) ∧
      k.free frame = .ok (k', outcome)
  | .store, k' => k.SameButMemory k'

/-- Some tree and some free frames make the state sound. -/
def Kernel.IsSound (k : Kernel) : Prop := ∃ frames T S, Sound k frames T S

/-- **Every step of the kernel keeps the tables and the free frames apart.** -/
lemma Kernel.IsSound.step (h : k.IsSound) {e : KernelEvent} (hstep : k.Steps e k') :
    k'.IsSound := by
  obtain ⟨frames, T, S, hsound⟩ := h
  cases e with
  | paging c r =>
    obtain ⟨T', S', hsound'⟩ := hsound.call hstep.1 hstep.2
    exact ⟨frames, T', S', hsound'⟩
  | alloc frame =>
    obtain ⟨-, -, frames', hsound'⟩ := hsound.alloc hstep
    exact ⟨frames', T, _, hsound'⟩
  | free frame outcome =>
    obtain ⟨hlow, htable, hfree⟩ := hstep
    obtain ⟨frames', S', hsound'⟩ := hsound.free hlow htable hfree
    exact ⟨frames', T, S', hsound'⟩
  | store => exact ⟨frames, T, S, hsound.sameButMemory hstep⟩

/-- The kernel before paging: memory with arbitrary contents, and a bitmap. -/
def Kernel.atBoot (mem : ℕ → ℕ) (cr3 : ℕ) (a : FrameAllocator) : Kernel := ⟨⟨mem, cr3, 0⟩, a⟩

/-- **The first address space is sound** if the free frames lie in the identity map. -/
lemma Kernel.init_isSound {mem : ℕ → ℕ} {cr3 : ℕ} {a : FrameAllocator} (hrefines : Refines a S)
    (hlow : ∀ i ∈ S, i * physFrameSize < identityLimit)
    (hinit : (Kernel.atBoot mem cr3 a).init = .ok k) : k.IsSound := by
  have hframes : (Kernel.atBoot mem cr3 a).frames = FrameSet.answer S := by
    funext n
    exact hrefines.answer_eq n
  have hfresh : FreshFrames (FrameSet.answer S) := by
    refine ⟨fun {n f} hf => ?_, fun {n f} hf => ?_, fun hf hf' => FrameSet.answer_inj hf hf'⟩
    · obtain ⟨i, -, rfl, -⟩ := FrameSet.answer_spec hf
      exact Nat.dvd_mul_left _ _
    · obtain ⟨i, hi, rfl, -⟩ := FrameSet.answer_spec hf
      exact hlow i (FrameSet.iterate_rest_subset S (Nat.zero_le _) hi)
  obtain ⟨⟨k₁, _⟩, hrun, hret⟩ := Exec.bind_eq_ok.mp hinit
  obtain rfl := Except.ok.inj hret
  obtain ⟨⟨s, _⟩, hpaging, hrest⟩ := Exec.bind_eq_ok.mp hrun
  obtain ⟨a', hadvance, hret⟩ := Exec.bind_eq_ok.mp hrest
  obtain ⟨rfl, -⟩ := Prod.mk.inj (Except.ok.inj hret)
  obtain ⟨s₁, hs₁, hret⟩ := Exec.bind_eq_ok.mp hpaging
  obtain ⟨rfl, -⟩ := Prod.mk.inj (Except.ok.inj hret)
  rw [hframes] at hs₁
  obtain ⟨⟨s₀, pml4⟩, hbuild, -⟩ := Exec.bind_eq_ok.mp hs₁
  obtain rfl := Except.ok.inj ((init_eq hfresh hbuild).symm.trans hs₁)
  obtain ⟨T, hshape, -⟩ := buildAddressSpace_shape hfresh hbuild
  obtain ⟨a₁, hadvance₁, hrefines₁⟩ := hrefines.advance_eq (s₀.writeCr3 pml4).allocs
  obtain rfl := Except.ok.inj (hadvance.symm.trans hadvance₁)
  have hsub := FrameSet.iterate_rest_subset S (Nat.zero_le (s₀.writeCr3 pml4).allocs)
  refine ⟨_, T, _, hshape, hfresh, fun n => (FrameSet.answer_add S _ n).symm, hrefines₁,
    fun i hi => hlow i (hsub hi), fun ht hno => ?_⟩
  -- a table lies in a frame that the bitmap has given away
  obtain ⟨n, hn, hf⟩ := hshape.used ht
  obtain ⟨i, -, rfl, hgone⟩ := FrameSet.answer_spec hf
  rw [Nat.mul_div_cancel i (by decide)] at hno
  exact hgone (FrameSet.iterate_rest_subset S hn hno)

end

end ZiranOS
