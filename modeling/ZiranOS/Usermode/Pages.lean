import ZiranOS.Usermode.Program
import ZiranOS.Paging.NewTables
import ZiranOS.Lib.Follows

/-!
# Accounting for the frames

Above the identity map the kernel has pages of its own and pages of ring 3.  An `Account` is what
its memory is used for: the frames that are free, the tables that are there, and for each page the
frame it is mapped to and for whom.  `Books` ties a kernel to an account and accounts for every
frame: one that was free at first is free, in the hand of the code that has just taken it, the frame
of a table, or the frame of one page.

The basic operations are said once each: taking a frame (`Books.take`), mapping it (`Books.map`),
unmapping a page (`Books.unmap`), giving its frame back (`Books.release`) and a store
(`Books.store`).  They follow operations on the account, which are stuck where the kernel panics.
-/

namespace ZiranOS

open ProgLib

/-! ## Accounts -/

/-- The pages above the identity map: for whom a page is mapped, and the address of its frame. -/
abbrev Pages := ℕ → Option (Ring × ℕ)

/-- What the frames are used for. -/
structure Account where
  /-- The free frames. -/
  free : Finset ℕ
  /-- The tables, by level and number. -/
  tables : Finset (ℕ × ℕ)
  /-- The pages. -/
  pages : Pages

namespace Account

/-- The tables of the walk for an address, below the root. -/
def walkTables (virt : ℕ) : Finset (ℕ × ℕ) :=
  {(0, slot virt 1), (1, slot virt 2), (2, slot virt 3)}

/-- The number of tables missing on the walk for an address. -/
def missing (a : Account) (virt : ℕ) : ℕ := (walkTables virt \ a.tables).card

/-- Take the first free frame. -/
def take (a : Account) : Option (Account × PhysFrame) :=
  (FrameSet.answer a.free 0).map fun f => ({ a with free := FrameSet.rest a.free }, ⟨f⟩)

/-- The account with a page mapped to a frame, and the frames for the missing tables taken. -/
def mapped (a : Account) (ring : Ring) (virt phys : ℕ) : Account where
  free := FrameSet.rest^[a.missing virt] a.free
  tables := a.tables ∪ walkTables virt
  pages := Function.update a.pages (virt / 4096) (some (ring, phys))

/-- Map a page to a frame if there are frames for the missing tables. -/
def map (a : Account) (ring : Ring) (virt phys : ℕ) : Option Account :=
  if a.missing virt ≤ a.free.card then some (a.mapped ring virt phys) else none

/-- Unmap a page. -/
def unmap (a : Account) (virt : ℕ) : Account :=
  { a with pages := Function.update a.pages (virt / 4096) none }

/-- Give a frame back. -/
def release (a : Account) (i : ℕ) : Account := { a with free := insert i a.free }

/-- Where an address leads. -/
def lookup (a : Account) (virt : ℕ) : Option ℕ :=
  if virt < identityLimit then some virt
  else (a.pages (virt / 4096)).map fun page => page.2 + virt % 4096

/-- Where the running code may store: to its pages, to a frame in its hand, and below the end of the
identity map to memory that never belonged to the frame allocator. -/
def Storable (F H : Finset ℕ) (a : Account) (virt : ℕ) : Prop :=
  virt < 2 ^ 48 ∧ if virt < identityLimit then virt / physFrameSize ∉ F ∨ virt / physFrameSize ∈ H
    else (a.pages (virt / 4096)).isSome

/-- The pages after a mapping. -/
lemma mapped_pages (a : Account) (ring : Ring) (virt phys n : ℕ) :
    (a.mapped ring virt phys).pages n =
      if n = virt / 4096 then some (ring, phys) else a.pages n := Function.update_apply _ _ _ _

/-- The pages after an unmapping. -/
lemma unmap_pages (a : Account) (virt n : ℕ) :
    (a.unmap virt).pages n = if n = virt / 4096 then none else a.pages n :=
  Function.update_apply _ _ _ _

end Account

/-! ## Books -/

/-- The frame of a page: a frame that was free at first and is in no other use. -/
structure PageFrame (F H : Finset ℕ) (T : TableTree) (S : Finset ℕ) (f : ℕ) : Prop where
  /-- The frame is a frame. -/
  aligned : physFrameSize ∣ f
  /-- The frame was free at first. -/
  usable : f / physFrameSize ∈ F
  /-- The frame is neither free nor the frame of a table. -/
  owned : Owned T S (f / physFrameSize)
  /-- The frame is in nobody's hand. -/
  settled : f / physFrameSize ∉ H

/-- A kernel with the given account.  `F` are the frames that were free at first, and `H` those that
the running code has in its hand. -/
structure Books (F H : Finset ℕ) (k : Kernel) (frames : ℕ → Option ℕ) (T : TableTree)
    (a : Account) : Prop extends Sound k frames T a.free where
  /-- All frames lie in the identity map. -/
  usable_low : ∀ i ∈ F, i * physFrameSize < identityLimit
  /-- The pages of ring 3 are open to it. -/
  guards : Guards frames k.paging T fun n => (a.pages n).map Prod.fst
  /-- The pages are mapped to their frames. -/
  pageAt : ∀ n, k.paging.pageAt T n = (a.pages n).map Prod.snd
  /-- The tables are those of the account. -/
  tables_iff : ∀ {level q}, (T level q).isSome ↔ (level, q) ∈ a.tables
  /-- Free frames were free at first. -/
  free_usable : a.free ⊆ F
  /-- So were the frames of tables. -/
  table_usable : ∀ {level q t}, T level q = some t → t / physFrameSize ∈ F
  /-- So were those in hand. -/
  hand_usable : H ⊆ F
  /-- A frame in hand is in no other use. -/
  hand_owned : ∀ {i}, i ∈ H → Owned T a.free i
  /-- A page has a frame to itself. -/
  page : ∀ {n r f}, a.pages n = some (r, f) → PageFrame F H T a.free f
  /-- Different pages have different frames. -/
  page_inj : ∀ {n n' r r' f}, a.pages n = some (r, f) → a.pages n' = some (r', f) → n = n'
  /-- No frame is lost. -/
  cover : ∀ i ∈ F, i ∈ a.free ∨ i ∈ H ∨ (∃ level q t, T level q = some t ∧ t / physFrameSize = i) ∨
    ∃ n r f, a.pages n = some (r, f) ∧ f / physFrameSize = i

/-- The kernel has the given account, with the given frames in hand. -/
def Kernel.Keeps (F H : Finset ℕ) (k : Kernel) (a : Account) : Prop :=
  ∃ frames T, Books F H k frames T a

variable {F H : Finset ℕ} {k k' : Kernel} {frames : ℕ → Option ℕ} {T : TableTree} {a : Account}

/-- A frame by its address. -/
lemma frame_div {f : ℕ} (h : physFrameSize ∣ f) : f / physFrameSize * physFrameSize = f :=
  Nat.div_mul_cancel h

namespace Books

/-- The frame of a page lies in the identity map. -/
lemma start_lt (h : Books F H k frames T a) {f : ℕ} (halign : physFrameSize ∣ f)
    (husable : f / physFrameSize ∈ F) : f < identityLimit := by
  have hlow := h.usable_low _ husable
  rwa [frame_div halign] at hlow

/-! ### Taking a frame -/

/-- The frames in hand are more by one. -/
def Took (F H : Finset ℕ) (k : Kernel) (x : Kernel × PhysFrame) (y : Account × PhysFrame) : Prop :=
  x.2 = y.2 ∧ x.1.paging = k.paging ∧ physFrameSize ∣ x.2.start ∧ x.2.index ∉ H ∧
    x.1.Keeps F (insert x.2.index H) y.1

/-- **Taking a frame that has to be there.** -/
lemma take (h : Books F H k frames T a) : Follows (Took F H k) k.expectFrame a.take := by
  obtain ⟨a₁, halloc, hrefines⟩ := h.refines.alloc_answer
  have hrun : k.alloc = .ok (({ k with allocator := a₁ } : Kernel),
      (FrameSet.answer a.free 0).map PhysFrame.mk) := by
    rw [Kernel.alloc, halloc]
    rfl
  rw [Account.take, Kernel.expectFrame, hrun, Exec.bind_ok]
  cases hanswer : FrameSet.answer a.free 0 with
  | none => rfl
  | some f =>
    obtain ⟨i, hi, rfl, hgone⟩ := FrameSet.answer_spec hanswer
    have hindex : i * physFrameSize / physFrameSize = i := Nat.mul_div_cancel i (by decide)
    obtain ⟨-, -, frames', hsound⟩ := h.toSound.alloc hrun
    have hrest : FrameSet.rest a.free = a.free.erase i := by
      have hne : a.free.Nonempty := ⟨i, hi⟩
      have hfirst : a.free.min' hne = i := by
        rw [FrameSet.answer, Function.iterate_zero_apply, dif_pos hne] at hanswer
        exact Nat.eq_of_mul_eq_mul_right (by decide) (Option.some.inj hanswer)
      rw [FrameSet.rest_of_nonempty hne, hfirst]
    have howned : Owned T a.free i → False := fun h' => h'.used hi
    refine Follows.of_ok ⟨rfl, rfl, Nat.dvd_mul_left _ _, ?_, frames', T, hsound, h.usable_low,
      ⟨hsound.toShape, h.guards.page, h.guards.above⟩, h.pageAt, h.tables_iff,
      (FrameSet.rest_subset _).trans h.free_usable, h.table_usable, ?_, ?_, ?_, h.page_inj, ?_⟩
    · rw [PhysFrame.index, hindex]
      exact fun hin => howned (h.hand_owned hin)
    · rw [PhysFrame.index, hindex]
      exact Finset.insert_subset (h.free_usable hi) h.hand_usable
    · intro j hj
      rw [PhysFrame.index, hindex] at hj
      rcases Finset.mem_insert.mp hj with rfl | hj
      · exact ⟨hgone, fun ht heq => h.taken ht (heq ▸ hi)⟩
      · exact (h.hand_owned hj).rest
    · intro n r f hpage
      have hframe := h.page hpage
      refine ⟨hframe.aligned, hframe.usable, hframe.owned.rest, fun hin => ?_⟩
      rw [PhysFrame.index, hindex] at hin
      rcases Finset.mem_insert.mp hin with heq | hin
      · exact howned (heq ▸ hframe.owned)
      · exact hframe.settled hin
    · intro j hj
      rw [PhysFrame.index, hindex]
      rcases h.cover j hj with hfree | hhand | hrest'
      · by_cases hji : j = i
        · exact .inr (.inl (Finset.mem_insert.mpr (.inl hji)))
        · refine .inl ?_
          show j ∈ FrameSet.rest a.free
          rw [hrest]
          exact Finset.mem_erase.mpr ⟨hji, hfree⟩
      · exact .inr (.inl (Finset.mem_insert_of_mem hhand))
      · exact .inr (.inr hrest')

end Books

/-! ### Mapping a frame -/

/-- The call that maps a page for a ring. -/
def Ring.mapping (ring : Ring) (virt phys flags : ℕ) : PagingCall :=
  match ring with
  | .kernel => .mapPage virt phys flags
  | .user => .mapUserPage virt phys flags

namespace Kernel

/-- A mapping that has to succeed. -/
def expectMapped (k : Kernel) (c : PagingCall) : Exec Unit Kernel := do
  match ← k.call c with
  | (k, .mapped (.ok _)) => pure k
  | (_, _) => Exec.panic .assertion

/-- A mapping for the kernel only that has to succeed. -/
def expectPage (k : Kernel) (virt phys flags : ℕ) : Exec Unit Kernel :=
  k.expectMapped (.mapPage virt phys flags)

end Kernel

/-- What a mapping returns. -/
lemma call_mapping {s s' : Paging} {ring : Ring} {virt phys flags : ℕ} {r : Except MapError Unit}
    (hlow : identityLimit ≤ virt)
    (hrun : s.mapInner frames virt phys flags (decide (ring = .user)) = .ok (s', r)) :
    s.call frames (ring.mapping virt phys flags) = .ok (s', .mapped r) := by
  cases ring with
  | kernel =>
    rw [Ring.mapping, Paging.call, Paging.mapPage]
    exact congrArg (· >>= _) hrun
  | user =>
    rw [Ring.mapping, Paging.call, Paging.mapUserPage, if_pos hlow]
    exact congrArg (· >>= _) hrun

/-- A successful mapping keeps the pages guarded. -/
lemma Guards.maps {s s' : Paging} {T' : TableTree} {rings : RingMap} {virt phys flags : ℕ}
    {ring : Ring} (h : Guards frames s T rings) (hf : FreshFrames frames)
    (hflags : flags = 0 ∨ flags = writable)
    (hmaps : Maps frames (decide (ring = .user)) virt
      (leafEntry phys flags (decide (ring = .user))) s T s' T' (.ok ()))
    (hopen : ring = .user → s'.OpenTo T' virt 3) :
    Guards frames s' T' (Function.update rings (virt / 4096) (some ring)) := by
  cases hmaps with
  | @done s₁ T' t hgrows ht =>
    have hg := h.of_grows hf hgrows
    refine hg.setWord hf ht ((userEntry_leafEntry hflags _).trans (by simp)) fun huser l hl => ?_
    have hentry := hopen (Option.some.inj huser) l hl
    rwa [userAt_setWord hg.toPlaced hf ht, if_neg (by omega)] at hentry

/-- A call of paging with the frames of the account. -/
lemma Sound.call_ok {S : Finset ℕ} (h : Sound k frames T S) {c : PagingCall} {s' : Paging}
    {al : FrameAllocator} {r : PagingResult} (hcall : k.paging.call frames c = .ok (s', r))
    (hadvance : k.allocator.advance (s'.allocs - k.paging.allocs) = .ok al) :
    k.call c = .ok (⟨s', al⟩, r) := by
  have hframes : k.paging.call k.frames c = .ok (s', r) :=
    (call_answers c fun n hn => h.frames_eq hn).trans hcall
  rw [Kernel.call, Kernel.runPaging, hframes, Exec.bind_ok]
  dsimp only
  rw [hadvance]
  rfl

/-- The tables missing in the tree are those missing in the account. -/
lemma Account.missing_eq (htables : ∀ {level q}, (T level q).isSome ↔ (level, q) ∈ a.tables)
    (virt : ℕ) : a.missing virt = T.missing virt 3 := by
  have hnone : ∀ level q, T level q = none ↔ (level, q) ∉ a.tables := fun level q => by
    rw [← htables, Option.not_isSome_iff_eq_none]
  rw [Account.missing, ← Finset.filter_notMem_eq_sdiff, walkTables]
  simp only [Finset.filter_insert, Finset.filter_singleton, TableTree.missing, hnone]
  split_ifs <;> simp

namespace Books

/-- **Mapping a frame in hand** to a page that has none. -/
lemma map (h : Books F H k frames T a) (ring : Ring) {virt phys flags : ℕ}
    (hlow : identityLimit ≤ virt) (hvirt : virt < 2 ^ 47) (hhand : phys / physFrameSize ∈ H)
    (halign : physFrameSize ∣ phys) (hflags : flags = 0 ∨ flags = writable)
    (hpage : a.pages (virt / 4096) = none) :
    Follows (Kernel.Keeps F (H.erase (phys / physFrameSize)))
      (k.expectMapped (ring.mapping virt phys flags)) (a.map ring virt phys) := by
  have h30 := identityLimit_eq
  have hphys := h.start_lt halign (h.hand_usable hhand)
  have hround : phys / 4096 * 4096 = phys := frame_div halign
  obtain ⟨s', T', r, hrun, hmaps, hopen⟩ := mapInner_eq h.toShape h.fresh
    (show virt < 2 ^ 48 by omega) (show phys < 2 ^ 64 by omega) flags (decide (ring = .user))
  obtain ⟨s₁, hgrows, hshape, hcount⟩ := hmaps.grows h.fresh h.toShape
  obtain ⟨al, hadvance, hsound, howned⟩ := h.toSound.grown hgrows hshape hcount
  have hcall := h.toSound.call_ok (call_mapping hlow hrun) hadvance
  have hrequests := mapInner_requests h.toShape h.fresh hlow (show virt < 2 ^ 48 by omega)
    (show phys < 2 ^ 64 by omega) hrun
  rw [← Account.missing_eq h.tables_iff] at hrequests
  rw [Kernel.expectMapped, hcall, Exec.bind_ok, Account.map]
  cases hrequests with
  | @refused j hj hframes hnone hr hallocs =>
    subst hr
    have hcard : ¬ j < a.free.card := by
      rw [← FrameSet.answer_isSome_iff, ← h.future, hnone]
      exact Bool.false_ne_true
    rw [if_neg (by omega)]
    rfl
  | all hr hframes hallocs =>
    have hlarge : r ≠ .error .hugePage := fun hr =>
      not_lt.mpr hlow ((hmaps.hugePage_iff h.fresh h.toShape).mp hr)
    obtain rfl : r = .ok () := by
      rcases r with (_ | _) | _
      · exact absurd rfl hr
      · exact absurd rfl hlarge
      · rfl
    have hcard : a.missing virt ≤ a.free.card := by
      by_contra hno
      have hlast := hframes a.free.card (by omega)
      rw [h.future, FrameSet.answer_isSome_iff] at hlast
      exact lt_irrefl _ hlast
    have hrest : s'.allocs - k.paging.allocs = a.missing virt := by omega
    rw [hrest] at hsound howned
    have hsub := FrameSet.iterate_rest_subset a.free (Nat.zero_le (a.missing virt))
    rw [if_pos hcard]
    refine Follows.of_ok ⟨frames, T', hsound, h.usable_low, ?_, fun n => ?_, fun {level q} => ?_,
      hsub.trans h.free_usable, fun {level q t} ht => ?_, (Finset.erase_subset _ _).trans
      h.hand_usable, fun hi => howned (h.hand_owned (Finset.mem_of_mem_erase hi)), ?_, ?_, ?_⟩
    · have hguards := h.guards.maps h.fresh hflags hmaps fun huser => hopen (by simp [huser]) rfl
      convert hguards using 1
      funext n
      rw [Account.mapped_pages, Function.update_apply]
      split_ifs <;> rfl
    · rw [hmaps.pageAt_eq h.fresh h.toShape, leafPage_leafEntry (by omega) hflags, hround,
        h.pageAt, Account.mapped_pages]
      simp only [true_and]
      split_ifs <;> rfl
    · rw [mapInner_tables h.toShape h.fresh (by omega) (by omega) hrun hshape, h.tables_iff]
      refine Iff.trans (or_congr_right ?_) Finset.mem_union.symm
      simp only [OnWalk, Account.walkTables, Finset.mem_insert, Finset.mem_singleton,
        Prod.mk.injEq]
      constructor
      · rintro ⟨hl, rfl⟩
        interval_cases level <;> simp
      · rintro (⟨rfl, rfl⟩ | ⟨rfl, rfl⟩ | ⟨rfl, rfl⟩) <;> exact ⟨by omega, rfl⟩
    · rcases table_of_grows hgrows ht with hold | ⟨n, hn, -, hframe⟩
      · exact h.table_usable hold
      · obtain ⟨j, rfl⟩ := Nat.exists_eq_add_of_le hn
        obtain ⟨i, hi, rfl, -⟩ := FrameSet.answer_spec ((h.future j).symm.trans hframe)
        rw [Nat.mul_div_cancel i (by decide)]
        exact h.free_usable (FrameSet.iterate_rest_subset _ (Nat.zero_le j) hi)
    · intro n ring' f hf
      rw [Account.mapped_pages] at hf
      split_ifs at hf with hn
      · obtain ⟨-, rfl⟩ := Prod.mk.inj (Option.some.inj hf)
        exact ⟨halign, h.hand_usable hhand, howned (h.hand_owned hhand), Finset.notMem_erase _ _⟩
      · have hframe := h.page hf
        exact ⟨hframe.aligned, hframe.usable, howned hframe.owned,
          fun hin => hframe.settled (Finset.mem_of_mem_erase hin)⟩
    · -- the frame of another page is not in hand
      have hother : ∀ {n r f}, a.pages n = some (r, f) → f ≠ phys := by
        rintro n r f hf rfl
        exact (h.page hf).settled hhand
      intro n n' r r' f hf hf'
      rw [Account.mapped_pages] at hf hf'
      split_ifs at hf hf' with hn hn' hn'
      · rw [hn, hn']
      · obtain ⟨-, rfl⟩ := Prod.mk.inj (Option.some.inj hf)
        exact absurd rfl (hother hf')
      · obtain ⟨-, rfl⟩ := Prod.mk.inj (Option.some.inj hf')
        exact absurd rfl (hother hf)
      · exact h.page_inj hf hf'
    · intro i hi
      rcases h.cover i hi with hfree | hin | ⟨level, q, t, ht, hindex⟩ | ⟨n, r, f, hf, hindex⟩
      · rcases FrameSet.mem_iterate_rest_or hfree (a.missing virt) with hmem | ⟨j, hj, hanswer⟩
        · exact .inl hmem
        · obtain ⟨level, q, ht⟩ := table_of_request hgrows (n := k.paging.allocs + j)
            (Nat.le_add_right _ _) (show k.paging.allocs + j < s₁.allocs by omega)
            ((h.future j).trans hanswer)
          exact .inr (.inr (.inl ⟨level, q, _, ht, Nat.mul_div_cancel i (by decide)⟩))
      · by_cases heq : i = phys / physFrameSize
        · exact .inr (.inr (.inr ⟨virt / 4096, ring, phys, Function.update_self _ _ _, heq.symm⟩))
        · exact .inr (.inl (Finset.mem_erase.mpr ⟨heq, hin⟩))
      · exact .inr (.inr (.inl ⟨level, q, t, table_grown hgrows ht, hindex⟩))
      · refine .inr (.inr (.inr ⟨n, r, f, ?_, hindex⟩))
        rw [Account.mapped_pages, if_neg]
        · exact hf
        · rintro rfl
          rw [hpage] at hf
          cases hf

/-! ### Unmapping -/

/-- **Unmapping a page** leaves its frame in hand. -/
lemma unmap (h : Books F H k frames T a) {virt : ℕ} (hvirt : virt < 2 ^ 47) {ring : Ring} {f : ℕ}
    (hpage : a.pages (virt / 4096) = some (ring, f)) :
    ∃ k', k.call (.unmapPage virt) = .ok (k', .unmapped true) ∧
      k'.Keeps F (insert (f / physFrameSize) H) (a.unmap virt) := by
  have hframe := h.page hpage
  have hpageAt : k.paging.pageAt T (virt / 4096) = some f := by
    rw [h.pageAt, hpage]
    rfl
  obtain ⟨s', hrun, hshape, hpages, -⟩ :=
    unmapPage_eq h.toShape h.fresh (show virt < 2 ^ 48 by omega)
  obtain ⟨s₁, r, hrun₁, hguards⟩ := h.guards.unmapPage h.fresh (show virt < 2 ^ 48 by omega)
  obtain ⟨rfl, rfl⟩ := Prod.mk.inj (Except.ok.inj (hrun.symm.trans hrun₁))
  rw [hpageAt, Option.isSome_some] at hrun hguards
  have hallocs := unmapPage_allocs hrun
  have hadvance : k.allocator.advance (s'.allocs - k.paging.allocs) = .ok k.allocator := by
    rw [hallocs, Nat.sub_self]
    rfl
  have hcall : k.paging.call frames (.unmapPage virt) = .ok (s', .unmapped true) := by
    rw [Paging.call, hrun]
    rfl
  have hsound : Sound ⟨s', k.allocator⟩ frames T a.free :=
    ⟨hshape, h.fresh, fun n => (congrArg (fun m => frames (m + n)) hallocs).trans (h.future n),
      h.refines, h.low, h.taken⟩
  refine ⟨_, h.toSound.call_ok hcall hadvance, frames, T, hsound, h.usable_low, ?_, fun n => ?_,
    h.tables_iff, h.free_usable, h.table_usable,
    Finset.insert_subset hframe.usable h.hand_usable, fun hi => ?_, ?_, ?_, ?_⟩
  · convert hguards using 1
    funext n
    rw [Account.unmap_pages, RingMap.after, Function.update_apply]
    split_ifs <;> rfl
  · rw [hpages, h.pageAt, Account.unmap_pages]
    split_ifs <;> rfl
  · rcases Finset.mem_insert.mp hi with rfl | hi
    · exact hframe.owned
    · exact h.hand_owned hi
  · intro n ring' f' hf
    rw [Account.unmap_pages] at hf
    split_ifs at hf with hn
    have hother := h.page hf
    refine ⟨hother.aligned, hother.usable, hother.owned, fun hin => ?_⟩
    rcases Finset.mem_insert.mp hin with heq | hin
    · have hsame : f' = f := by rw [← frame_div hother.aligned, heq, frame_div hframe.aligned]
      exact hn (h.page_inj hf (hsame ▸ hpage))
    · exact hother.settled hin
  · intro n n' r r' f' hf hf'
    rw [Account.unmap_pages] at hf hf'
    split_ifs at hf hf'
    exact h.page_inj hf hf'
  · intro i hi
    rcases h.cover i hi with hfree | hin | htable | ⟨n, r, f', hf, hindex⟩
    · exact .inl hfree
    · exact .inr (.inl (Finset.mem_insert_of_mem hin))
    · exact .inr (.inr (.inl htable))
    · by_cases hn : n = virt / 4096
      · subst hn
        obtain ⟨-, rfl⟩ := Prod.mk.inj (Option.some.inj (hf.symm.trans hpage))
        exact .inr (.inl (Finset.mem_insert.mpr (.inl hindex.symm)))
      · refine .inr (.inr (.inr ⟨n, r, f', ?_, hindex⟩))
        rw [Account.unmap_pages, if_neg hn]
        exact hf

/-- **Giving back a frame in hand.** -/
lemma release (h : Books F H k frames T a) {frame : PhysFrame} (hin : frame.index ∈ H) :
    ∃ k', k.free frame = .ok (k', .freed) ∧ k'.paging = k.paging ∧
      k'.Keeps F (H.erase frame.index) (a.release frame.index) := by
  have h30 := identityLimit_eq
  have hlow := h.usable_low _ (h.hand_usable hin)
  have howned := h.hand_owned hin
  have hcount : ¬ frame.index ≥ frameCount := by
    rw [frameCount_eq]
    rw [physFrameSize] at hlow
    omega
  obtain ⟨al, hcall, hrefines⟩ := h.refines.free_eq frame
  rw [FrameSet.call, if_neg hcount, if_neg howned.used] at hcall hrefines
  obtain ⟨⟨al₁, outcome⟩, hfree, hret⟩ := Exec.bind_eq_ok.mp hcall
  obtain ⟨rfl, houtcome⟩ := Prod.mk.inj (Except.ok.inj hret)
  obtain rfl := FrameResult.freed.inj houtcome
  have hsound := h.toSound.renew hrefines (fun i hi => ?_) (fun {level q t} ht hno => ?_)
  · refine ⟨{ k with allocator := al₁ }, ?_, rfl, _, T, hsound, h.usable_low,
      ⟨hsound.toShape, h.guards.page, h.guards.above⟩, h.pageAt, h.tables_iff,
      Finset.insert_subset (h.hand_usable hin) h.free_usable, h.table_usable,
      (Finset.erase_subset _ _).trans h.hand_usable, ?_, ?_, h.page_inj, ?_⟩
    · rw [Kernel.free, hfree]
      rfl
    · intro i hi
      obtain ⟨hne, hi⟩ := Finset.mem_erase.mp hi
      refine ⟨fun hno => ?_, (h.hand_owned hi).noTable⟩
      exact (h.hand_owned hi).used ((Finset.mem_insert.mp hno).resolve_left hne)
    · intro n r f hf
      have hframe := h.page hf
      refine ⟨hframe.aligned, hframe.usable, ⟨fun hno => ?_, hframe.owned.noTable⟩,
        fun hno => hframe.settled (Finset.mem_of_mem_erase hno)⟩
      rcases Finset.mem_insert.mp hno with heq | hno
      · exact hframe.settled (heq ▸ hin)
      · exact hframe.owned.used hno
    · intro i hi
      rcases h.cover i hi with hfree | hhand | hrest
      · exact .inl (Finset.mem_insert_of_mem hfree)
      · by_cases heq : i = frame.index
        · exact .inl (Finset.mem_insert.mpr (.inl heq))
        · exact .inr (.inl (Finset.mem_erase.mpr ⟨heq, hhand⟩))
      · exact .inr (.inr hrest)
  · rcases Finset.mem_insert.mp hi with rfl | hi
    · exact hlow
    · exact h.low i hi
  · rcases Finset.mem_insert.mp hno with heq | hno
    · exact howned.noTable ht heq
    · exact h.taken ht hno

/-! ### Stores -/

/-- The live tables lead an address where the account says. -/
lemma translate_eq (h : Books F H k frames T a) {virt : ℕ} (hvirt : virt < 2 ^ 48) :
    k.paging.translate virt = .ok (a.lookup virt) := by
  rw [ZiranOS.translate_eq h.toShape h.fresh hvirt, Paging.target, h.pageAt, Account.lookup,
    Option.map_map]
  rfl

/-- The memory may change outside of the tables. -/
lemma sameButMemory (h : Books F H k frames T a) (hsame : k.SameButMemory k') :
    Books F H k' frames T a := by
  have hsound := h.toSound.sameButMemory hsame
  have hword : ∀ level n, k'.paging.word T level n = k.paging.word T level n := by
    intro level n
    cases ht : T level (n / 512) with
    | none => rw [Paging.word, Paging.word, ht, Option.map_none, Option.map_none]
    | some t =>
      rw [word_eq ht, word_eq ht]
      exact congrArg some (hsame.tables (h.isTable_iff.mpr ⟨_, ht⟩) (Nat.mod_lt n (by norm_num)))
  have huser : ∀ level n, k'.paging.UserAt T level n ↔ k.paging.UserAt T level n := by
    intro level n
    rw [Paging.UserAt, Paging.UserAt, hword]
  exact
    { h with
      toSound := hsound
      guards := ⟨hsound.toShape, fun n => (huser 0 n).trans (h.guards.page n),
        fun virt hring l hl => (huser _ _).mpr (h.guards.above virt hring l hl)⟩
      pageAt := fun n => by rw [← h.pageAt, Paging.pageAt, Paging.pageAt, hword] }

/-- **A store of the running code.** -/
lemma storeByte (h : Books F H k frames T a) {virt : ℕ} (hstore : a.Storable F H virt)
    (b : UInt8) : ∃ p, a.lookup virt = some p ∧
      k.storeByte virt b = .ok (k.withMem (Lanes.setByte k.paging.mem p b)) ∧
      Books F H (k.withMem (Lanes.setByte k.paging.mem p b)) frames T a := by
  obtain ⟨hvirt, htarget⟩ := hstore
  -- no table lies in the frame of the address
  have hlookup : ∃ p, a.lookup virt = some p ∧
      ∀ {level q t}, T level q = some t → t / physFrameSize ≠ p / physFrameSize := by
    rw [Account.lookup]
    split_ifs at htarget ⊢ with hlow
    · refine ⟨virt, rfl, fun ht heq => ?_⟩
      rcases htarget with hno | hin
      · exact hno (heq ▸ h.table_usable ht)
      · exact (h.hand_owned hin).noTable ht heq
    · obtain ⟨⟨ring, f⟩, hpage⟩ := Option.isSome_iff_exists.mp htarget
      have hframe := h.page hpage
      refine ⟨f + virt % 4096, by rw [hpage]; rfl, fun ht heq => hframe.owned.noTable ht ?_⟩
      obtain ⟨m, rfl⟩ := hframe.aligned
      rw [heq, physFrameSize]
      omega
  obtain ⟨p, hp, hno⟩ := hlookup
  refine ⟨p, hp, ?_, h.sameButMemory ⟨rfl, fun ht hindex => Lanes.setByte_of_ne fun heq => ?_⟩⟩
  · rw [Kernel.storeByte, h.translate_eq hvirt, hp]
    rfl
  · obtain ⟨q, hq⟩ := h.isTable_iff.mp ht
    have hdvd := h.toPlaced.aligned h.fresh hq
    refine hno hq ?_
    unfold physFrameSize frameSize at *
    omega

/-- **Copying bytes** to where the running code may store, within one frame. -/
lemma copyBytes : ∀ (bytes : List UInt8) (k : Kernel) (dest base : ℕ), Books F H k frames T a →
    (∀ j < bytes.length, a.Storable F H (dest + j) ∧ a.lookup (dest + j) = some (base + j)) →
    ∃ k', k.copyBytes dest bytes = .ok k' ∧ Books F H k' frames T a ∧
      k'.allocator = k.allocator ∧ ∀ x, Lanes.byteAt k'.paging.mem x =
        if base ≤ x ∧ x < base + bytes.length then bytes.getD (x - base) 0
        else Lanes.byteAt k.paging.mem x := by
  intro bytes
  induction bytes with
  | nil =>
    intro k dest base h _
    refine ⟨k, rfl, h, rfl, fun x => (if_neg ?_).symm⟩
    rw [List.length_nil]
    omega
  | cons b bytes ih =>
    intro k dest base h hplace
    obtain ⟨hstore, hbase⟩ := hplace 0 (by simp)
    obtain ⟨p, hp, hrun, h₁⟩ := h.storeByte hstore b
    obtain rfl : base = p := Option.some.inj (hbase.symm.trans hp)
    obtain ⟨k', hrun', h', hallocator, hbytes⟩ := ih _ (dest + 1) (base + 1) h₁ fun j hj => by
      have hnext := hplace (j + 1) (by simpa using hj)
      rwa [Nat.add_comm j 1, ← Nat.add_assoc, ← Nat.add_assoc] at hnext
    refine ⟨k', ?_, h', hallocator, fun x => ?_⟩
    · rw [Kernel.copyBytes]
      exact (congrArg (· >>= _) hrun).trans hrun'
    · have hset : Lanes.byteAt (k.withMem (Lanes.setByte k.paging.mem base b)).paging.mem x =
          if x = base then b else Lanes.byteAt k.paging.mem x := Lanes.byteAt_setByte
      rw [hbytes x, List.length_cons, hset]
      by_cases hx : x = base
      · subst hx
        rw [if_neg (by omega), if_pos rfl, if_pos (by omega), Nat.sub_self]
        rfl
      · rw [if_neg hx]
        by_cases hin : base + 1 ≤ x ∧ x < base + 1 + bytes.length
        · rw [if_pos hin, if_pos (by omega)]
          obtain ⟨j, rfl⟩ := Nat.exists_eq_add_of_le hin.1
          have hsub : base + 1 + j - base = j + 1 := by omega
          rw [Nat.add_sub_cancel_left, hsub, List.getD_cons_succ]
        · rw [if_neg hin, if_neg (by omega)]

end Books

/-! ## The first account -/

section First

variable {S : Finset ℕ} {mem : ℕ → ℕ} {cr3 : ℕ} {al : FrameAllocator}

/-- The answers of a set of frames in the identity map are fresh frames. -/
lemma freshFrames_answer (hlow : ∀ i ∈ S, i * physFrameSize < identityLimit) :
    FreshFrames (FrameSet.answer S) where
  aligned hf := by
    obtain ⟨i, -, rfl, -⟩ := FrameSet.answer_spec hf
    exact Nat.dvd_mul_left _ _
  low hf := by
    obtain ⟨i, hi, rfl, -⟩ := FrameSet.answer_spec hf
    exact hlow i (FrameSet.iterate_rest_subset S (Nat.zero_le _) hi)
  distinct := FrameSet.answer_inj

/-- The kernel's address space, on the frames of an allocator. -/
lemma Kernel.init_eq_ok (mem : ℕ → ℕ) (cr3 : ℕ) (hrefines : Refines al S)
    (hlow : ∀ i ∈ S, i * physFrameSize < identityLimit) (hcard : 3 ≤ S.card) :
    ∃ s₀ pml4 a', (Paging.mk mem cr3 0).buildAddressSpace (FrameSet.answer S) = .ok (s₀, pml4) ∧
      al.advance s₀.allocs = .ok a' ∧ Refines a' (FrameSet.rest^[s₀.allocs] S) ∧
      (Kernel.atBoot mem cr3 al).init = .ok ⟨s₀.writeCr3 pml4, a'⟩ := by
  have hfresh := freshFrames_answer hlow
  have hframes : (Kernel.atBoot mem cr3 al).frames = FrameSet.answer S := by
    funext n
    exact hrefines.answer_eq n
  have hanswer : ∀ n < 3, ∃ f, FrameSet.answer S n = some f := fun n hn =>
    Option.isSome_iff_exists.mp (FrameSet.answer_isSome_iff.mpr (by omega))
  obtain ⟨pml4, h0⟩ := hanswer 0 (by decide)
  obtain ⟨pdpt, h1⟩ := hanswer 1 (by decide)
  obtain ⟨pd, h2⟩ := hanswer 2 (by decide)
  obtain ⟨s₀, hbuild, -⟩ := buildAddressSpace_eq (s := ⟨mem, cr3, 0⟩) hfresh h0 h1 h2
  obtain ⟨a', hadvance, hrefines'⟩ := hrefines.advance_eq s₀.allocs
  have hinit : (Kernel.atBoot mem cr3 al).paging.init (FrameSet.answer S) =
      .ok (s₀.writeCr3 pml4) := init_eq hfresh hbuild
  have hrequests : (s₀.writeCr3 pml4).allocs - (Kernel.atBoot mem cr3 al).paging.allocs =
      s₀.allocs := Nat.sub_zero _
  have hadvance' : (Kernel.atBoot mem cr3 al).allocator.advance s₀.allocs = .ok a' := hadvance
  refine ⟨s₀, pml4, a', hbuild, hadvance, hrefines', ?_⟩
  rw [Kernel.init, Kernel.runPaging, hframes, hinit]
  simp only [Exec.bind_ok, Exec.pure_eq_ok]
  rw [hrequests, hadvance']
  rfl

/-- Without a third frame there is no address space. -/
lemma buildAddressSpace_eq_panic {s : Paging} (hf : FreshFrames frames)
    (hnone : frames (s.allocs + 2) = none) :
    s.buildAddressSpace frames = Exec.panic .assertion := by
  unfold Paging.buildAddressSpace
  cases h0 : frames s.allocs with
  | none =>
    rw [expectTable_none h0]
    rfl
  | some g0 =>
    simp only [expectTable_some hf h0, Exec.bind_ok]
    cases h1 : frames (s.allocs + 1) with
    | none =>
      rw [expectTable_none (s := s.zeroed g0) h1]
      rfl
    | some g1 =>
      simp only [expectTable_some hf (s := s.zeroed g0) h1, Exec.bind_ok]
      rw [expectTable_none (s := (s.zeroed g0).zeroed g1) hnone]
      rfl

/-- Then the kernel panics. -/
lemma Kernel.init_eq_panic (hrefines : Refines al S)
    (hlow : ∀ i ∈ S, i * physFrameSize < identityLimit) (hcard : S.card < 3) :
    (Kernel.atBoot mem cr3 al).init = Exec.panic .assertion := by
  have hframes : (Kernel.atBoot mem cr3 al).frames = FrameSet.answer S := by
    funext n
    exact hrefines.answer_eq n
  have hnone : FrameSet.answer S ((Kernel.atBoot mem cr3 al).paging.allocs + 2) = none := by
    rw [← Option.not_isSome_iff_eq_none, FrameSet.answer_isSome_iff]
    exact not_lt.mpr (Nat.le_of_lt_succ hcard)
  rw [Kernel.init, Kernel.runPaging, hframes, Paging.init,
    buildAddressSpace_eq_panic (freshFrames_answer hlow) hnone]
  rfl

/-- The account after the kernel has built its first tables. -/
def Account.first (F : Finset ℕ) : Option Account :=
  if 3 ≤ F.card then
    some ⟨FrameSet.rest^[3] F, {(3, 0), (2, 0), (1, 0)}, fun _ => none⟩
  else
    none

/-- **The first address space has an account.** -/
lemma Kernel.init_follows (mem : ℕ → ℕ) (cr3 : ℕ) (hrefines : Refines al F)
    (hlow : ∀ i ∈ F, i * physFrameSize < identityLimit) :
    Follows (Kernel.Keeps F ∅) (Kernel.atBoot mem cr3 al).init (Account.first F) := by
  rw [Account.first]
  split_ifs with hcard
  · obtain ⟨s₀, pml4, a', hbuild, hadvance, hrefines', hinit⟩ :=
      Kernel.init_eq_ok mem cr3 hrefines hlow hcard
    have hfresh := freshFrames_answer hlow
    obtain ⟨pdpt, pd, h0, h1, h2, hallocs, hshape⟩ := buildAddressSpace_first hfresh hbuild
    obtain ⟨T, hguards⟩ := Guards.first hfresh hbuild
    obtain rfl := hguards.toShape.unique hshape
    have hthree : s₀.allocs = 3 := hallocs
    have htables : ∀ {level q t}, firstTables pml4 pdpt pd level q = some t →
        ∃ n < 3, FrameSet.answer F n = some t := by
      intro level q t ht
      obtain ⟨n, hn, hf⟩ := hshape.used ht
      exact ⟨n, hthree ▸ hn, hf⟩
    -- the frames that remain
    have hsub : FrameSet.rest^[3] F ⊆ F := FrameSet.iterate_rest_subset F (Nat.zero_le 3)
    have hfuture := FrameSet.answer_add F 3
    have hcover := fun i (hi : i ∈ F) => FrameSet.mem_iterate_rest_or hi 3
    have hgone : ∀ n < 3, FrameSet.rest^[3] F ⊆ FrameSet.rest^[n + 1] F :=
      fun n hn => FrameSet.iterate_rest_subset F hn
    rw [hthree] at hrefines'
    generalize FrameSet.rest^[3] F = R at hsub hfuture hcover hgone hrefines' ⊢
    have hsound : Sound ⟨s₀.writeCr3 pml4, a'⟩ (FrameSet.answer F) (firstTables pml4 pdpt pd)
        R := by
      refine ⟨hshape, hfresh, fun n => ?_, hrefines', fun i hi => hlow i (hsub hi),
        fun ht hno => ?_⟩
      · rw [hfuture, ← hthree]
        rfl
      · obtain ⟨n, hn, hf⟩ := htables ht
        obtain ⟨i, -, rfl, hi⟩ := FrameSet.answer_spec hf
        rw [Nat.mul_div_cancel i (by decide)] at hno
        exact hi (hgone n hn hno)
    refine ⟨_, hinit, FrameSet.answer F, _, hsound, hlow, hguards, fun n => rfl,
      fun {level q} => ?_, hsub, fun ht => ?_, Finset.empty_subset F, fun hi => ?_,
      fun hpage => ?_, fun hpage => ?_, fun i hi => ?_⟩
    · simp only [firstTables, TableTree.insert, noTables, Finset.mem_insert,
        Finset.mem_singleton, Prod.mk.injEq]
      split_ifs <;> simp_all
    · obtain ⟨n, -, hf⟩ := htables ht
      obtain ⟨i, hi, rfl, -⟩ := FrameSet.answer_spec hf
      rw [Nat.mul_div_cancel i (by decide)]
      exact FrameSet.iterate_rest_subset F (Nat.zero_le n) hi
    · exact absurd hi (Finset.notMem_empty _)
    · cases hpage
    · cases hpage
    · rcases hcover i hi with hfree | ⟨j, hj, hanswer⟩
      · exact .inl hfree
      · have htable : ∃ level q, firstTables pml4 pdpt pd level q = some (i * physFrameSize) := by
          rw [← hanswer]
          interval_cases j
          · exact ⟨3, 0, h0.symm⟩
          · exact ⟨2, 0, h1.symm⟩
          · exact ⟨1, 0, h2.symm⟩
        obtain ⟨level, q, ht⟩ := htable
        exact .inr (.inr (.inl ⟨level, q, _, ht, Nat.mul_div_cancel i (by decide)⟩))
  · exact Kernel.init_eq_panic hrefines hlow (not_le.mp hcard)

end First

end ZiranOS
