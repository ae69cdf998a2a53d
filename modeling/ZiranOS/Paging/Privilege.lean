import ZiranOS.Paging.Refinement
import ZiranOS.Paging.Access

/-!
# Privilege isolation of the address space

A `RingMap` says for whom each page is mapped.  Opening the entries above a page mapped for ring 3
is never undone, and those entries are shared with pages of the kernel; what keeps the kernel's
pages out of reach is the entry of the page itself.  `Guards` is the invariant that says so: the
entry of a page is open to ring 3 exactly if the page is mapped for ring 3, and the entries above
such a page are all open.
-/

namespace ZiranOS

open ProgLib

/-! ## For whom a page is mapped -/

/-- The privilege level for which a page is mapped. -/
inductive Ring where
  | kernel
  | user
  deriving DecidableEq, Repr

/-- For whom each page is mapped. -/
abbrev RingMap := ℕ → Option Ring

namespace RingMap

/-- The map after a call with the given result. -/
def after (rings : RingMap) : PagingCall × PagingResult → RingMap
  | (.mapPage virt _ _, .mapped (.ok _)) => Function.update rings (virt / 4096) (some .kernel)
  | (.mapUserPage virt _ _, .mapped (.ok _)) => Function.update rings (virt / 4096) (some .user)
  | (.unmapPage virt, .unmapped true) => Function.update rings (virt / 4096) none
  | _ => rings

/-- The map after the calls of a run; at first no page is mapped. -/
def ofTrace (tr : List (Transition Paging (PagingCall × PagingResult))) : RingMap :=
  (tr.map Transition.event).foldl after fun _ => none

end RingMap

/-- The calls that the callers make: addresses of the lower half, user pages above the identity map,
and no flag but `writable`. -/
def PagingCall.Guarded : PagingCall → Prop
  | mapPage virt phys flags => virt < 2 ^ 47 ∧ phys < 2 ^ 64 ∧ (flags = 0 ∨ flags = writable)
  | mapUserPage virt phys flags =>
    identityLimit ≤ virt ∧ virt < 2 ^ 47 ∧ phys < 2 ^ 64 ∧ (flags = 0 ∨ flags = writable)
  | unmapPage virt => virt < 2 ^ 47

instance : (c : PagingCall) → Decidable c.Guarded
  | .mapPage virt phys flags =>
    inferInstanceAs (Decidable (virt < 2 ^ 47 ∧ phys < 2 ^ 64 ∧ (flags = 0 ∨ flags = writable)))
  | .mapUserPage virt phys flags => inferInstanceAs (Decidable
      (identityLimit ≤ virt ∧ virt < 2 ^ 47 ∧ phys < 2 ^ 64 ∧ (flags = 0 ∨ flags = writable)))
  | .unmapPage virt => inferInstanceAs (Decidable (virt < 2 ^ 47))

/-! ## The invariant -/

/-- The entry of a page is open to ring 3 exactly if the page is mapped for ring 3, and then so are
the entries above it. -/
structure Guards (frames : ℕ → Option ℕ) (s : Paging) (T : TableTree) (rings : RingMap) : Prop
    extends Shape frames s T where
  /-- The entry of a page is open exactly if the page is mapped for ring 3. -/
  page : ∀ n, s.UserAt T 0 n ↔ rings n = some .user
  /-- Above a page mapped for ring 3 every entry is open. -/
  above : ∀ virt, rings (virt / 4096) = some .user → s.OpenTo T virt 3

variable {frames : ℕ → Option ℕ} {s s' : Paging} {T T' : TableTree} {rings : RingMap}

namespace Guards

/-- A page under a missing page table is not mapped for ring 3. -/
lemma ne_user (h : Guards frames s T rings) {virt : ℕ} (hnone : T 0 (slot virt 1) = none) :
    rings (virt / 4096) ≠ some .user := by
  intro huser
  rw [slot_succ, slot_zero] at hnone
  exact not_userAt_of_none hnone ((h.page _).mpr huser)

/-- No page of the identity map is mapped for ring 3. -/
lemma identity (h : Guards frames s T rings) {virt : ℕ} (hlt : virt < identityLimit) :
    rings (virt / 4096) ≠ some .user :=
  h.ne_user (h.noTable (slot_of_lt.mpr hlt))

/-- **The walk finds a page accessible exactly if it is mapped for ring 3.** -/
lemma userLevels_eq (h : Guards frames s T rings) (hf : FreshFrames frames) (virt : ℕ) :
    ∀ level t, level ≤ 3 → T level (slot virt (level + 1)) = some t →
      s.userLevels virt level t = .ok (decide (rings (virt / 4096) = some .user)) := by
  intro level
  induction level with
  | zero =>
    intro t _ ht
    have hpage := h.page (virt / 4096)
    rw [slot_succ, slot_zero] at ht
    rw [Paging.UserAt, word_eq ht] at hpage
    rw [Paging.userLevels, readEntry_eq h.toShape hf ht, tableIndex_eq, slot_zero, Exec.bind_ok]
    refine congrArg Except.ok (decide_eq_decide.mpr (Iff.trans ?_ hpage))
    simp [UserEntry]
  | succ level ih =>
    intro t hle ht
    rw [Paging.userLevels, readEntry_eq h.toShape hf ht, Exec.bind_ok]
    by_cases hdir : level ≠ 0 ∨ identityLimit ≤ virt
    · have hpoints := h.points ht hdir
      cases hchild : T level (slot virt (level + 1)) with
      | none =>
        rw [hchild, points_none] at hpoints
        rw [if_pos (Or.inl hpoints), decide_eq_false (h.ne_user (h.absent_below virt level
          (by omega) hchild))]
        rfl
      | some g =>
        rw [hchild, points_some] at hpoints
        obtain ⟨hp, hh, ha⟩ := hpoints
        split_ifs with hclosed hhuge
        · -- a closed entry has no page for ring 3 under it
          have hne : rings (virt / 4096) ≠ some .user := by
            intro huser
            obtain ⟨entry, hentry, -, hopen⟩ := h.above virt huser level (by omega)
            rw [slot_succ] at ht
            obtain rfl := Option.some.inj ((word_eq ht).symm.trans hentry)
            rw [← tableIndex_eq] at hopen
            exact hopen (hclosed.resolve_left hp)
          rw [decide_eq_false hne]
          rfl
        · exact absurd hh hhuge.2
        · rw [ha]
          exact ih g (by omega) hchild
    · -- the large pages of the identity map are closed
      obtain ⟨rfl, hlt⟩ : level = 0 ∧ virt < identityLimit := by omega
      rw [h.mem_directory ht hlt, if_pos (Or.inr (identityEntry_user _)),
        decide_eq_false (h.identity hlt)]
      rfl

/-- The check of a page says whether it is mapped for ring 3. -/
lemma pageUserAccessible_eq (h : Guards frames s T rings) (hf : FreshFrames frames) {virt : ℕ}
    (hvirt : virt < 2 ^ 48) :
    s.pageUserAccessible virt = .ok (decide (rings (virt / 4096) = some .user)) :=
  h.userLevels_eq hf virt 3 _ le_rfl (h.root_slot hvirt)

/-! ## Steps that keep the invariant -/

/-- A walk keeps the invariant. -/
lemma of_grows (h : Guards frames s T rings) (hf : FreshFrames frames) {userPage : Bool}
    (hgrows : Relation.ReflTransGen (Grow frames userPage) (s, T) (s', T')) :
    Guards frames s' T' rings where
  toShape := shape_of_grows hgrows hf h.toShape
  page n := (userAt_page_of_grows hgrows hf h.toShape n).trans (h.page n)
  above virt huser l hl := userAt_of_grows hgrows hf h.toShape (h.above virt huser l hl)

/-- A write to the entry of a page keeps the invariant if the entry is open exactly for a page of
ring 3, and below open entries only. -/
lemma setWord (h : Guards frames s T rings) (hf : FreshFrames frames) {virt t w : ℕ}
    (ht : T 0 (virt / 4096 / 512) = some t) {ring : Option Ring}
    (hw : UserEntry w ↔ ring = some .user) (hopen : ring = some .user → s.OpenTo T virt 3) :
    Guards frames (s.setWord t (virt / 4096 % 512) w) T
      (Function.update rings (virt / 4096) ring) where
  toShape := h.toShape.setWord hf ht (fun l hl => by omega)
  page := by
    intro n
    rw [userAt_setWord h.toPlaced hf ht, Function.update_apply]
    split_ifs with h₁ h₂ h₂
    · exact hw
    · exact absurd h₁.2 h₂
    · exact absurd ⟨rfl, h₂⟩ h₁
    · exact h.page n
  above := by
    intro virt₁ huser l hl
    rw [userAt_setWord h.toPlaced hf ht, if_neg (by omega)]
    rw [Function.update_apply] at huser
    split_ifs at huser with hpage
    · rw [← slot_page, hpage, slot_page]
      exact hopen huser l hl
    · exact h.above virt₁ huser l hl

/-- The entry that a call writes for a page is open exactly if the page is for ring 3. -/
lemma userEntry_leafEntry {phys flags : ℕ} (hflags : flags = 0 ∨ flags = writable)
    (userPage : Bool) : UserEntry (leafEntry phys flags userPage) ↔ userPage = true := by
  have hdvd : frameSize ∣ phys / 4096 * 4096 := ⟨phys / 4096, by rw [frameSize]; ring⟩
  have hlow : (flags ||| present ||| if userPage then user else 0) < frameSize := by
    rcases hflags with rfl | rfl <;> cases userPage <;> decide
  unfold UserEntry
  rw [leafEntry, Nat.or_assoc, Nat.or_assoc, ← Nat.or_assoc flags,
    entry_and hdvd hlow (by decide), entry_and hdvd hlow (by decide)]
  rcases hflags with rfl | rfl <;> cases userPage <;> decide

/-- A call that maps a page. -/
lemma mapInner (h : Guards frames s T rings) (hf : FreshFrames frames) {virt phys flags : ℕ}
    (hvirt : virt < 2 ^ 47) (hphys : phys < 2 ^ 64) (hflags : flags = 0 ∨ flags = writable)
    (userPage : Bool) (ring : Option Ring) (hring : userPage = true ↔ ring = some .user) :
    ∃ s' T' r, s.mapInner frames virt phys flags userPage = .ok (s', r) ∧
      (∀ e, r = .error e → Guards frames s' T' rings) ∧
      (r = .ok () → Guards frames s' T' (Function.update rings (virt / 4096) ring)) := by
  obtain ⟨s', T', r, hrun, hm, hopen⟩ :=
    mapInner_eq h.toShape hf (lt_trans hvirt (by norm_num)) hphys flags userPage
  refine ⟨s', T', r, hrun, ?_, ?_⟩
  · rintro e rfl
    cases hm with
    | failed hgrows _ => exact h.of_grows hf hgrows
  · rintro rfl
    cases hm with
    | @done s₁ T' t hgrows ht =>
      have hg := h.of_grows hf hgrows
      refine hg.setWord hf ht ((userEntry_leafEntry hflags userPage).trans hring) fun huser => ?_
      intro l hl
      have := hopen (hring.mpr huser) rfl l hl
      rwa [userAt_setWord hg.toPlaced hf ht, if_neg (by omega)] at this

/-- A call that unmaps a page. -/
lemma unmapPage (h : Guards frames s T rings) (hf : FreshFrames frames) {virt : ℕ}
    (hvirt : virt < 2 ^ 48) :
    ∃ s' r, s.unmapPage virt = .ok (s', r) ∧
      Guards frames s' T (rings.after (.unmapPage virt, .unmapped r)) := by
  obtain ⟨s', hrun, hshape, -, hopen⟩ := unmapPage_eq h.toShape hf hvirt
  refine ⟨s', (s.pageAt T (virt / 4096)).isSome, hrun, ?_⟩
  cases hpage : s.pageAt T (virt / 4096) with
  | none =>
    -- the page was not mapped, for ring 3 in particular
    have hne : ¬ s.UserAt T 0 (virt / 4096) := by
      rintro ⟨entry, hentry, hp, -⟩
      rw [Paging.pageAt, hentry, Option.bind_some, Paging.leafPage, if_neg hp] at hpage
      cases hpage
    refine ⟨hshape, fun n => ?_, fun virt₁ huser l hl => ?_⟩
    · rw [hopen]
      refine Iff.trans ⟨And.left, fun hu => ⟨hu, ?_⟩⟩ (h.page n)
      rintro ⟨-, rfl⟩
      exact hne hu
    · exact (hopen _ _).mpr ⟨h.above virt₁ huser l hl, by omega⟩
  | some f =>
    refine ⟨hshape, fun n => ?_, fun virt₁ huser l hl => ?_⟩
    · rw [hopen, h.page, Option.isSome_some, RingMap.after, Function.update_apply]
      split_ifs with hn <;> simp [hn]
    · rw [Option.isSome_some, RingMap.after, Function.update_apply] at huser
      split_ifs at huser
      exact (hopen _ _).mpr ⟨h.above virt₁ huser l hl, by omega⟩

/-- **A call keeps the invariant**, and it returns. -/
lemma call (h : Guards frames s T rings) (hf : FreshFrames frames) {c : PagingCall}
    (hc : c.Guarded) :
    ∃ s' T' r, s.call frames c = .ok (s', r) ∧ Guards frames s' T' (rings.after (c, r)) := by
  cases c with
  | mapPage virt phys flags =>
    obtain ⟨hvirt, hphys, hflags⟩ := hc
    obtain ⟨s', T', r, hrun, herr, hok⟩ :=
      h.mapInner hf hvirt hphys hflags false (some .kernel) (by simp)
    refine ⟨s', T', .mapped r, ?_, ?_⟩
    · rw [Paging.call, Paging.mapPage, hrun, Exec.bind_ok]
      rfl
    · cases r with
      | error e => exact herr e rfl
      | ok _ => exact hok rfl
  | mapUserPage virt phys flags =>
    obtain ⟨hlow, hvirt, hphys, hflags⟩ := hc
    obtain ⟨s', T', r, hrun, herr, hok⟩ :=
      h.mapInner hf hvirt hphys hflags true (some .user) (by simp)
    refine ⟨s', T', .mapped r, ?_, ?_⟩
    · rw [Paging.call, Paging.mapUserPage, if_pos hlow, hrun, Exec.bind_ok]
      rfl
    · cases r with
      | error e => exact herr e rfl
      | ok _ => exact hok rfl
  | unmapPage virt =>
    obtain ⟨s', r, hrun, h'⟩ := h.unmapPage hf (lt_trans hc (by norm_num))
    refine ⟨s', T, .unmapped r, ?_, h'⟩
    rw [Paging.call, hrun, Exec.bind_ok]
    rfl

/-- The first address space has no page for ring 3. -/
lemma first (hf : FreshFrames frames) {pml4 : ℕ}
    (hb : s.buildAddressSpace frames = .ok (s', pml4)) :
    ∃ T, Guards frames (s'.writeCr3 pml4) T fun _ => none := by
  obtain ⟨T, hshape, hnone⟩ := buildAddressSpace_shape hf hb
  refine ⟨T, hshape, fun n => iff_of_false ?_ (by simp), fun virt huser => nomatch huser⟩
  rintro ⟨entry, hentry, hp, -⟩
  have hpage := hnone n
  rw [Paging.pageAt, hentry, Option.bind_some, Paging.leafPage, if_neg hp] at hpage
  cases hpage

end Guards

namespace Paging

/-- One call of the callers, with its result. -/
def GuardedSteps (frames : ℕ → Option ℕ) (s : Paging) (x : PagingCall × PagingResult)
    (s' : Paging) : Prop :=
  x.1.Guarded ∧ s.call frames x.1 = .ok (s', x.2)

/-- The tables guard the pages of a map. -/
def Guarded (frames : ℕ → Option ℕ) (s : Paging) (rings : RingMap) : Prop :=
  ∃ T, Guards frames s T rings

/-- A step keeps the pages guarded. -/
lemma Guarded.step (hf : FreshFrames frames) (x : PagingCall × PagingResult)
    (h : Guarded frames s rings) (hstep : GuardedSteps frames s x s') :
    Guarded frames s' (rings.after x) := by
  obtain ⟨T, hguards⟩ := h
  obtain ⟨hc, hrun⟩ := hstep
  obtain ⟨s₁, T₁, r, hrun₁, hguards'⟩ := hguards.call hf hc
  obtain ⟨rfl, hr⟩ := Prod.mk.inj (Except.ok.inj (hrun₁.symm.trans hrun))
  exact ⟨T₁, by rwa [hr] at hguards'⟩

end Paging

/-- **Privilege isolation.**  After every run of calls on the first address space, whatever they
returned, the check of a range of addresses ends, and it accepts exactly the empty ranges and the
ranges of the lower half of which every page was last mapped for ring 3.  A page of the identity
map, and a page that was last mapped for the kernel, is never accessible.  Every further call
returns. -/
theorem userRangeOk_iff (frames : ℕ → Option ℕ) (hf : FreshFrames frames) (boot s₀ s : Paging)
    (pml4 : ℕ) (hb : boot.buildAddressSpace frames = .ok (s₀, pml4))
    (tr : List (Transition Paging (PagingCall × PagingResult)))
    (hrun : Run (Paging.GuardedSteps frames) (s₀.writeCr3 pml4) tr s) :
    (∀ uaddr < 2 ^ 64, ∀ len < 2 ^ 64, ∀ fuel ≥ 2 ^ 35, ∃ ok,
      s.userRangeOk fuel uaddr len = .ok ok ∧
        (ok = true ↔ len = 0 ∨ uaddr + len < 2 ^ 64 ∧ uaddr + len ≤ 2 ^ 47 ∧
          ∀ n, uaddr / 4096 ≤ n → n ≤ (uaddr + len - 1) / 4096 →
            RingMap.ofTrace tr n = some .user)) ∧
      (∀ virt < 2 ^ 48, virt < identityLimit ∨ RingMap.ofTrace tr (virt / 4096) = some .kernel →
        s.pageUserAccessible virt = .ok false) ∧
      ∀ c : PagingCall, c.Guarded → ∃ s' r, s.call frames c = .ok (s', r) := by
  obtain ⟨T, hguards⟩ : Paging.Guarded frames s (RingMap.ofTrace tr) :=
    hrun.simulates (fun s e t rings h hstep => h.step hf e hstep) (Guards.first hf hb)
  refine ⟨fun uaddr haddr len _ fuel hfuel => ?_, fun virt hvirt hkernel => ?_, fun c hc => ?_⟩
  · refine userRangeOk_eq (fun n => RingMap.ofTrace tr n = some .user)
      (fun n hn => ?_) haddr (Or.inr hfuel)
    refine ⟨_, hguards.pageUserAccessible_eq hf (by omega), ?_⟩
    rw [Nat.mul_div_cancel n (by norm_num)]
    exact decide_eq_true_iff
  · have hne : RingMap.ofTrace tr (virt / 4096) ≠ some .user := by
      rcases hkernel with hlt | hk
      · exact hguards.identity hlt
      · simp [hk]
    rw [hguards.pageUserAccessible_eq hf hvirt, decide_eq_false hne]
  · obtain ⟨s', _, r, hcall, -⟩ := hguards.call hf hc
    exact ⟨s', r, hcall⟩

/-- Two neighbouring pages are mapped on the sample machine, the upper one for the kernel only. -/
def sampleCalls : List (PagingCall × PagingResult) :=
  [(.mapPage 0x40001000 0x6000 writable, .mapped (.ok ())),
    (.mapUserPage 0x40000000 0x5000 0, .mapped (.ok ()))]

/-- On the sample machine a page mapped for ring 3 can be read by it, and one mapped for the kernel
next to it, under the same entries, cannot. -/
theorem userRangeOk_iff_sampleBoot :
    ∃ s₀ s₁ s₂, sampleBoot.buildAddressSpace sampleFrames = .ok (s₀, 0x1000) ∧
      (s₀.writeCr3 0x1000).call sampleFrames (.mapPage 0x40001000 0x6000 writable) =
        .ok (s₁, .mapped (.ok ())) ∧
      s₁.call sampleFrames (.mapUserPage 0x40000000 0x5000 0) = .ok (s₂, .mapped (.ok ())) ∧
      s₂.userRangeOk (2 ^ 35) 0x40000123 16 = .ok true ∧
      s₂.userRangeOk (2 ^ 35) 0x40000ff8 16 = .ok false ∧
      s₂.pageUserAccessible 0xb8000 = .ok false := by
  obtain ⟨s₀, hb⟩ := sampleBoot_build
  have hfresh := freshFrames_sampleFrames
  have hguarded₁ : (PagingCall.mapPage 0x40001000 0x6000 writable).Guarded := by decide
  have hguarded₂ : (PagingCall.mapUserPage 0x40000000 0x5000 0).Guarded := by decide
  obtain ⟨-, -, hcalls⟩ := userRangeOk_iff sampleFrames hfresh sampleBoot s₀ _ 0x1000 hb [] (.nil _)
  obtain ⟨s₁, r₁, hcall₁⟩ := hcalls _ hguarded₁
  have hrun₁ : Run (Paging.GuardedSteps sampleFrames) (s₀.writeCr3 0x1000)
      [⟨_, (.mapPage 0x40001000 0x6000 writable, r₁), s₁⟩] s₁ := .cons ⟨hguarded₁, hcall₁⟩ (.nil _)
  obtain ⟨-, -, hcalls₁⟩ :=
    userRangeOk_iff sampleFrames hfresh sampleBoot s₀ _ 0x1000 hb _ hrun₁
  obtain ⟨s₂, r₂, hcall₂⟩ := hcalls₁ _ hguarded₂
  have hresults : (do
      let x ← sampleBoot.buildAddressSpace sampleFrames
      let y ← (x.1.writeCr3 x.2).call sampleFrames (.mapPage 0x40001000 0x6000 writable)
      let z ← y.1.call sampleFrames (.mapUserPage 0x40000000 0x5000 0)
      pure (y.2, z.2)) = .ok (.mapped (.ok ()), .mapped (.ok ())) := by decide +kernel
  simp only [hb, hcall₁, hcall₂, Exec.bind_ok, Exec.pure_eq_ok] at hresults
  obtain ⟨rfl, rfl⟩ := Prod.mk.inj (Except.ok.inj hresults)
  have hrun₂ : Run (Paging.GuardedSteps sampleFrames) (s₀.writeCr3 0x1000)
      [⟨_, (.mapPage 0x40001000 0x6000 writable, .mapped (.ok ())), s₁⟩,
        ⟨_, (.mapUserPage 0x40000000 0x5000 0, .mapped (.ok ())), s₂⟩] s₂ :=
    .cons ⟨hguarded₁, hcall₁⟩ (.cons ⟨hguarded₂, hcall₂⟩ (.nil _))
  have huser : sampleCalls.foldl RingMap.after (fun _ => none) 0x40000 = some .user := by decide
  have hnext : sampleCalls.foldl RingMap.after (fun _ => none) 0x40001 ≠ some .user := by decide
  obtain ⟨hrange, hkernel, -⟩ :=
    userRangeOk_iff sampleFrames hfresh sampleBoot s₀ _ 0x1000 hb _ hrun₂
  obtain ⟨b, hb₁, hiff⟩ := hrange 0x40000123 (by norm_num) 16 (by norm_num) _ le_rfl
  obtain ⟨b', hb₂, hiff'⟩ := hrange 0x40000ff8 (by norm_num) 16 (by norm_num) _ le_rfl
  refine ⟨s₀, s₁, s₂, hb, hcall₁, hcall₂, ?_, ?_, hkernel _ (by norm_num) (Or.inl (by decide))⟩
  · rw [hb₁, hiff.mpr (Or.inr ⟨by norm_num, by norm_num, fun n hn hn' => ?_⟩)]
    obtain rfl : n = 0x40000 := by omega
    exact huser
  · rw [hb₂]
    refine congrArg Except.ok (Bool.eq_false_iff.mpr fun hok => ?_)
    obtain h | ⟨-, -, hall⟩ := hiff'.mp hok
    · exact absurd h (by norm_num)
    · exact hnext (hall 0x40001 (by norm_num) (by norm_num))

end ZiranOS
