import ZiranOS.Paging.Calls

/-!
# The tables are a partial map from pages to frames

A `PageMap` is what the tables are for: it takes a page to the frame it is mapped to.  A successful
mapping sets one page, a successful unmapping clears one, and nothing else changes it.  Below the
end of the identity map every address is its own.

`translate_refines` says that the tables never differ from that map, whatever the order of the calls
and however many of them fail, and what the next call returns.  A call of `map_user_page` below the
end of the identity map is a failed assertion, not an error (`mapUserPage_not_hugePage`).
-/

namespace ZiranOS

open ProgLib

/-! ## The abstract map -/

/-- The frame to which each page is mapped. -/
abbrev PageMap := ℕ → Option ℕ

namespace PagingCall

/-- The address that a call is about. -/
def virt : PagingCall → ℕ
  | mapPage virt _ _ | mapUserPage virt _ _ | unmapPage virt => virt

/-- The calls that the callers make: addresses within their ranges, and no flag but `writable`. -/
def Allowed : PagingCall → Prop
  | mapPage virt phys flags | mapUserPage virt phys flags =>
    virt < 2 ^ 48 ∧ phys < 2 ^ 52 ∧ (flags = 0 ∨ flags = writable)
  | unmapPage virt => virt < 2 ^ 48

instance : (c : PagingCall) → Decidable c.Allowed
  | mapPage virt phys flags | mapUserPage virt phys flags =>
    inferInstanceAs (Decidable (virt < 2 ^ 48 ∧ phys < 2 ^ 52 ∧ (flags = 0 ∨ flags = writable)))
  | unmapPage virt => inferInstanceAs (Decidable (virt < 2 ^ 48))

/-- The calls that `map_user_page` asserts never to see. -/
def Asserts : PagingCall → Prop
  | mapUserPage virt _ _ => virt < identityLimit
  | mapPage _ _ _ | unmapPage _ => False

end PagingCall

/-- The call did not do what it was asked to. -/
def PagingResult.Failed : PagingResult → Prop
  | .mapped (.error _) | .unmapped false => True
  | .mapped (.ok _) | .unmapped true => False

namespace PageMap

/-- The map after a call with the given result. -/
def after (pages : PageMap) : PagingCall × PagingResult → PageMap
  | (.mapPage virt phys _, .mapped (.ok _)) | (.mapUserPage virt phys _, .mapped (.ok _)) =>
    Function.update pages (virt / 4096) (some (phys / 4096 * 4096))
  | (.unmapPage virt, .unmapped true) => Function.update pages (virt / 4096) none
  | _ => pages

/-- The map after the calls of a run; at first no page is mapped. -/
def ofTrace (tr : List (Transition Paging (PagingCall × PagingResult))) : PageMap :=
  (tr.map Transition.event).foldl after fun _ => none

/-- Where the map takes an address. -/
def lookup (pages : PageMap) (virt : ℕ) : Option ℕ :=
  if virt < identityLimit then some virt else (pages (virt / 4096)).map (· + virt % 4096)

/-- What a call returns: a mapping meets a large page exactly in the identity map, and an unmapping
says whether the page was mapped. -/
def Returns (pages : PageMap) : PagingCall → PagingResult → Prop
  | .mapPage virt _ _, .mapped r | .mapUserPage virt _ _, .mapped r =>
    r = .error .hugePage ↔ virt < identityLimit
  | .unmapPage virt, .unmapped found => found = (pages (virt / 4096)).isSome
  | _, _ => False

variable {pages : PageMap} {c : PagingCall} {r : PagingResult}

/-- A call that fails leaves the map, and one that succeeds changes no page but its own. -/
lemma after_of_ne {n : ℕ} (h : r.Failed ∨ n ≠ c.virt / 4096) : pages.after (c, r) n = pages n := by
  cases c with
  | mapPage virt phys flags | mapUserPage virt phys flags =>
    match r with
    | .mapped (.ok _) => exact Function.update_of_ne (h.resolve_left id) _ _
    | .mapped (.error _) => rfl
    | .unmapped _ => rfl
  | unmapPage virt =>
    match r with
    | .mapped _ => rfl
    | .unmapped true => exact Function.update_of_ne (h.resolve_left id) _ _
    | .unmapped false => rfl

end PageMap

/-! ## The tables refine the map -/

namespace Paging

variable {frames : ℕ → Option ℕ} {s s' : Paging} {pages : PageMap}

/-- One call with its result. -/
def Steps (frames : ℕ → Option ℕ) (s : Paging) (x : PagingCall × PagingResult) (s' : Paging) :
    Prop :=
  x.1.Allowed ∧ s.call frames x.1 = .ok (s', x.2)

/-- The tables hold the given map. -/
def Holds (frames : ℕ → Option ℕ) (s : Paging) (pages : PageMap) : Prop :=
  ∃ T, Shape frames s T ∧ ∀ n, s.pageAt T n = pages n

/-- Tables that hold a map translate by it. -/
lemma Holds.translate_eq (h : Holds frames s pages) (hf : FreshFrames frames) {virt : ℕ}
    (hvirt : virt < 2 ^ 48) : s.translate virt = .ok (pages.lookup virt) := by
  obtain ⟨T, hshape, hpages⟩ := h
  rw [ZiranOS.translate_eq hshape hf hvirt, target, hpages, PageMap.lookup]

/-- The first address space holds the empty map. -/
lemma holds_empty (hf : FreshFrames frames) {pml4 : ℕ}
    (hb : s.buildAddressSpace frames = .ok (s', pml4)) :
    Holds frames (s'.writeCr3 pml4) fun _ => none :=
  buildAddressSpace_shape hf hb

/-- A call that maps a page. -/
lemma Holds.mapInner (h : Holds frames s pages) (hf : FreshFrames frames) {virt phys flags : ℕ}
    (hc : (PagingCall.mapPage virt phys flags).Allowed) (userPage : Bool) :
    ∃ s' r, s.mapInner frames virt phys flags userPage = .ok (s', r) ∧
      (r = .error .hugePage ↔ virt < identityLimit) ∧
      Holds frames s' (pages.after (.mapPage virt phys flags, .mapped r)) := by
  obtain ⟨T, hshape, hpages⟩ := h
  obtain ⟨hvirt, hphys, hflags⟩ := hc
  obtain ⟨s', T', r, hrun, hm, -⟩ :=
    mapInner_eq hshape hf hvirt (lt_trans hphys (by norm_num)) flags userPage
  refine ⟨s', r, hrun, hm.hugePage_iff hf hshape, T', hm.shape hf hshape, fun n => ?_⟩
  rw [hm.pageAt_eq hf hshape, hpages, leafPage_leafEntry hphys hflags]
  cases r with
  | error e => exact if_neg (by simp)
  | ok _ =>
    rw [PageMap.after, Function.update_apply]
    exact if_congr (by simp) rfl rfl

/-- **A call refines the map.**  Unless the call is one that `map_user_page` asserts never to see,
it returns what the map says, and the tables hold the map after the call. -/
lemma Holds.call (h : Holds frames s pages) (hf : FreshFrames frames) {c : PagingCall}
    (hc : c.Allowed) (hassert : ¬ c.Asserts) :
    ∃ s' r, s.call frames c = .ok (s', r) ∧ pages.Returns c r ∧
      Holds frames s' (pages.after (c, r)) := by
  cases c with
  | mapPage virt phys flags =>
    obtain ⟨s', r, hrun, hhuge, hholds⟩ := h.mapInner hf hc false
    refine ⟨s', .mapped r, ?_, hhuge, hholds⟩
    rw [Paging.call, mapPage, hrun, Exec.bind_ok]
    rfl
  | mapUserPage virt phys flags =>
    obtain ⟨s', r, hrun, hhuge, hholds⟩ := h.mapInner hf hc true
    refine ⟨s', .mapped r, ?_, hhuge, ?_⟩
    · rw [Paging.call, mapUserPage, if_pos (not_lt.mp hassert), hrun, Exec.bind_ok]
      rfl
    · cases r <;> exact hholds
  | unmapPage virt =>
    obtain ⟨T, hshape, hpages⟩ := h
    obtain ⟨s', hrun, hshape', hpages', -⟩ := unmapPage_eq hshape hf hc
    rw [hpages] at hrun
    refine ⟨s', .unmapped (pages (virt / 4096)).isSome, ?_, rfl, T, hshape', fun n => ?_⟩
    · rw [Paging.call, hrun, Exec.bind_ok]
      rfl
    · rw [hpages', hpages]
      cases hpage : pages (virt / 4096) with
      | some f =>
        rw [Option.isSome_some, PageMap.after, Function.update_apply]
      | none =>
        rw [Option.isSome_none]
        split_ifs with hn
        · rw [hn]
          exact hpage.symm
        · rfl

/-- A call that `map_user_page` asserts never to see is a failed assertion. -/
lemma call_of_asserts {c : PagingCall} (hassert : c.Asserts) :
    s.call frames c = Exec.panic .assertion := by
  cases c with
  | mapUserPage virt phys flags =>
    rw [call, mapUserPage, if_neg (not_le.mpr hassert), Exec.bind_panic]
  | mapPage | unmapPage => exact absurd hassert id

/-- A step keeps the tables and the map together. -/
lemma Holds.step (hf : FreshFrames frames) (x : PagingCall × PagingResult)
    (h : Holds frames s pages) (hstep : Steps frames s x s') :
    Holds frames s' (pages.after x) := by
  obtain ⟨c, r⟩ := x
  obtain ⟨hc, hrun⟩ := hstep
  have hassert : ¬ c.Asserts := by
    intro hassert
    rw [call_of_asserts hassert] at hrun
    cases hrun
  obtain ⟨s₁, r₁, hrun₁, -, hholds⟩ := h.call hf hc hassert
  obtain ⟨rfl, rfl⟩ := Prod.mk.inj (Except.ok.inj (hrun₁.symm.trans hrun))
  exact hholds

end Paging

/-- **The tables are a partial map from pages to frames.**  After every run of calls on the first
address space, each address below 2^48 translates to itself in the identity map, and elsewhere to
the frame of the last mapping of its page that succeeded and was not undone since, if there is one.
The next call is a failed assertion exactly where `map_user_page` asserts so; otherwise it returns,
a mapping meets a large page exactly in the identity map, an unmapping succeeds exactly on a mapped
page, and no address of another page, or of any page if the call fails, translates differently. -/
theorem translate_refines (frames : ℕ → Option ℕ) (hf : FreshFrames frames) (boot s₀ s : Paging)
    (pml4 : ℕ) (hb : boot.buildAddressSpace frames = .ok (s₀, pml4))
    (tr : List (Transition Paging (PagingCall × PagingResult)))
    (hrun : Run (Paging.Steps frames) (s₀.writeCr3 pml4) tr s) :
    (∀ virt < 2 ^ 48, s.translate virt = .ok ((PageMap.ofTrace tr).lookup virt)) ∧
      ∀ c : PagingCall, c.Allowed →
        (c.Asserts → s.call frames c = Exec.panic .assertion) ∧
        (¬ c.Asserts → ∃ s' r, s.call frames c = .ok (s', r) ∧
          (PageMap.ofTrace tr).Returns c r ∧
          (∀ virt < 2 ^ 48, s'.translate virt =
            .ok (((PageMap.ofTrace tr).after (c, r)).lookup virt)) ∧
          ∀ virt < 2 ^ 48, r.Failed ∨ virt / 4096 ≠ c.virt / 4096 →
            s'.translate virt = s.translate virt) := by
  have hholds : Paging.Holds frames s (PageMap.ofTrace tr) :=
    hrun.simulates (fun s e t pages h hstep => h.step hf e hstep) (Paging.holds_empty hf hb)
  have htranslate : ∀ virt < 2 ^ 48, s.translate virt =
      .ok ((PageMap.ofTrace tr).lookup virt) := fun virt hvirt => hholds.translate_eq hf hvirt
  refine ⟨htranslate, fun c hc => ⟨Paging.call_of_asserts, fun hassert => ?_⟩⟩
  obtain ⟨s', r, hcall, hreturns, hholds'⟩ := hholds.call hf hc hassert
  refine ⟨s', r, hcall, hreturns, fun virt hvirt => hholds'.translate_eq hf hvirt, ?_⟩
  intro virt hvirt hother
  rw [hholds'.translate_eq hf hvirt, htranslate virt hvirt, PageMap.lookup, PageMap.lookup,
    PageMap.after_of_ne hother]

/-! ## A sample machine -/

/-- All frames of the identity map but the first, in order. -/
def sampleFrames (k : ℕ) : Option ℕ := if k < 2 ^ 18 - 1 then some (4096 * (k + 1)) else none

/-- The frames of the sample machine are fresh. -/
lemma freshFrames_sampleFrames : FreshFrames sampleFrames where
  aligned := by
    intro k f hf
    unfold sampleFrames at hf
    split_ifs at hf
    exact ⟨k + 1, (Option.some.inj hf).symm⟩
  low := by
    intro k f hf
    have h30 := identityLimit_eq
    unfold sampleFrames at hf
    split_ifs at hf
    have := Option.some.inj hf
    omega
  distinct := by
    intro k k' f hf hf'
    rw [sampleFrames] at hf hf'
    split_ifs at hf hf'
    have h := Option.some.inj hf
    have h' := Option.some.inj hf'
    omega

/-- The sample machine before paging: memory is zero and no frame is taken. -/
def sampleBoot : Paging := ⟨fun _ => 0, 0, 0⟩

/-- The address space of the sample machine exists. -/
lemma sampleBoot_build : ∃ s₀, sampleBoot.buildAddressSpace sampleFrames = .ok (s₀, 0x1000) := by
  have hpml4 : sampleFrames sampleBoot.allocs = some 0x1000 := rfl
  have hpdpt : sampleFrames (sampleBoot.allocs + 1) = some 0x2000 := rfl
  have hpd : sampleFrames (sampleBoot.allocs + 2) = some 0x3000 := rfl
  obtain ⟨s₀, hb, -⟩ := buildAddressSpace_eq freshFrames_sampleFrames hpml4 hpdpt hpd
  exact ⟨s₀, hb⟩

/-- On the sample machine the page at 1 GiB is unmapped until it is mapped to the frame 0x5000. -/
theorem translate_refines_sampleBoot :
    ∃ s₀ s', sampleBoot.buildAddressSpace sampleFrames = .ok (s₀, 0x1000) ∧
      (s₀.writeCr3 0x1000).translate 0x40000123 = .ok none ∧
      (s₀.writeCr3 0x1000).call sampleFrames (.mapPage 0x40000000 0x5000 writable) =
        .ok (s', .mapped (.ok ())) ∧
      s'.translate 0x40000123 = .ok (some 0x5123) := by
  obtain ⟨s₀, hb⟩ := sampleBoot_build
  obtain ⟨htranslate, hcalls⟩ := translate_refines sampleFrames freshFrames_sampleFrames sampleBoot
    s₀ _ 0x1000 hb [] (.nil _)
  obtain ⟨s', r, hcall, -, htranslate', -⟩ :=
    (hcalls (.mapPage 0x40000000 0x5000 writable) (by decide)).2 id
  have hresult : (do
      let x ← sampleBoot.buildAddressSpace sampleFrames
      let y ← (x.1.writeCr3 x.2).call sampleFrames (.mapPage 0x40000000 0x5000 writable)
      pure y.2) = .ok (.mapped (.ok ())) := by decide +kernel
  simp only [hb, hcall, Exec.bind_ok, Exec.pure_eq_ok] at hresult
  obtain rfl := Except.ok.inj hresult
  exact ⟨s₀, s', hb, htranslate _ (by norm_num), hcall, htranslate' _ (by norm_num)⟩

/-- A mapping for ring 3 below the end of the identity map is a failed assertion, not an error. -/
theorem mapUserPage_not_hugePage : ¬ ∀ frames, FreshFrames frames → ∀ boot s₀ s pml4 tr,
    Paging.buildAddressSpace frames boot = .ok (s₀, pml4) →
    Run (Paging.Steps frames) (s₀.writeCr3 pml4) tr s →
    ∀ virt phys flags, (PagingCall.mapUserPage virt phys flags).Allowed →
      ∃ s' r, s.call frames (.mapUserPage virt phys flags) = .ok (s', .mapped r) ∧
        (r = .error .hugePage ↔ virt < identityLimit) := by
  intro h
  obtain ⟨s₀, hb⟩ := sampleBoot_build
  have hallowed : (PagingCall.mapUserPage 0 0x5000 writable).Allowed := by decide
  obtain ⟨s', r, hcall, -⟩ := h sampleFrames freshFrames_sampleFrames sampleBoot s₀ _ 0x1000 [] hb
    (.nil _) 0 0x5000 writable hallowed
  have hassert : (PagingCall.mapUserPage 0 0x5000 writable).Asserts :=
    show 0 < identityLimit by decide
  rw [Paging.call_of_asserts hassert] at hcall
  cases hcall

end ZiranOS
