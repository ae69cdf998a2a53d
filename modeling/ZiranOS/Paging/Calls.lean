import ZiranOS.Paging.Build

/-!
# Calls that map and unmap pages

What a call does to the tables, said once: a call that maps a page walks down and, unless the walk
ends with an error, writes one entry of a page table (`mapInner_eq`); a call that unmaps a page
clears such an entry if it is present (`unmapPage_eq`).  The effect on the translation of pages
follows from that.
-/

namespace ZiranOS

open ProgLib

variable {frames : ℕ → Option ℕ} {s s' : Paging} {T T' : TableTree}

/-! ## Mapping -/

/-- The entry that a call writes for a page. -/
def leafEntry (phys flags : ℕ) (userPage : Bool) : ℕ :=
  phys / 4096 * 4096 ||| flags ||| present ||| if userPage then user else 0

/-- What a call that maps a page does: it walks down to the page table, and writes the entry of the
page there unless the walk failed. -/
inductive Maps (frames : ℕ → Option ℕ) (userPage : Bool) (virt entry : ℕ) (s : Paging)
    (T : TableTree) : Paging → TableTree → Except MapError Unit → Prop
  /-- The walk failed. -/
  | failed {s' : Paging} {T' : TableTree} {e : MapError}
      (hgrows : Relation.ReflTransGen (Grow frames userPage) (s, T) (s', T'))
      (hend : Arrived T' virt (.error e)) : Maps frames userPage virt entry s T s' T' (.error e)
  /-- The page is mapped. -/
  | done {s₁ : Paging} {T' : TableTree} {t : ℕ}
      (hgrows : Relation.ReflTransGen (Grow frames userPage) (s, T) (s₁, T'))
      (ht : T' 0 (virt / 4096 / 512) = some t) :
      Maps frames userPage virt entry s T (s₁.setWord t (virt / 4096 % 512) entry) T' (.ok ())

/-- Clearing the low bits of an address leaves its page. -/
lemma and_not64_frame {x : ℕ} (hx : x < 2 ^ 64) :
    x &&& not64 (frameSize - 1) = x / 4096 * 4096 := by
  have h : not64 (frameSize - 1) = 2 ^ 64 - 2 ^ 12 := not64_two_pow_sub_one 12
  rw [h, and_mask_eq (by norm_num) hx]
  norm_num

/-- The index of the entry of a page in its page table. -/
lemma tableIndex_page (virt : ℕ) : tableIndex (virt / 4096 * 4096) 0 = virt / 4096 % 512 := by
  rw [tableIndex_eq, slot_page, slot_zero]

/-- **What a call that maps a page does.**  A page mapped for ring 3 has open entries above it. -/
lemma mapInner_eq (h : Shape frames s T) (hf : FreshFrames frames) {virt phys : ℕ}
    (hvirt : virt < 2 ^ 48) (hphys : phys < 2 ^ 64) (flags : ℕ) (userPage : Bool) :
    ∃ s' T' r, s.mapInner frames virt phys flags userPage = .ok (s', r) ∧
      Maps frames userPage virt (leafEntry phys flags userPage) s T s' T' r ∧
      (userPage = true → r = .ok () → s'.OpenTo T' virt 3) := by
  have hpage : virt / 4096 * 4096 < 2 ^ 48 := lt_of_le_of_lt (Nat.div_mul_le_self _ _) hvirt
  obtain ⟨s₁, T₁, r, hrun, hgrows, hend, hopen⟩ :=
    descend_eq hf (virt / 4096 * 4096) userPage 3 _ s T h le_rfl (h.root_slot hpage)
  have hshape := shape_of_grows hgrows hf h
  unfold Paging.mapInner
  simp only [and_not64_frame (x := virt) (by omega), and_not64_frame hphys, hrun, Exec.bind_ok]
  cases r with
  | error e =>
    refine ⟨s₁, T₁, _, rfl, .failed hgrows ?_, fun _ hr => nomatch hr⟩
    have h30 := identityLimit_eq
    cases e with
    | outOfFrames =>
      have : identityLimit ≤ virt / 4096 * 4096 := hend
      exact show identityLimit ≤ virt by omega
    | hugePage =>
      have : virt / 4096 * 4096 < identityLimit := hend
      exact show virt < identityLimit by omega
  | ok t =>
    have ht : T₁ 0 (virt / 4096 / 512) = some t := by
      have h1 : T₁ 0 (slot (virt / 4096 * 4096) 1) = some t := hend
      rwa [slot_page, slot_succ, slot_zero] at h1
    refine ⟨_, T₁, _, ?_, .done hgrows ht, fun huser _ l hl => ?_⟩
    · simp only [tableIndex_page, writeEntry_eq (hshape.low hf ht),
        Exec.bind_ok, Exec.pure_eq_ok, leafEntry]
    · rw [userAt_setWord hshape.toPlaced hf ht, if_neg (by omega), ← slot_page]
      exact hopen huser rfl l hl

/-- The entry of a page maps it to its frame. -/
lemma leafPage_leafEntry {phys flags : ℕ} (hphys : phys < 2 ^ 52)
    (hflags : flags = 0 ∨ flags = writable) (userPage : Bool) :
    Paging.leafPage (leafEntry phys flags userPage) = some (phys / 4096 * 4096) := by
  have hdvd : frameSize ∣ phys / 4096 * 4096 := ⟨phys / 4096, by rw [frameSize]; ring⟩
  have hlt : phys / 4096 * 4096 < 2 ^ 52 := lt_of_le_of_lt (Nat.div_mul_le_self _ _) hphys
  have hlow : (flags ||| present ||| if userPage then user else 0) < frameSize := by
    rcases hflags with rfl | rfl <;> cases userPage <;> decide
  have hpresent : (flags ||| present ||| if userPage then user else 0) &&& present ≠ 0 := by
    rcases hflags with rfl | rfl <;> cases userPage <;> decide
  rw [Paging.leafPage, leafEntry, Nat.or_assoc, Nat.or_assoc, ← Nat.or_assoc flags,
    entry_and hdvd hlow (by decide), if_neg hpresent, entry_and_addrMask hdvd hlt hlow]

/-- A write to the entry of a page changes the translation of that page only. -/
lemma pageAt_setWord (h : Shape frames s T) (hf : FreshFrames frames) {n t : ℕ}
    (ht : T 0 (n / 512) = some t) (w n₁ : ℕ) :
    (s.setWord t (n % 512) w).pageAt T n₁ =
      if n₁ = n then Paging.leafPage w else s.pageAt T n₁ := by
  rw [Paging.pageAt, word_setWord h.toPlaced hf ht]
  split_ifs with h₁ h₂ h₂
  · rfl
  · exact absurd h₁.2 h₂
  · exact absurd ⟨rfl, h₂⟩ h₁
  · rfl

/-- A call that maps a page keeps the invariant. -/
lemma Maps.shape {userPage : Bool} {virt entry : ℕ} {r : Except MapError Unit}
    (hm : Maps frames userPage virt entry s T s' T' r) (hf : FreshFrames frames)
    (h : Shape frames s T) : Shape frames s' T' := by
  cases hm with
  | failed hgrows _ => exact shape_of_grows hgrows hf h
  | done hgrows ht => exact (shape_of_grows hgrows hf h).setWord hf ht (fun l hl => by omega)

/-- A call that maps a page changes its translation if it succeeds, and no other. -/
lemma Maps.pageAt_eq {userPage : Bool} {virt entry : ℕ} {r : Except MapError Unit}
    (hm : Maps frames userPage virt entry s T s' T' r) (hf : FreshFrames frames)
    (h : Shape frames s T) (n : ℕ) :
    s'.pageAt T' n =
      if r = .ok () ∧ n = virt / 4096 then Paging.leafPage entry else s.pageAt T n := by
  cases hm with
  | failed hgrows _ =>
    rw [if_neg (by simp)]
    exact pageAt_of_grows hgrows hf h n
  | done hgrows ht =>
    rw [pageAt_setWord (shape_of_grows hgrows hf h) hf ht]
    apply if_congr (by simp) rfl
    exact pageAt_of_grows hgrows hf h n

/-- A call that maps a page meets a large page exactly in the identity map. -/
lemma Maps.hugePage_iff {userPage : Bool} {virt entry : ℕ} {r : Except MapError Unit}
    (hm : Maps frames userPage virt entry s T s' T' r) (hf : FreshFrames frames)
    (h : Shape frames s T) : r = .error .hugePage ↔ virt < identityLimit := by
  cases hm with
  | @failed _ _ e _ hend =>
    cases e with
    | outOfFrames => simpa using (show identityLimit ≤ virt from hend)
    | hugePage => simpa using (show virt < identityLimit from hend)
  | @done s₁ T' t hgrows ht =>
    refine iff_of_false (by simp) fun hlt => ?_
    have hnone := (shape_of_grows hgrows hf h).noTable (slot_of_lt.mpr hlt)
    rw [slot_succ, slot_zero] at hnone
    exact Option.some_ne_none t (ht.symm.trans hnone)

/-! ## Unmapping -/

/-- **What a call that unmaps a page does.** -/
lemma unmapPage_eq (h : Shape frames s T) (hf : FreshFrames frames) {virt : ℕ}
    (hvirt : virt < 2 ^ 48) :
    ∃ s', s.unmapPage virt = .ok (s', (s.pageAt T (virt / 4096)).isSome) ∧
      Shape frames s' T ∧
      (∀ n, s'.pageAt T n = if n = virt / 4096 then none else s.pageAt T n) ∧
      ∀ level n, s'.UserAt T level n ↔
        s.UserAt T level n ∧ ¬ (level = 0 ∧ n = virt / 4096) := by
  have hpage : virt / 4096 * 4096 < 2 ^ 48 := lt_of_le_of_lt (Nat.div_mul_le_self _ _) hvirt
  have hfind := findTable_eq h hf (virt / 4096 * 4096) 3 _ le_rfl (h.root_slot hpage)
  rw [slot_page, slot_succ, slot_zero] at hfind
  -- where nothing is mapped there is nothing to change
  have hsame : s.pageAt T (virt / 4096) = none →
      (∀ n, s.pageAt T n = if n = virt / 4096 then none else s.pageAt T n) ∧
      ∀ level n, s.UserAt T level n ↔
        s.UserAt T level n ∧ ¬ (level = 0 ∧ n = virt / 4096) := by
    intro hnone
    refine ⟨fun n => ?_, fun level n => ⟨fun hu => ⟨hu, ?_⟩, And.left⟩⟩
    · split_ifs with hn
      · rw [hn, hnone]
      · rfl
    · rintro ⟨rfl, rfl⟩
      obtain ⟨entry, hentry, hp, -⟩ := hu
      rw [Paging.pageAt, hentry, Option.bind_some, Paging.leafPage, if_neg hp] at hnone
      cases hnone
  unfold Paging.unmapPage
  simp only [and_not64_frame (x := virt) (by omega), hfind, Exec.bind_ok]
  cases ht : T 0 (virt / 4096 / 512) with
  | none =>
    have hnone : s.pageAt T (virt / 4096) = none := by
      rw [Paging.pageAt, Paging.word, ht]
      rfl
    rw [hnone]
    exact ⟨s, rfl, h, hsame hnone⟩
  | some t =>
    have hpageAt : s.pageAt T (virt / 4096) =
        Paging.leafPage (s.mem (t + 8 * (virt / 4096 % 512))) := by
      rw [Paging.pageAt, word_eq ht, Option.bind_some]
    simp only [tableIndex_page, readEntry_eq h hf ht, Exec.bind_ok]
    split_ifs with hpresent
    · have hnone : s.pageAt T (virt / 4096) = none := by
        rw [hpageAt, Paging.leafPage, if_pos hpresent]
      rw [hnone]
      exact ⟨s, rfl, h, hsame hnone⟩
    · rw [writeEntry_eq (h.low hf ht), hpageAt, Paging.leafPage, if_neg hpresent]
      refine ⟨_, rfl, h.setWord hf ht (fun l hl => by omega), pageAt_setWord h hf ht 0,
        fun level n => ?_⟩
      rw [userAt_setWord h.toPlaced hf ht]
      split_ifs with heq
      · exact iff_of_false (fun hu => hu.1 (Nat.zero_and _)) fun hu => hu.2 heq
      · exact (and_iff_left heq).symm

end ZiranOS
