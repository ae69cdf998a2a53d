import ZiranOS.Paging.Walk

/-!
# The first address space

`buildAddressSpace` allocates three tables and fills them; it fails only when one of the three
requests for a frame is refused (`buildAddressSpace_eq_ok`).  The tables it leaves satisfy the
invariant of `Paging/Tree` and map no page above the identity map (`buildAddressSpace_shape`), so
none of the assertions of `init` fires (`init_eq`).
-/

namespace ZiranOS

open ProgLib

variable {frames : ℕ → Option ℕ} {s : Paging} {T : TableTree}

/-- Memory as it is before any table exists. -/
def noTables : TableTree := fun _ _ => none

/-- The three tables of the first address space. -/
def firstTables (pml4 pdpt pd : ℕ) : TableTree :=
  ((noTables.insert 3 0 pml4).insert 2 0 pdpt).insert 1 0 pd

/-- No table lies anywhere yet. -/
lemma placed_noTables (frames : ℕ → Option ℕ) (s : Paging) : Placed frames s noTables where
  used := fun ht => nomatch ht
  inj := fun ht => nomatch ht

/-- The identity entries are written one after another. -/
lemma foldlM_identity (h : Placed frames s T) (hf : FreshFrames frames) {pd : ℕ}
    (hpd : T 1 0 = some pd) : ∀ count ≤ 512, ∃ s',
      (List.range count).foldlM (fun s i => s.writeEntry pd i (Paging.identityEntry i)) s
        = .ok s' ∧
      Placed frames s' T ∧ s'.cr3 = s.cr3 ∧ s'.allocs = s.allocs ∧
      ∀ level n, s'.word T level n =
        if level = 1 ∧ n < count then some (Paging.identityEntry n) else s.word T level n := by
  intro count
  induction count with
  | zero => exact fun _ => ⟨s, rfl, h, rfl, rfl, fun level n => (if_neg (by omega)).symm⟩
  | succ count ih =>
    intro hle
    obtain ⟨s', hrun, h', hcr3, hallocs, hword⟩ := ih (by omega)
    have hcount : count / 512 = 0 := Nat.div_eq_of_lt (by omega)
    have hmod : count % 512 = count := Nat.mod_eq_of_lt (by omega)
    refine ⟨s'.setWord pd count (Paging.identityEntry count), ?_, h'.setWord .., hcr3, hallocs,
      fun level n => ?_⟩
    · rw [List.range_succ, List.foldlM_append, hrun, Exec.bind_ok, List.foldlM_cons,
        writeEntry_eq (h.low hf hpd)]
      rfl
    · have hset := word_setWord (w := Paging.identityEntry count) h' hf (n := count)
        (by rwa [hcount]) level n
      rw [hmod] at hset
      rw [hset, hword]
      split_ifs with h₁ h₂ h₃ h₃ h₄
      · rw [h₁.2]
      · omega
      · rfl
      · omega
      · omega
      · rfl

/-- A table that has to be there is there if the allocator has a frame. -/
lemma expectTable_some (hf : FreshFrames frames) {g : ℕ} (hg : frames s.allocs = some g) :
    s.expectTable frames = .ok (s.zeroed g, g) := by
  rw [Paging.expectTable, allocTable_some hf hg, Exec.bind_ok]
  rfl

/-- Without a frame the table that has to be there is a failed assertion. -/
lemma expectTable_none (hg : frames s.allocs = none) :
    s.expectTable frames = Exec.panic .assertion := by
  rw [Paging.expectTable, allocTable_none hg, Exec.bind_ok]

/-- **What the first address space looks like in memory.** -/
lemma buildAddressSpace_eq (hf : FreshFrames frames) {pml4 pdpt pd : ℕ}
    (h0 : frames s.allocs = some pml4) (h1 : frames (s.allocs + 1) = some pdpt)
    (h2 : frames (s.allocs + 2) = some pd) :
    ∃ s', s.buildAddressSpace frames = .ok (s', pml4) ∧
      Placed frames s' (firstTables pml4 pdpt pd) ∧ s'.allocs = s.allocs + 3 ∧
      ∀ level n, s'.word (firstTables pml4 pdpt pd) level n =
        if level = 3 ∧ n = 0 then some (pdpt ||| present ||| writable)
        else if level = 2 ∧ n = 0 then some (pd ||| present ||| writable)
        else if level = 1 ∧ n < 512 then some (Paging.identityEntry n)
        else if (level = 2 ∨ level = 3) ∧ n / 512 = 0 then some 0
        else none := by
  have hp0 := (placed_noTables frames s).insert hf h0 3 0
  have hp1 := hp0.insert hf h1 2 0
  have hp2 : Placed frames (((s.zeroed pml4).zeroed pdpt).zeroed pd)
      (firstTables pml4 pdpt pd) := hp1.insert hf h2 1 0
  have hword : ∀ level n, (((s.zeroed pml4).zeroed pdpt).zeroed pd).word
      (firstTables pml4 pdpt pd) level n =
        if level = 1 ∧ n / 512 = 0 then some 0
        else if level = 2 ∧ n / 512 = 0 then some 0
        else if level = 3 ∧ n / 512 = 0 then some 0
        else none := by
    intro level n
    rw [firstTables, word_zeroed hp1 hf h2, word_zeroed hp0 hf h1,
      word_zeroed (placed_noTables frames s) hf h0]
    rfl
  obtain ⟨s₄, hfill, hp4, hcr3, hallocs, hword₄⟩ := foldlM_identity hp2 hf rfl 512 le_rfl
  have hpdpt : firstTables pml4 pdpt pd 2 (0 / 512) = some pdpt := rfl
  have hpml4 : firstTables pml4 pdpt pd 3 (0 / 512) = some pml4 := rfl
  have hword₅ := word_setWord (w := pd ||| present ||| writable) hp4 hf hpdpt
  have hword₆ := word_setWord (w := pdpt ||| present ||| writable)
    (hp4.setWord pdpt 0 (pd ||| present ||| writable)) hf hpml4
  refine ⟨_, ?_, (hp4.setWord pdpt 0 (pd ||| present ||| writable)).setWord pml4 0
    (pdpt ||| present ||| writable), ?_, fun level n => ?_⟩
  · rw [Paging.buildAddressSpace, expectTable_some hf h0, Exec.bind_ok]
    simp only [expectTable_some hf (s := s.zeroed pml4) h1, Exec.bind_ok,
      expectTable_some hf (s := (s.zeroed pml4).zeroed pdpt) h2, hfill,
      writeEntry_eq (hf.low h1), writeEntry_eq (hf.low h0)]
    rfl
  · exact hallocs
  · have h5 := hword₅ level n
    rw [hword₄ level n, hword level n] at h5
    refine (hword₆ level n).trans ((if_congr Iff.rfl rfl h5).trans ?_)
    split_ifs <;> first | rfl | omega

/-- The first address space exists exactly when the allocator has its three frames. -/
lemma buildAddressSpace_eq_ok (hf : FreshFrames frames) {s' : Paging} {pml4 : ℕ}
    (hb : s.buildAddressSpace frames = .ok (s', pml4)) :
    frames s.allocs = some pml4 ∧ ∃ pdpt pd, frames (s.allocs + 1) = some pdpt ∧
      frames (s.allocs + 2) = some pd := by
  unfold Paging.buildAddressSpace at hb
  cases h0 : frames s.allocs with
  | none =>
    rw [expectTable_none h0] at hb
    cases hb
  | some g0 =>
    simp only [expectTable_some hf h0, Exec.bind_ok] at hb
    cases h1 : frames (s.allocs + 1) with
    | none =>
      rw [expectTable_none (s := s.zeroed g0) h1] at hb
      cases hb
    | some g1 =>
      simp only [expectTable_some hf (s := s.zeroed g0) h1, Exec.bind_ok] at hb
      cases h2 : frames (s.allocs + 2) with
      | none =>
        rw [expectTable_none (s := (s.zeroed g0).zeroed g1) h2] at hb
        cases hb
      | some g2 =>
        obtain ⟨s₁, hrun, -⟩ := buildAddressSpace_eq hf h0 h1 h2
        have : g0 = pml4 := by
          simp only [Paging.buildAddressSpace, expectTable_some hf h0, Exec.bind_ok,
            expectTable_some hf (s := s.zeroed g0) h1] at hrun
          exact (Prod.mk.inj (Except.ok.inj (hrun.symm.trans hb))).2
        exact ⟨congrArg some this, g1, g2, rfl, rfl⟩

/-- The entry of a table of the first address space points to it. -/
lemma points_first {g : ℕ} (hf : FreshFrames frames) {k : ℕ} (hg : frames k = some g) :
    Points (g ||| present ||| writable) (some g) := by
  have h := points_newTable (hf.aligned hg) (hf.low hg) false
  rwa [Paging.newTable, if_neg (by decide), ← Nat.or_assoc] at h

/-- The address of a frame is an address. -/
lemma and_addrMask (hf : FreshFrames frames) {k g : ℕ} (hg : frames k = some g) :
    g &&& addrMask = g := by
  have h := entry_and_addrMask (hf.aligned hg) (lt_trans (hf.low hg) (by decide))
    (f := 0) (by decide)
  rwa [Nat.or_zero] at h

/-- **The first address space is made of three new tables and satisfies the invariant.** -/
lemma buildAddressSpace_first (hf : FreshFrames frames) {s' : Paging} {pml4 : ℕ}
    (hb : s.buildAddressSpace frames = .ok (s', pml4)) :
    ∃ pdpt pd, frames s.allocs = some pml4 ∧ frames (s.allocs + 1) = some pdpt ∧
      frames (s.allocs + 2) = some pd ∧ s'.allocs = s.allocs + 3 ∧
      Shape frames (s'.writeCr3 pml4) (firstTables pml4 pdpt pd) := by
  obtain ⟨h0, pdpt, pd, h1, h2⟩ := buildAddressSpace_eq_ok hf hb
  obtain ⟨s₁, hrun, hplaced, hallocs, hword⟩ := buildAddressSpace_eq hf h0 h1 h2
  obtain rfl := (Prod.mk.inj (Except.ok.inj (hb.symm.trans hrun))).1
  have htables : ∀ level n, (firstTables pml4 pdpt pd level n).isSome ↔
      (level = 1 ∨ level = 2 ∨ level = 3) ∧ n = 0 := by
    intro level n
    simp only [firstTables, TableTree.insert, noTables]
    split_ifs <;> simp <;> omega
  refine ⟨pdpt, pd, h0, h1, h2, hallocs, ⟨hplaced.used, hplaced.inj⟩, ?_, ?_, ?_, ?_, ?_, ?_⟩
  · exact congrArg some (and_addrMask hf h0).symm
  · intro level n hsome
    have := (htables level n).mp hsome
    omega
  · intro level n hlt hsome
    have := (htables level n).mp hsome
    exact (htables _ _).mpr (by omega)
  · intro level n entry hentry hdir
    have hentry' := (hword (level + 1) n).symm.trans hentry
    split_ifs at hentry' with h₁ h₂ h₃ h₄
    · obtain ⟨hlevel, rfl⟩ := h₁
      obtain rfl : level = 2 := by omega
      obtain rfl := Option.some.inj hentry'
      exact points_first hf h1
    · obtain ⟨hlevel, rfl⟩ := h₂
      obtain rfl : level = 1 := by omega
      obtain rfl := Option.some.inj hentry'
      exact points_first hf h2
    · omega
    · obtain rfl := Option.some.inj hentry'
      have hnone : firstTables pml4 pdpt pd level n = none := by
        apply Option.not_isSome_iff_eq_none.mp
        intro hsome
        have := (htables level n).mp hsome
        omega
      rw [hnone]
      exact Nat.zero_and _
  · intro n hlt
    refine (hword 1 n).trans ?_
    rw [if_neg (by omega), if_neg (by omega), if_pos ⟨rfl, hlt⟩]
  · intro n _
    apply Option.not_isSome_iff_eq_none.mp
    intro hsome
    have := (htables 0 n).mp hsome
    omega

/-- **The first address space satisfies the invariant and maps no page above the identity map.** -/
lemma buildAddressSpace_shape (hf : FreshFrames frames) {s' : Paging} {pml4 : ℕ}
    (hb : s.buildAddressSpace frames = .ok (s', pml4)) :
    ∃ T, Shape frames (s'.writeCr3 pml4) T ∧ ∀ n, (s'.writeCr3 pml4).pageAt T n = none := by
  obtain ⟨pdpt, pd, -, -, -, -, hshape⟩ := buildAddressSpace_first hf hb
  exact ⟨_, hshape, fun n => rfl⟩

/-- **No assertion of `init` fires.** -/
lemma init_eq (hf : FreshFrames frames) {s' : Paging} {pml4 : ℕ}
    (hb : s.buildAddressSpace frames = .ok (s', pml4)) :
    s.init frames = .ok (s'.writeCr3 pml4) := by
  obtain ⟨T, hshape, hnone⟩ := buildAddressSpace_shape hf hb
  have hroot : (s'.writeCr3 pml4).cr3 &&& addrMask = pml4 :=
    and_addrMask hf (buildAddressSpace_eq_ok hf hb).1
  have htranslate : ∀ virt < 2 ^ 48, s'.translateFrom pml4 virt =
      .ok (if virt < identityLimit then some virt else none) := by
    intro virt hvirt
    have h := translate_eq hshape hf hvirt
    rw [Paging.translate, hroot, Paging.target, hnone] at h
    exact h
  have h30 : identityLimit = 0x40000000 := by decide
  rw [Paging.init, hb, Exec.bind_ok]
  simp only [htranslate 0xb8000 (by norm_num), htranslate 0x100000 (by norm_num),
    htranslate 0x3FFFF000 (by norm_num), htranslate 0x40000000 (by norm_num), h30, Exec.bind_ok]
  rfl

end ZiranOS
