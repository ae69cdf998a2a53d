import ZiranOS.Paging.Footprint

/-!
# Which tables a mapping leaves

The tables in memory have one tree only (`Shape.unique`).  A walk creates no table but those of its
own address (`descend_tables`), and the frames that it took all are tables afterwards
(`table_of_request`), so after a mapping exactly the tables of its walk have come to those that were
there before (`mapInner_tables`).
-/

namespace ZiranOS

open ProgLib

variable {frames : ℕ → Option ℕ} {s s' : Paging} {T T' : TableTree} {userPage : Bool}

/-- **Memory has one tree of tables only.** -/
lemma Shape.unique (h : Shape frames s T) (h' : Shape frames s T') : T = T' := by
  have hpoints : ∀ {w g g'}, Points w g → Points w g' → g = g' := by
    intro w g g' hg hg'
    match g, g' with
    | none, none => rfl
    | some g, some g' => rw [← hg.2.2, ← hg'.2.2]
    | none, some g' => exact absurd hg hg'.1
    | some g, none => exact absurd hg' hg.1
  -- by induction from the root down
  have hdown : ∀ k ≤ 3, ∀ n, T (3 - k) n = T' (3 - k) n := by
    intro k
    induction k with
    | zero =>
      intro _ n
      by_cases hn : n = 0
      · rw [hn]
        exact h.root.trans h'.root.symm
      · have hnone : ∀ {T : TableTree}, Shape frames s T → T 3 n = none := fun h =>
          Option.not_isSome_iff_eq_none.mp fun hsome => by
            have htop := h.top hsome
            omega
        exact (hnone h).trans (hnone h').symm
    | succ k ih =>
      intro hk n
      have hlevel : 3 - k = 3 - (k + 1) + 1 := by omega
      have habove := ih (by omega) (n / 512)
      rw [hlevel] at habove
      by_cases hdir : 3 - (k + 1) ≠ 0 ∨ 512 ≤ n
      · cases ht : T (3 - (k + 1) + 1) (n / 512) with
        | some t =>
          exact hpoints (h.link (word_eq ht) hdir) (h'.link (word_eq (habove ▸ ht)) hdir)
        | none =>
          -- without the table above there is none below
          have hnone : ∀ {T : TableTree}, Shape frames s T →
              T (3 - (k + 1) + 1) (n / 512) = none → T (3 - (k + 1)) n = none := fun h hnone =>
            Option.not_isSome_iff_eq_none.mp fun hsome => by
              have hparent := h.parent (by omega) hsome
              rw [hnone] at hparent
              cases hparent
          exact (hnone h ht).trans (hnone h' (habove ▸ ht)).symm
      · have hzero : 3 - (k + 1) = 0 := by omega
        rw [hzero]
        exact (h.noTable (by omega)).trans (h'.noTable (by omega)).symm
  funext level n
  by_cases hlevel : level ≤ 3
  · have heq := hdown (3 - level) (by omega) n
    rwa [Nat.sub_sub_self hlevel] at heq
  · have hnone : ∀ {T : TableTree}, Shape frames s T → T level n = none := fun h =>
      Option.not_isSome_iff_eq_none.mp fun hsome => by
        have htop := h.top hsome
        omega
    exact (hnone h).trans (hnone h').symm

/-- The frame of an answered request of a walk is a table. -/
lemma table_of_request {x y : Paging × TableTree}
    (hgrows : Relation.ReflTransGen (Grow frames userPage) x y) {n f : ℕ} (hn : x.1.allocs ≤ n)
    (hlt : n < y.1.allocs) (hf : frames n = some f) : ∃ level q, y.2 level q = some f := by
  induction hgrows with
  | refl => exact absurd hlt (not_lt.mpr hn)
  | @tail y z hgrows hstep ih =>
    cases hstep with
    | @refuse s T hnone =>
      rcases Nat.lt_succ_iff_lt_or_eq.mp hlt with hlt | rfl
      · exact ih hlt
      · cases hnone.symm.trans hf
    | loosen => exact ih hlt
    | @link s T level n₁ t g ht hnone hdir hg =>
      rcases Nat.lt_succ_iff_lt_or_eq.mp hlt with hlt | rfl
      · obtain ⟨level₁, q, hq⟩ := ih hlt
        exact ⟨level₁, q, TableTree.insert_of_none hnone hq⟩
      · exact ⟨level, n₁, (if_pos ⟨rfl, rfl⟩).trans (hg.symm.trans hf)⟩

/-- The tables of a walk, from the given level down. -/
def OnWalk (virt count level q : ℕ) : Prop := level < count ∧ q = slot virt (level + 1)

/-- **A walk creates no table but those of its address.** -/
lemma descend_tables (hf : FreshFrames frames) {virt : ℕ} (userPage : Bool) :
    ∀ (level t : ℕ) (s : Paging) (T : TableTree), Shape frames s T → level ≤ 3 →
      T level (slot virt (level + 1)) = some t → ∀ s' r,
      Paging.descend frames virt userPage level t s = .ok (s', r) →
      ∃ T', Shape frames s' T' ∧
        ∀ {l q}, (T' l q).isSome → (T l q).isSome ∨ OnWalk virt level l q := by
  intro level
  induction level with
  | zero =>
    intro t s T h _ _ s' r hrun
    obtain ⟨rfl, rfl⟩ := Prod.mk.inj (Except.ok.inj hrun)
    exact ⟨T, h, .inl⟩
  | succ level ih =>
    intro t s T h hle ht s' r hrun
    have ht' := ht
    rw [slot_succ] at ht'
    have hwider : ∀ {l q}, OnWalk virt level l q → OnWalk virt (level + 1) l q :=
      fun hon => ⟨hon.1.trans (Nat.lt_succ_self _), hon.2⟩
    have hlevel := descend_level h hf virt userPage ht
    generalize Paging.descend frames virt userPage (level + 1) t s = run at hrun hlevel
    cases hlevel with
    | @opened g huser hdir hchild =>
      have hstep : Grow frames userPage (s, T) _ :=
        .loosen huser ht' (Option.isSome_of_eq_some hchild)
      obtain ⟨T', h', hnew⟩ := ih g _ T (hstep.shape hf h) (by omega) hchild s' r hrun
      exact ⟨T', h', fun hsome => (hnew hsome).imp_right hwider⟩
    | @entered g hdir hchild hopen =>
      obtain ⟨T', h', hnew⟩ := ih g s T h (by omega) hchild s' r hrun
      exact ⟨T', h', fun hsome => (hnew hsome).imp_right hwider⟩
    | @linked g hdir hchild hg =>
      have hstep : Grow frames userPage (s, T) _ := .link ht' hchild (slot_of_dir hdir) hg
      obtain ⟨T', h', hnew⟩ := ih g _ _ (hstep.shape hf h) (by omega) (if_pos ⟨rfl, rfl⟩) s' r hrun
      refine ⟨T', h', fun {l q} hsome => ?_⟩
      rcases hnew hsome with hold | hon
      · replace hold : (T.insert level (slot virt (level + 1)) g l q).isSome := hold
        rw [TableTree.insert] at hold
        split_ifs at hold with hthis
        · exact .inr ⟨by omega, hthis.2.trans (by rw [hthis.1])⟩
        · exact .inl hold
      · exact .inr (hwider hon)
    | refused hdir hchild hg =>
      obtain ⟨rfl, rfl⟩ := Prod.mk.inj (Except.ok.inj hrun)
      have hstep : Grow frames userPage (s, T) _ := .refuse hg
      exact ⟨T, hstep.shape hf h, .inl⟩
    | large _ hlt =>
      obtain ⟨rfl, rfl⟩ := Prod.mk.inj (Except.ok.inj hrun)
      exact ⟨T, h, .inl⟩

/-- **After a mapping the tables of its walk have come to those that were there.** -/
lemma mapInner_tables (h : Shape frames s T) (hf : FreshFrames frames) {virt phys flags : ℕ}
    (hvirt : virt < 2 ^ 48) (hphys : phys < 2 ^ 64)
    (hrun : s.mapInner frames virt phys flags userPage = .ok (s', .ok ()))
    (h' : Shape frames s' T') (level q : ℕ) :
    (T' level q).isSome ↔ (T level q).isSome ∨ OnWalk virt 3 level q := by
  have hroot := h.root_slot hvirt
  obtain ⟨s₁, T₁, r₁, hwalk, hgrows, hend, -⟩ := descend_eq hf virt userPage 3 _ s T h le_rfl hroot
  have h₁ := shape_of_grows hgrows hf h
  cases r₁ with
  | error e =>
    have hret := (mapInner_of_error (by omega) hphys hwalk).symm.trans hrun
    cases (Prod.mk.inj (Except.ok.inj hret)).2
  | ok t =>
    have ht : T₁ 0 (slot virt 1) = some t := hend
    have hpage := ht
    rw [slot_succ, slot_zero] at hpage
    -- the entry of the page changes no table
    have hret := (mapInner_of_ok (by omega) hphys hwalk).symm.trans hrun
    rw [writeEntry_eq (h₁.low hf ht), Exec.bind_ok] at hret
    obtain ⟨rfl, -⟩ := Prod.mk.inj (Except.ok.inj hret)
    have hwritten := h₁.setWord hf (w := leafEntry phys flags userPage) hpage
      (fun l hl => by omega)
    rw [← slot_zero, ← tableIndex_eq] at hwritten
    obtain rfl := h'.unique hwritten
    obtain ⟨T₂, h₂, hnew⟩ := descend_tables hf userPage 3 _ s T h le_rfl hroot _ _ hwalk
    obtain rfl := h₁.unique h₂
    refine ⟨hnew, ?_⟩
    rintro (hold | ⟨hlevel, rfl⟩)
    · obtain ⟨t₁, ht₁⟩ := Option.isSome_iff_exists.mp hold
      exact Option.isSome_of_eq_some (table_grown hgrows ht₁)
    · clear hret h' hwritten
      induction level with
      | zero => exact Option.isSome_of_eq_some ht
      | succ level ih =>
        rw [slot_succ]
        exact h₁.parent (by omega) (ih (by omega))

end ZiranOS
