import ZiranOS.Paging.Failure

/-!
# What a walk touches

A walk takes its new tables from the frame allocator one after another, and it writes to tables
only.  The new tables of a sequence of `Grow` steps are the frames of the requests it makes
(`table_of_grows`), memory outside of the tables stays as it is (`mem_of_grows`), and a walk makes
one request for each table it misses, up to the first that is refused (`descend_requests`).
-/

namespace ZiranOS

open ProgLib

variable {frames frames' : ℕ → Option ℕ} {s s' : Paging} {T T' : TableTree} {userPage : Bool}

/-- A new table leaves the others where they are. -/
lemma TableTree.insert_of_none {level n g l q t : ℕ} (hnone : T level n = none)
    (ht : T l q = some t) : T.insert level n g l q = some t := by
  rw [TableTree.insert, if_neg]
  · exact ht
  · rintro ⟨rfl, rfl⟩
    rw [hnone] at ht
    cases ht

/-! ## Requests -/

/-- A walk makes requests only. -/
lemma allocs_le_of_grows {x y : Paging × TableTree}
    (hgrows : Relation.ReflTransGen (Grow frames userPage) x y) : x.1.allocs ≤ y.1.allocs := by
  induction hgrows with
  | refl => exact le_rfl
  | tail _ hstep ih =>
    refine ih.trans ?_
    cases hstep with
    | refuse => exact Nat.le_succ _
    | loosen => exact le_rfl
    | link => exact Nat.le_succ _

/-- **A table after a walk was there before, or it lies in the frame of a request of the walk.** -/
lemma table_of_grows {x y : Paging × TableTree}
    (hgrows : Relation.ReflTransGen (Grow frames userPage) x y) {level q t : ℕ}
    (ht : y.2 level q = some t) :
    x.2 level q = some t ∨ ∃ n, x.1.allocs ≤ n ∧ n < y.1.allocs ∧ frames n = some t := by
  induction hgrows with
  | refl => exact .inl ht
  | @tail y z hgrows hstep ih =>
    have hle := allocs_le_of_grows hgrows
    have hlater : (x.2 level q = some t ∨ ∃ n, x.1.allocs ≤ n ∧ n < y.1.allocs ∧
        frames n = some t) → y.1.allocs ≤ z.1.allocs →
        x.2 level q = some t ∨ ∃ n, x.1.allocs ≤ n ∧ n < z.1.allocs ∧ frames n = some t := by
      rintro (hold | ⟨n, hn, hlt, hf⟩) hyz
      · exact .inl hold
      · exact .inr ⟨n, hn, hlt.trans_le hyz, hf⟩
    cases hstep with
    | refuse => exact hlater (ih ht) (Nat.le_succ _)
    | loosen => exact hlater (ih ht) le_rfl
    | @link s T level₁ n₁ t₁ g ht₁ hnone hdir hg =>
      replace ht : T.insert level₁ n₁ g level q = some t := ht
      rw [TableTree.insert] at ht
      split_ifs at ht with hnew
      · obtain rfl := Option.some.inj ht
        exact .inr ⟨s.allocs, hle, Nat.lt_succ_self _, hg⟩
      · exact hlater (ih ht) (Nat.le_succ _)

/-- Walks leave the tables where they are. -/
lemma table_grown {x y : Paging × TableTree}
    (hgrows : Relation.ReflTransGen (Grow frames userPage) x y) {level q t : ℕ}
    (ht : x.2 level q = some t) : y.2 level q = some t := by
  induction hgrows with
  | refl => exact ht
  | tail _ hstep ih =>
    cases hstep with
    | refuse => exact ih
    | loosen => exact ih
    | link _ hnone => exact TableTree.insert_of_none hnone ih

/-! ## Memory -/

/-- The address lies in none of the tables. -/
def TableTree.Avoids (T : TableTree) (a : ℕ) : Prop :=
  ∀ {level q t}, T level q = some t → ¬ (t ≤ a ∧ a < t + frameSize)

/-- An entry lies in its table. -/
lemma TableTree.Avoids.ne_entry {a level q t index : ℕ} (h : T.Avoids a)
    (ht : T level q = some t) (hindex : index < 512) : a ≠ t + 8 * index := by
  rintro rfl
  refine h ht ⟨Nat.le_add_right _ _, ?_⟩
  rw [frameSize]
  omega

/-- A write to an entry leaves the memory outside of the tables. -/
lemma mem_setWord {a level q t n entry : ℕ} (h : T.Avoids a) (ht : T level q = some t) :
    (s.setWord t (n % 512) entry).mem a = s.mem a :=
  Function.update_of_ne (h.ne_entry ht (Nat.mod_lt n (by norm_num))) _ _

/-- **A walk leaves the memory outside of the tables.** -/
lemma mem_of_grows {x y : Paging × TableTree}
    (hgrows : Relation.ReflTransGen (Grow frames userPage) x y) {a : ℕ} (h : y.2.Avoids a) :
    y.1.mem a = x.1.mem a := by
  induction hgrows with
  | refl => rfl
  | @tail y z hgrows hstep ih =>
    cases hstep with
    | refuse => exact ih h
    | loosen _ ht => exact (mem_setWord h ht).trans (ih h)
    | @link s T level n t g ht hnone hdir hg =>
      have hold : T.Avoids a := fun ht₁ => h (TableTree.insert_of_none hnone ht₁)
      have hlinked : T.insert level n g level n = some g := if_pos ⟨rfl, rfl⟩
      have hzeroed : (s.zeroed g).mem a = s.mem a := if_neg fun hin => h hlinked ⟨hin.1, hin.2.1⟩
      exact (mem_setWord h (TableTree.insert_of_none hnone ht)).trans (hzeroed.trans (ih hold))

/-! ## Missing tables -/

/-- The number of the tables below a level that are missing on the way to the page of an address. -/
def TableTree.missing (T : TableTree) (virt : ℕ) : ℕ → ℕ
  | 0 => 0
  | level + 1 => T.missing virt level + if T level (slot virt (level + 1)) = none then 1 else 0

/-- A new table of a level is not missing on the levels below. -/
lemma missing_insert (level n g virt : ℕ) : ∀ l ≤ level,
    (T.insert level n g).missing virt l = T.missing virt l := by
  intro l
  induction l with
  | zero => exact fun _ => rfl
  | succ l ih =>
    intro hle
    have hother : T.insert level n g l (slot virt (l + 1)) = T l (slot virt (l + 1)) :=
      if_neg (by omega)
    rw [TableTree.missing, TableTree.missing, ih (by omega), hother]

/-- Below a missing table all tables are missing. -/
lemma missing_of_none {virt : ℕ} : ∀ level,
    (∀ l < level, T l (slot virt (l + 1)) = none) → T.missing virt level = level := by
  intro level
  induction level with
  | zero => exact fun _ => rfl
  | succ level ih =>
    intro hnone
    rw [TableTree.missing, ih fun l hl => hnone l (by omega), if_pos (hnone level (by omega))]

/-- The requests of a walk that misses `count` tables, from request `a` to request `a'`: all of them
are answered with a frame, or the first one that is not ends the walk. -/
inductive Requested {α : Type} (frames : ℕ → Option ℕ) (count a : ℕ) (r : Except MapError α)
    (a' : ℕ) : Prop
  /-- All requests are answered. -/
  | all (hr : r ≠ .error .outOfFrames) (hframes : ∀ i < count, (frames (a + i)).isSome)
      (ha' : a' = a + count)
  /-- A request is refused. -/
  | refused {j : ℕ} (hj : j < count) (hframes : ∀ i < j, (frames (a + i)).isSome)
      (hnone : frames (a + j) = none) (hr : r = .error .outOfFrames) (ha' : a' = a + j + 1)

/-- One more request, that is answered. -/
lemma Requested.cons {α : Type} {count a a' : ℕ} {r : Except MapError α}
    (ha : (frames a).isSome) (h : Requested frames count (a + 1) r a') :
    Requested frames (count + 1) a r a' := by
  have hshift : ∀ {j : ℕ}, (∀ i < j, (frames (a + 1 + i)).isSome) →
      ∀ i < j + 1, (frames (a + i)).isSome := by
    intro j hframes i hi
    cases i with
    | zero => exact ha
    | succ i =>
      have hsome := hframes i (by omega)
      rwa [Nat.add_right_comm, Nat.add_assoc] at hsome
  cases h with
  | all hr hframes ha' => exact .all hr (hshift hframes) (by omega)
  | refused hj hframes hnone hr ha' =>
    rw [Nat.add_right_comm, Nat.add_assoc] at hnone
    exact .refused (by omega) (hshift hframes) hnone hr (by omega)

/-- **A walk makes one request for each missing table**, up to the first that is refused. -/
lemma descend_requests (hf : FreshFrames frames) {virt : ℕ} (hvirt : identityLimit ≤ virt)
    (userPage : Bool) :
    ∀ (level t : ℕ) (s : Paging) (T : TableTree), Shape frames s T → level ≤ 3 →
      T level (slot virt (level + 1)) = some t → ∀ s' r,
      Paging.descend frames virt userPage level t s = .ok (s', r) →
      Requested frames (T.missing virt level) s.allocs r s'.allocs := by
  intro level
  induction level with
  | zero =>
    intro t s T _ _ _ s' r hrun
    obtain ⟨rfl, rfl⟩ := Prod.mk.inj (Except.ok.inj hrun)
    exact .all nofun (fun i hi => absurd hi (Nat.not_lt_zero i)) rfl
  | succ level ih =>
    intro t s T h hle ht s' r hrun
    have ht' := ht
    rw [slot_succ] at ht'
    rw [TableTree.missing]
    have hlevel := descend_level h hf virt userPage ht
    generalize Paging.descend frames virt userPage (level + 1) t s = run at hrun hlevel
    cases hlevel with
    | @opened g huser hdir hchild =>
      have hstep : Grow frames userPage (s, T) _ :=
        .loosen huser ht' (Option.isSome_of_eq_some hchild)
      rw [hchild, if_neg (Option.some_ne_none g)]
      exact ih g _ T (hstep.shape hf h) (by omega) hchild s' r hrun
    | @entered g hdir hchild hopen =>
      rw [hchild, if_neg (Option.some_ne_none g)]
      exact ih g s T h (by omega) hchild s' r hrun
    | @linked g hdir hchild hg =>
      have hstep : Grow frames userPage (s, T) _ := .link ht' hchild (slot_of_dir hdir) hg
      have hdown := ih g _ _ (hstep.shape hf h) (by omega) (if_pos ⟨rfl, rfl⟩) s' r hrun
      rw [missing_insert level _ _ virt level le_rfl] at hdown
      rw [if_pos hchild]
      exact hdown.cons (Option.isSome_of_eq_some hg)
    | refused hdir hchild hg =>
      obtain ⟨rfl, rfl⟩ := Prod.mk.inj (Except.ok.inj hrun)
      rw [if_pos hchild]
      exact .refused (j := 0) (Nat.succ_pos _) (fun i hi => absurd hi (Nat.not_lt_zero i)) hg rfl
        rfl
    | large _ hlt => exact absurd hlt (not_lt.mpr hvirt)

/-- A walk for an address of the identity map ends at its large page without a request. -/
lemma descend_identity (hf : FreshFrames frames) {virt : ℕ} (hvirt : virt < identityLimit)
    (userPage : Bool) :
    ∀ (level t : ℕ) (s : Paging) (T : TableTree), Shape frames s T → level + 1 ≤ 3 →
      T (level + 1) (slot virt (level + 1 + 1)) = some t → ∀ s' r,
      Paging.descend frames virt userPage (level + 1) t s = .ok (s', r) →
      s'.allocs = s.allocs ∧ r = .error .hugePage := by
  intro level
  induction level with
  | zero =>
    intro t s T h hle ht s' r hrun
    have hnone := h.noTable (slot_of_lt.mpr hvirt)
    have hlevel := descend_level h hf virt userPage ht
    generalize Paging.descend frames virt userPage (0 + 1) t s = run at hrun hlevel
    cases hlevel with
    | opened _ _ hchild => exact absurd (hchild.symm.trans hnone) (Option.some_ne_none _)
    | entered _ hchild _ => exact absurd (hchild.symm.trans hnone) (Option.some_ne_none _)
    | linked hdir _ _ => exact absurd hdir (by omega)
    | refused hdir _ _ => exact absurd hdir (by omega)
    | large _ _ =>
      obtain ⟨rfl, rfl⟩ := Prod.mk.inj (Except.ok.inj hrun)
      exact ⟨rfl, rfl⟩
  | succ level ih =>
    intro t s T h hle ht s' r hrun
    have ht' := ht
    rw [slot_succ] at ht'
    have hpresent : (T (level + 1) (slot virt (level + 1 + 1))).isSome :=
      h.isSome_of_virt_lt hvirt (by omega)
    obtain ⟨g', hsome⟩ := Option.isSome_iff_exists.mp hpresent
    have hlevel := descend_level h hf virt userPage ht
    generalize Paging.descend frames virt userPage (level + 1 + 1) t s = run at hrun hlevel
    cases hlevel with
    | @opened g huser hdir hchild =>
      have hstep : Grow frames userPage (s, T) _ :=
        .loosen huser ht' (Option.isSome_of_eq_some hchild)
      exact ih g _ T (hstep.shape hf h) (by omega) hchild s' r hrun
    | @entered g hdir hchild hopen => exact ih g s T h (by omega) hchild s' r hrun
    | linked _ hchild _ => exact absurd (hsome.symm.trans hchild) (Option.some_ne_none _)
    | refused _ hchild _ => exact absurd (hsome.symm.trans hchild) (Option.some_ne_none _)
    | large hlevel _ => exact absurd hlevel (Nat.succ_ne_zero _)

/-- What a mapping returns and the requests it makes are those of its walk. -/
lemma mapInner_walk (h : Shape frames s T) (hf : FreshFrames frames) {virt phys flags : ℕ}
    (hvirt : virt < 2 ^ 48) (hphys : phys < 2 ^ 64) {r : Except MapError Unit}
    (hrun : s.mapInner frames virt phys flags userPage = .ok (s', r)) :
    ∃ s₁ r₁, Paging.descend frames virt userPage 3 (s.cr3 &&& addrMask) s = .ok (s₁, r₁) ∧
      s'.allocs = s₁.allocs ∧ r = r₁.map fun _ => () := by
  have hroot := h.root_slot hvirt
  obtain ⟨s₁, T₁, r₁, hwalk, -⟩ := descend_eq hf virt userPage 3 _ s T h le_rfl hroot
  refine ⟨s₁, r₁, hwalk, ?_⟩
  cases r₁ with
  | error e =>
    have hret := (mapInner_of_error (by omega) hphys hwalk).symm.trans hrun
    obtain ⟨rfl, rfl⟩ := Prod.mk.inj (Except.ok.inj hret)
    exact ⟨rfl, rfl⟩
  | ok t =>
    have hret := (mapInner_of_ok (by omega) hphys hwalk).symm.trans hrun
    obtain ⟨s₂, hwrite, hret⟩ := Exec.bind_eq_ok.mp hret
    obtain ⟨rfl, rfl⟩ := Prod.mk.inj (Except.ok.inj hret)
    exact ⟨writeEntry_allocs hwrite, rfl⟩

/-- **A mapping makes one request for each missing table**, up to the first that is refused. -/
lemma mapInner_requests (h : Shape frames s T) (hf : FreshFrames frames) {virt phys flags : ℕ}
    (hlow : identityLimit ≤ virt) (hvirt : virt < 2 ^ 48) (hphys : phys < 2 ^ 64)
    {r : Except MapError Unit}
    (hrun : s.mapInner frames virt phys flags userPage = .ok (s', r)) :
    Requested frames (T.missing virt 3) s.allocs r s'.allocs := by
  obtain ⟨s₁, r₁, hwalk, hallocs, rfl⟩ := mapInner_walk h hf hvirt hphys hrun
  rw [hallocs]
  cases descend_requests hf hlow userPage 3 _ s T h le_rfl (h.root_slot hvirt) s₁ r₁ hwalk with
  | all hr hframes ha' =>
    refine .all (fun hr' => hr ?_) hframes ha'
    cases r₁ with
    | error e => exact congrArg _ (Except.error.inj hr')
    | ok t => cases hr'
  | refused hj hframes hnone hr ha' => exact .refused hj hframes hnone (hr ▸ rfl) ha'

/-- A mapping in the identity map meets a large page and makes no request. -/
lemma mapInner_identity (h : Shape frames s T) (hf : FreshFrames frames) {virt phys flags : ℕ}
    (hlow : virt < identityLimit) (hphys : phys < 2 ^ 64) {r : Except MapError Unit}
    (hrun : s.mapInner frames virt phys flags userPage = .ok (s', r)) :
    s'.allocs = s.allocs ∧ r = .error .hugePage := by
  have h30 := identityLimit_eq
  have hvirt : virt < 2 ^ 48 := by omega
  obtain ⟨s₁, r₁, hwalk, hallocs, rfl⟩ := mapInner_walk h hf hvirt hphys hrun
  obtain ⟨hsame, rfl⟩ := descend_identity hf hlow userPage 2 _ s T h le_rfl (h.root_slot hvirt)
    s₁ r₁ hwalk
  exact ⟨hallocs.trans hsame, rfl⟩

/-- **A mapping that succeeds makes one request for each missing table.** -/
lemma mapInner_allocs (h : Shape frames s T) (hf : FreshFrames frames) {virt phys flags : ℕ}
    (hvirt : virt < 2 ^ 48) (hphys : phys < 2 ^ 64)
    (hrun : s.mapInner frames virt phys flags userPage = .ok (s', .ok ())) :
    s'.allocs = s.allocs + T.missing virt 3 := by
  rcases lt_or_ge virt identityLimit with hlow | hlow
  · have hno := (mapInner_identity h hf hlow hphys hrun).2
    cases hno
  · cases mapInner_requests h hf hlow hvirt hphys hrun with
    | all _ _ hallocs => exact hallocs
    | refused _ _ _ hr _ => cases hr

/-- **The entries of a walk and the missing tables add up to the levels.** -/
lemma Shape.length_walkLevels (h : Shape frames s T) {virt : ℕ} (hvirt : identityLimit ≤ virt) :
    ∀ level t, level ≤ 3 → T level (slot virt (level + 1)) = some t →
      (s.walkLevels virt level t).length + T.missing virt level = level + 1 := by
  intro level
  induction level with
  | zero => exact fun t _ _ => rfl
  | succ level ih =>
    intro t hle ht
    have hpoints := h.points ht (Or.inr hvirt)
    cases hchild : T level (slot virt (level + 1)) with
    | none =>
      rw [hchild, points_none] at hpoints
      have habsent := h.absent_of_le virt level (by omega) hchild
      have hmissing : T.missing virt (level + 1) = level + 1 :=
        missing_of_none _ fun l hl => habsent l (by omega)
      have hentry : s.entryAt t (tableIndex virt (level + 1)) &&& present = 0 := hpoints
      rw [Paging.walkLevels, if_pos (Or.inl hentry), hmissing, List.length_singleton]
      omega
    | some g =>
      rw [hchild, points_some] at hpoints
      obtain ⟨hp, hh, haddr⟩ := hpoints
      have hdown := ih g (by omega) hchild
      rw [walkLevels_succ hp fun hlarge => hlarge.2 hh, List.length_cons, TableTree.missing, hchild,
        if_neg (Option.some_ne_none g), Paging.entryAt, haddr]
      omega

/-! ## Answers -/

/-- A new table is one request. -/
lemma allocTable_allocs {r : Option ℕ} (h : s.allocTable frames = .ok (s', r)) :
    s'.allocs = s.allocs + 1 := by
  unfold Paging.allocTable at h
  cases hg : frames s.allocs with
  | none =>
    simp only [hg] at h
    obtain ⟨rfl, -⟩ := Prod.mk.inj (Except.ok.inj h)
    rfl
  | some g =>
    simp only [hg] at h
    obtain ⟨s₁, hzero, hret⟩ := Exec.bind_eq_ok.mp h
    obtain ⟨rfl, -⟩ := Prod.mk.inj (Except.ok.inj hret)
    obtain ⟨ptr, -, hret₁⟩ := Exec.bind_eq_ok.mp hzero
    obtain rfl := Except.ok.inj hret₁
    rfl

/-- A new table depends on the next answer only. -/
lemma allocTable_congr (h : frames s.allocs = frames' s.allocs) :
    s.allocTable frames = s.allocTable frames' := by
  rw [Paging.allocTable, Paging.allocTable, h]

/-- **A walk depends on the answers to come only.** -/
lemma descend_answers (virt : ℕ) : ∀ (level table : ℕ) (s : Paging),
    (∀ n ≥ s.allocs, frames n = frames' n) →
    Paging.descend frames virt userPage level table s =
      Paging.descend frames' virt userPage level table s := by
  intro level
  induction level with
  | zero => exact fun table s _ => rfl
  | succ level ih =>
    intro table s hanswers
    rw [Paging.descend, Paging.descend]
    refine Exec.bind_congr fun entry _ => ?_
    dsimp only
    split_ifs with hpresent hlarge hopen
    · rfl
    · refine Exec.bind_congr fun s₁ hs₁ => ih _ s₁ ?_
      rwa [writeEntry_allocs hs₁]
    · exact ih _ s hanswers
    · rw [allocTable_congr (hanswers _ le_rfl)]
      refine Exec.bind_congr fun x hx => ?_
      obtain ⟨s₁, r⟩ := x
      have hallocs := allocTable_allocs hx
      cases r with
      | none => rfl
      | some next =>
        refine Exec.bind_congr fun s₂ hs₂ => ih _ s₂ fun n hn => hanswers n ?_
        have hallocs₂ := writeEntry_allocs hs₂
        omega

/-- A call depends on the answers to come only. -/
lemma call_answers (c : PagingCall) (hanswers : ∀ n ≥ s.allocs, frames n = frames' n) :
    s.call frames c = s.call frames' c := by
  have hmap : ∀ virt phys flags userPage, s.mapInner frames virt phys flags userPage =
      s.mapInner frames' virt phys flags userPage := by
    intro virt phys flags userPage
    unfold Paging.mapInner
    simp only [descend_answers _ 3 _ s hanswers]
  cases c with
  | mapPage virt phys flags => simp only [Paging.call, Paging.mapPage, hmap]
  | mapUserPage virt phys flags => simp only [Paging.call, Paging.mapUserPage, hmap]
  | unmapPage virt => rfl

end ZiranOS
