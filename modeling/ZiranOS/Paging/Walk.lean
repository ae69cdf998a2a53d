import ZiranOS.Paging.Grow

/-!
# Walks over the tables

What each function of `Paging/Tables` finds and does, said once.  A walk that only reads returns
`target` (`translateLevels_eq`) or the page table of its address (`findTable_eq`); a walk that may
create tables is a sequence of `Grow` steps (`descend_eq`).  No walk faults: every table it meets
lies in the identity map.
-/

namespace ZiranOS

open ProgLib

variable {frames : ℕ → Option ℕ} {s : Paging} {T : TableTree}

/-! ## Accesses to a table -/

/-- Reading an entry of a table does not fault. -/
lemma readEntry_eq (h : Shape frames s T) (hf : FreshFrames frames) {level q t : ℕ}
    (ht : T level q = some t) (index : ℕ) :
    s.readEntry t index = .ok (s.mem (t + 8 * index)) := by
  rw [Paging.readEntry, physToVirt, if_pos (h.low hf ht)]
  rfl

/-- Writing an entry of a table does not fault. -/
lemma writeEntry_eq {t : ℕ} (ht : t < identityLimit) (index entry : ℕ) :
    s.writeEntry t index entry = .ok (s.setWord t index entry) := by
  rw [Paging.writeEntry, physToVirt, if_pos ht]
  rfl

/-- Zeroing the words of a frame one after another. -/
lemma foldl_update_zero (mem : ℕ → ℕ) (ptr : ℕ) : ∀ count a,
    (List.range count).foldl (fun mem i => Function.update mem (ptr + 8 * i) 0) mem a =
      if ptr ≤ a ∧ a < ptr + 8 * count ∧ (a - ptr) % 8 = 0 then 0 else mem a := by
  intro count
  induction count with
  | zero =>
    intro a
    rw [if_neg (by omega)]
    rfl
  | succ count ih =>
    intro a
    rw [List.range_succ, List.foldl_append, List.foldl_cons, List.foldl_nil,
      Function.update_apply, ih]
    split_ifs <;> first | rfl | omega

/-- A new table is a zeroed frame. -/
lemma allocTable_some (hf : FreshFrames frames) {g : ℕ} (hg : frames s.allocs = some g) :
    s.allocTable frames = .ok (s.zeroed g, some g) := by
  have hmem : ((List.range (frameSize / 8)).foldl
      (fun mem i => Function.update mem (g + 8 * i) 0) s.mem) = (s.zeroed g).mem := by
    funext a
    exact foldl_update_zero s.mem g (frameSize / 8) a
  simp only [Paging.allocTable, hg, Paging.zeroFrame, physToVirt, if_pos (hf.low hg),
    Exec.bind_ok, Exec.pure_eq_ok, hmem]
  rfl

/-- Without a frame there is no new table. -/
lemma allocTable_none (hg : frames s.allocs = none) :
    s.allocTable frames = .ok ({ s with allocs := s.allocs + 1 }, none) := by
  simp only [Paging.allocTable, hg, Exec.pure_eq_ok]

/-! ## Translation -/

namespace Paging

/-- Where the tables take an address: to itself below the end of the identity map, and elsewhere to
the frame of its page. -/
def target (s : Paging) (T : TableTree) (virt : ℕ) : Option ℕ :=
  if virt < identityLimit then some virt else (s.pageAt T (virt / 4096)).map (· + virt % 4096)

end Paging

/-- An entry of the identity map. -/
lemma identityEntry_and {i : ℕ} (hi : i < 512) :
    Paging.identityEntry i &&& present ≠ 0 ∧ Paging.identityEntry i &&& huge ≠ 0 ∧
      Paging.identityEntry i &&& addrMask = i * 0x200000 := by
  have hassoc : Paging.identityEntry i = i * 0x200000 ||| (present ||| writable ||| huge) := by
    rw [Paging.identityEntry, Nat.or_assoc, Nat.or_assoc, Nat.or_assoc]
  have hdvd : frameSize ∣ i * 0x200000 := ⟨i * 512, by rw [frameSize]; ring⟩
  rw [hassoc]
  refine ⟨?_, ?_, entry_and_addrMask hdvd (by omega) (by decide)⟩
  · rw [entry_and hdvd (by decide) (by decide)]
    decide
  · rw [entry_and hdvd (by decide) (by decide)]
    decide

/-- The entries of the identity map are closed to ring 3. -/
lemma identityEntry_user (i : ℕ) : Paging.identityEntry i &&& user = 0 := by
  have hassoc : Paging.identityEntry i = i * 0x200000 ||| (present ||| writable ||| huge) := by
    rw [Paging.identityEntry, Nat.or_assoc, Nat.or_assoc, Nat.or_assoc]
  have hdvd : frameSize ∣ i * 0x200000 := ⟨i * 512, by rw [frameSize]; ring⟩
  rw [hassoc, entry_and hdvd (by decide) (by decide)]
  decide

/-- The large page of the identity map is the address with its low bits cleared. -/
lemma large_page (virt : ℕ) (hlt : virt < identityLimit) :
    (virt / 2 ^ 21 * 0x200000 &&& not64 (2 ^ 21 - 1)) + (virt &&& (2 ^ 21 - 1)) = virt := by
  have h30 := identityLimit_eq
  have h21 : (0x200000 : ℕ) = 2 ^ 21 := by norm_num
  rw [not64_two_pow_sub_one, and_mask_eq (by norm_num) (by omega), h21,
    Nat.mul_div_cancel _ (by norm_num), Nat.and_two_pow_sub_one_eq_mod]
  exact Nat.div_add_mod' virt (2 ^ 21)

/-- The entries for an address of the identity map are the first ones of the upper levels. -/
lemma slot_of_lt {virt : ℕ} :
    slot virt 1 < 512 ↔ virt < identityLimit := by
  have h30 := identityLimit_eq
  unfold slot
  omega

/-- The entry of a page in its page table. -/
lemma slot_zero (virt : ℕ) : slot virt 0 = virt / 4096 := rfl

/-- A walk meets the entry of a table, except in the identity map. -/
lemma Shape.points (h : Shape frames s T) {virt level t : ℕ}
    (ht : T (level + 1) (slot virt (level + 2)) = some t)
    (hdir : level ≠ 0 ∨ identityLimit ≤ virt) :
    Points (s.mem (t + 8 * tableIndex virt (level + 1))) (T level (slot virt (level + 1))) := by
  rw [slot_succ] at ht
  rw [tableIndex_eq]
  apply h.link (word_eq ht)
  rcases hdir with hne | hle
  · exact Or.inl hne
  · by_cases h0 : level = 0
    · subst h0
      exact Or.inr (not_lt.mp fun hlt => absurd (slot_of_lt.mp hlt) (not_lt.mpr hle))
    · exact Or.inl h0

/-- In the first page directory a walk meets an entry of the identity map. -/
lemma Shape.mem_directory (h : Shape frames s T) {virt t : ℕ}
    (ht : T 1 (slot virt 2) = some t) (hlt : virt < identityLimit) :
    s.mem (t + 8 * tableIndex virt 1) = Paging.identityEntry (slot virt 1) := by
  rw [slot_succ] at ht
  rw [tableIndex_eq]
  exact Option.some.inj ((word_eq ht).symm.trans (h.directory (slot_of_lt.mpr hlt)))

/-- The tables for an address of the identity map exist down to the first page directory. -/
lemma Shape.isSome_of_virt_lt (h : Shape frames s T) {virt : ℕ} (hlt : virt < identityLimit)
    {level : ℕ} (hlevel : level = 1 ∨ level = 2) :
    (T level (slot virt (level + 1))).isSome := by
  have h30 := identityLimit_eq
  obtain ⟨h1, h2, -⟩ := h.isSome_of_lt
  have hzero : slot virt 2 = 0 ∧ slot virt 3 = 0 := by
    rw [slot, slot]
    omega
  rcases hlevel with rfl | rfl
  · rwa [hzero.1]
  · rwa [hzero.2]

/-- A missing table leaves its addresses unmapped. -/
lemma Shape.target_of_none (h : Shape frames s T) {virt level : ℕ} (hlevel : level < 3)
    (hnone : T level (slot virt (level + 1)) = none) (hdir : level ≠ 0 ∨ identityLimit ≤ virt) :
    identityLimit ≤ virt ∧ s.target T virt = none := by
  have hle : identityLimit ≤ virt := by
    refine not_lt.mp fun hlt => ?_
    rcases hdir with hne | hle
    · have hupper : level = 1 ∨ level = 2 := by omega
      have := h.isSome_of_virt_lt hlt hupper
      rw [hnone] at this
      cases this
    · exact absurd hlt (not_lt.mpr hle)
  have habsent := h.absent_below virt level (by omega) hnone
  rw [slot_succ, slot_zero] at habsent
  refine ⟨hle, ?_⟩
  rw [Paging.target, if_neg (not_lt.mpr hle), Paging.pageAt, Paging.word, habsent]
  rfl

/-- **A translation returns the target of its address.** -/
lemma translateLevels_eq (h : Shape frames s T) (hf : FreshFrames frames) (virt : ℕ) :
    ∀ level t, level ≤ 3 → T level (slot virt (level + 1)) = some t →
      s.translateLevels virt level t = .ok (s.target T virt) := by
  intro level
  induction level with
  | zero =>
    intro t _ ht
    have hle : ¬ virt < identityLimit := by
      intro hlt
      rw [h.noTable (slot_of_lt.mpr hlt)] at ht
      cases ht
    have hoff : virt &&& 0xFFF = virt % 4096 := Nat.and_two_pow_sub_one_eq_mod virt 12
    have hword : s.word T 0 (virt / 4096) = some (s.mem (t + 8 * tableIndex virt 0)) := by
      rw [tableIndex_eq]
      exact word_eq (by rwa [slot_succ, slot_zero] at ht)
    rw [Paging.translateLevels, readEntry_eq h hf ht, Exec.bind_ok, Paging.target, if_neg hle,
      Paging.pageAt, hword, Option.bind_some, Paging.leafPage, hoff]
    split_ifs <;> rfl
  | succ level ih =>
    intro t hle ht
    rw [Paging.translateLevels, readEntry_eq h hf ht, Exec.bind_ok]
    by_cases hdir : level ≠ 0 ∨ identityLimit ≤ virt
    · have hpoints := h.points ht hdir
      cases hchild : T level (slot virt (level + 1)) with
      | none =>
        rw [hchild, points_none] at hpoints
        rw [if_pos hpoints, (h.target_of_none (by omega) hchild hdir).2]
        rfl
      | some g =>
        rw [hchild] at hpoints
        obtain ⟨hp, hh, ha⟩ := hpoints
        rw [if_neg hp, if_neg (by tauto), ha]
        exact ih g (by omega) hchild
    · -- the large page of the identity map
      obtain ⟨rfl, hlt⟩ : level = 0 ∧ virt < identityLimit := by omega
      obtain ⟨hp, hh, ha⟩ := identityEntry_and (slot_of_lt.mpr hlt)
      rw [h.mem_directory ht hlt, if_neg hp, if_pos ⟨by norm_num, hh⟩, ha, Paging.target,
        if_pos hlt]
      exact congrArg (fun x => Except.ok (some x)) (large_page virt hlt)

/-- The root is the first table of every walk below the end of the lower half. -/
lemma Shape.root_slot (h : Shape frames s T) {virt : ℕ} (hvirt : virt < 2 ^ 48) :
    T 3 (slot virt 4) = some (s.cr3 &&& addrMask) := by
  rw [slot, Nat.div_eq_of_lt (by simpa using hvirt)]
  exact h.root

/-- **The live translation returns the target of its address.** -/
lemma translate_eq (h : Shape frames s T) (hf : FreshFrames frames) {virt : ℕ}
    (hvirt : virt < 2 ^ 48) : s.translate virt = .ok (s.target T virt) :=
  translateLevels_eq h hf virt 3 _ le_rfl (h.root_slot hvirt)

/-! ## Descending to a page table -/

/-- The outcome of a descent: the page table of the address, a large page in the identity map, or
no frame for a missing table above it. -/
def Arrived (T : TableTree) (virt : ℕ) : Except MapError ℕ → Prop
  | .ok table => T 0 (slot virt 1) = some table
  | .error .hugePage => virt < identityLimit
  | .error .outOfFrames => identityLimit ≤ virt

/-- The entries above a page, from the given level down, let ring 3 through. -/
def Paging.OpenTo (s : Paging) (T : TableTree) (virt level : ℕ) : Prop :=
  ∀ l < level, s.UserAt T (l + 1) (slot virt (l + 1))

/-- One more open entry. -/
lemma Paging.OpenTo.succ {virt level : ℕ} (h : s.OpenTo T virt level)
    (hu : s.UserAt T (level + 1) (slot virt (level + 1))) : s.OpenTo T virt (level + 1) := by
  intro l hl
  rcases Nat.lt_succ_iff_lt_or_eq.mp hl with hlt | rfl
  · exact h l hlt
  · exact hu

/-- What one level of a descent comes to: it goes on in the table below or ends with an error. -/
inductive Level (frames : ℕ → Option ℕ) (virt : ℕ) (userPage : Bool) (level t : ℕ) (s : Paging)
    (T : TableTree) : Exec Unit (Paging × Except MapError ℕ) → Prop
  /-- The entry of the table below is opened to ring 3. -/
  | opened {g : ℕ} (huser : userPage = true) (hdir : level ≠ 0 ∨ identityLimit ≤ virt)
      (hchild : T level (slot virt (level + 1)) = some g) :
      Level frames virt userPage level t s T (Paging.descend frames virt userPage level g
        (s.setWord t (slot virt (level + 1) % 512)
          (s.mem (t + 8 * (slot virt (level + 1) % 512)) ||| user)))
  /-- The entry of the table below is as it has to be. -/
  | entered {g : ℕ} (hdir : level ≠ 0 ∨ identityLimit ≤ virt)
      (hchild : T level (slot virt (level + 1)) = some g)
      (hopen : userPage = true → s.mem (t + 8 * (slot virt (level + 1) % 512)) &&& user ≠ 0) :
      Level frames virt userPage level t s T (Paging.descend frames virt userPage level g s)
  /-- The table below is missing and is created. -/
  | linked {g : ℕ} (hdir : level ≠ 0 ∨ identityLimit ≤ virt)
      (hchild : T level (slot virt (level + 1)) = none) (hg : frames s.allocs = some g) :
      Level frames virt userPage level t s T (Paging.descend frames virt userPage level g
        ((s.zeroed g).setWord t (slot virt (level + 1) % 512) (g ||| Paging.newTable userPage)))
  /-- The table below is missing, and there is no frame for it. -/
  | refused (hdir : level ≠ 0 ∨ identityLimit ≤ virt)
      (hchild : T level (slot virt (level + 1)) = none) (hg : frames s.allocs = none) :
      Level frames virt userPage level t s T
        (.ok ({ s with allocs := s.allocs + 1 }, .error .outOfFrames))
  /-- The entry maps a large page of the identity map. -/
  | large (hlevel : level = 0) (hlt : virt < identityLimit) :
      Level frames virt userPage level t s T (.ok (s, .error .hugePage))

/-- **What one level of a descent comes to.** -/
lemma descend_level (h : Shape frames s T) (hf : FreshFrames frames) (virt : ℕ) (userPage : Bool)
    {level t : ℕ} (ht : T (level + 1) (slot virt (level + 1 + 1)) = some t) :
    Level frames virt userPage level t s T
      (Paging.descend frames virt userPage (level + 1) t s) := by
  rw [Paging.descend, readEntry_eq h hf ht, Exec.bind_ok]
  by_cases hdir : level ≠ 0 ∨ identityLimit ≤ virt
  · have hpoints := h.points ht hdir
    cases hchild : T level (slot virt (level + 1)) with
    | some g =>
      rw [hchild, points_some] at hpoints
      obtain ⟨hp, hh, ha⟩ := hpoints
      rw [if_pos hp, if_neg (by tauto), ha]
      split_ifs with huser
      · rw [tableIndex_eq, writeEntry_eq (h.low hf ht)]
        exact .opened huser.1 hdir hchild
      · refine .entered hdir hchild fun hpage hno => huser ⟨hpage, ?_⟩
        rwa [tableIndex_eq]
    | none =>
      rw [hchild, points_none] at hpoints
      rw [if_neg (not_not.mpr hpoints)]
      cases hg : frames s.allocs with
      | none =>
        rw [allocTable_none hg]
        exact .refused hdir hchild hg
      | some g =>
        rw [allocTable_some hf hg, Exec.bind_ok]
        simp only [tableIndex_eq, writeEntry_eq (h.low hf ht), Exec.bind_ok]
        exact .linked hdir hchild hg
  · obtain ⟨rfl, hlt⟩ : level = 0 ∧ virt < identityLimit := by omega
    obtain ⟨hp, hh, -⟩ := identityEntry_and (slot_of_lt.mpr hlt)
    rw [h.mem_directory ht hlt, if_pos hp, if_pos ⟨by norm_num, hh⟩]
    exact .large rfl hlt

/-- The entry above a page table of its own lies outside of the identity map. -/
lemma slot_of_dir {virt level : ℕ} (hdir : level ≠ 0 ∨ identityLimit ≤ virt) :
    level ≠ 0 ∨ 512 ≤ slot virt (level + 1) := by
  refine or_iff_not_imp_left.mpr fun h0 => ?_
  obtain rfl := not_not.mp h0
  exact not_lt.mp fun hlt =>
    absurd (slot_of_lt.mp hlt) (not_lt.mpr (hdir.resolve_left (not_not.mpr rfl)))

/-- **One level of a descent** either goes on in the table below, above which the entry is open if
the page is for ring 3, or it ends with an error. -/
lemma descend_succ (h : Shape frames s T) (hf : FreshFrames frames) (virt : ℕ) (userPage : Bool)
    {level t : ℕ} (hle : level + 1 ≤ 3) (ht : T (level + 1) (slot virt (level + 1 + 1)) = some t) :
    (∃ s₁ T₁ g, Relation.ReflTransGen (Grow frames userPage) (s, T) (s₁, T₁) ∧
      T₁ level (slot virt (level + 1)) = some g ∧
      (userPage = true → s₁.UserAt T₁ (level + 1) (slot virt (level + 1))) ∧
      Paging.descend frames virt userPage (level + 1) t s =
        Paging.descend frames virt userPage level g s₁) ∨
    ∃ s' T' e, Paging.descend frames virt userPage (level + 1) t s = .ok (s', .error e) ∧
      Relation.ReflTransGen (Grow frames userPage) (s, T) (s', T') ∧
      Arrived T' virt (.error e) := by
  have ht' := ht
  rw [slot_succ] at ht'
  have hpresent : ∀ {g}, level ≠ 0 ∨ identityLimit ≤ virt →
      T level (slot virt (level + 1)) = some g →
      s.mem (t + 8 * (slot virt (level + 1) % 512)) &&& present ≠ 0 := by
    intro g hdir hchild
    have hpoints := h.points ht hdir
    rw [tableIndex_eq, hchild] at hpoints
    exact hpoints.1
  generalize Paging.descend frames virt userPage (level + 1) t s = run,
    descend_level h hf virt userPage ht = hlevel
  cases hlevel with
  | opened huser hdir hchild =>
    have hstep : Grow frames userPage (s, T) _ :=
      .loosen huser ht' (Option.isSome_of_eq_some hchild)
    refine .inl ⟨_, T, _, .single hstep, hchild, fun _ => ?_, rfl⟩
    rw [userAt_setWord h.toPlaced hf ht', if_pos ⟨rfl, rfl⟩]
    exact userEntry_or_user (hpresent hdir hchild)
  | entered hdir hchild hopen =>
    exact .inl ⟨s, T, _, .refl, hchild,
      fun hpage => ⟨_, word_eq ht', hpresent hdir hchild, hopen hpage⟩, rfl⟩
  | linked hdir hchild hg =>
    have hstep : Grow frames userPage (s, T) _ := .link ht' hchild (slot_of_dir hdir) hg
    refine .inl ⟨_, _, _, .single hstep, if_pos ⟨rfl, rfl⟩, fun hpage => ?_, rfl⟩
    refine ⟨_, (word_insert h.toPlaced hf ht' hg _ _).trans (if_pos ⟨rfl, rfl⟩), ?_⟩
    rw [hpage]
    exact userEntry_newTable (hf.aligned hg)
  | refused hdir hchild hg =>
    exact .inr ⟨_, T, _, rfl, .single (.refuse hg),
      (h.target_of_none (by omega) hchild hdir).1⟩
  | large hlevel hlt => exact .inr ⟨s, T, _, rfl, .refl, hlt⟩

/-- **A descent is a sequence of steps that ends at the page table or with an error.**  Above a page
table reached for ring 3 every entry is open to it. -/
lemma descend_eq (hf : FreshFrames frames) (virt : ℕ) (userPage : Bool) :
    ∀ (level t : ℕ) (s : Paging) (T : TableTree), Shape frames s T → level ≤ 3 →
      T level (slot virt (level + 1)) = some t →
      ∃ s' T' r, Paging.descend frames virt userPage level t s = .ok (s', r) ∧
        Relation.ReflTransGen (Grow frames userPage) (s, T) (s', T') ∧ Arrived T' virt r ∧
        (userPage = true → r.isOk → s'.OpenTo T' virt level) := by
  intro level
  induction level with
  | zero =>
    intro t s T _ _ ht
    exact ⟨s, T, .ok t, rfl, .refl, ht, fun _ _ l hl => absurd hl (Nat.not_lt_zero l)⟩
  | succ level ih =>
    intro t s T h hle ht
    rcases descend_succ h hf virt userPage hle ht with
      ⟨s₁, T₁, g, hgrows₁, hg, hu, hrun₁⟩ | ⟨s', T', e, hrun, hgrows, har⟩
    · have h₁ := shape_of_grows hgrows₁ hf h
      obtain ⟨s', T', r, hrun, hgrows, har, hopen⟩ := ih g s₁ T₁ h₁ (by omega) hg
      exact ⟨s', T', r, hrun₁.trans hrun, hgrows₁.trans hgrows, har, fun hpage hr =>
        (hopen hpage hr).succ (userAt_of_grows hgrows hf h₁ (hu hpage))⟩
    · exact ⟨s', T', _, hrun, hgrows, har, fun _ hr => nomatch hr⟩

/-! ## Finding a page table -/

/-- **A search returns the page table of its address, if there is one.** -/
lemma findTable_eq (h : Shape frames s T) (hf : FreshFrames frames) (virt : ℕ) :
    ∀ level t, level ≤ 3 → T level (slot virt (level + 1)) = some t →
      s.findTable virt level t = .ok (T 0 (slot virt 1)) := by
  intro level
  induction level with
  | zero => exact fun t _ ht => congrArg Except.ok ht.symm
  | succ level ih =>
    intro t hle ht
    rw [Paging.findTable, readEntry_eq h hf ht, Exec.bind_ok]
    by_cases hdir : level ≠ 0 ∨ identityLimit ≤ virt
    · have hpoints := h.points ht hdir
      cases hchild : T level (slot virt (level + 1)) with
      | none =>
        rw [hchild, points_none] at hpoints
        rw [if_pos (Or.inl hpoints), h.absent_below virt level (by omega) hchild]
        rfl
      | some g =>
        rw [hchild, points_some] at hpoints
        obtain ⟨hp, hh, ha⟩ := hpoints
        rw [if_neg (by tauto), ha]
        exact ih g (by omega) hchild
    · obtain ⟨rfl, hlt⟩ : level = 0 ∧ virt < identityLimit := by omega
      obtain ⟨hp, hh, -⟩ := identityEntry_and (slot_of_lt.mpr hlt)
      rw [h.mem_directory ht hlt, if_pos (Or.inr hh), h.noTable (slot_of_lt.mpr hlt)]
      rfl

end ZiranOS
