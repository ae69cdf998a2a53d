import ZiranOS.Paging.Permission
import ZiranOS.Paging.Refinement

/-!
# What a failed mapping leaves behind

A walk that maps a page opens the entries above the page to ring 3 while it goes down, before it
knows whether it will arrive.  When it stops half-way the translation of every address is as before,
but the entries it has opened stay open: nothing undoes them.

`descend_word` says what a walk does to every entry that was present, whether the walk arrives or
not.  The entries and tables of the memory are those of the tree (`isTable_iff`, `mem_walk_iff`), so
`permissionsKept_iff` can speak of the tables as the processor finds them: a failed call leaves no
trace exactly if the entries of its walk, as far as they are there, were open before.
-/

namespace ZiranOS

open ProgLib

variable {frames : ℕ → Option ℕ} {s s' : Paging} {T T' : TableTree}

/-! ## The entries of a walk -/

/-- The `user` flag of a present entry that has it. -/
lemma or_user_eq {w : ℕ} (hw : w &&& user ≠ 0) : w ||| user = w := by
  have huser : user = 2 ^ 2 := by decide
  rw [huser] at hw ⊢
  have hbit : w.testBit 2 = true := by
    by_contra hno
    rw [Bool.not_eq_true] at hno
    exact hw (by rw [Nat.and_two_pow, hno, Bool.toNat_false, Nat.zero_mul])
  refine Nat.eq_of_testBit_eq fun j => ?_
  rw [Nat.testBit_or, Nat.testBit_two_pow]
  by_cases hj : 2 = j
  · rw [← hj, hbit, Bool.true_or]
  · rw [decide_eq_false hj, Bool.or_false]

/-- An entry as a walk for `virt` from the given level on leaves it. -/
def loosened (userPage : Bool) (virt level l n w : ℕ) : ℕ :=
  if userPage = true ∧ 0 < l ∧ l ≤ level ∧ n = slot virt l ∧ w &&& huge = 0 then w ||| user else w

/-- A walk that starts one level higher treats the other entries alike. -/
lemma loosened_succ {userPage : Bool} {virt level l n w : ℕ}
    (hne : ¬ (l = level + 1 ∧ n = slot virt (level + 1))) :
    loosened userPage virt (level + 1) l n w = loosened userPage virt level l n w := by
  unfold loosened
  refine if_congr ⟨?_, ?_⟩ rfl rfl
  · rintro ⟨huser, hpos, hle, rfl, hh⟩
    rcases Nat.le_succ_iff.mp hle with hle | rfl
    · exact ⟨huser, hpos, hle, rfl, hh⟩
    · exact absurd ⟨rfl, rfl⟩ hne
  · rintro ⟨huser, hpos, hle, hn, hh⟩
    exact ⟨huser, hpos, by omega, hn, hh⟩

/-- A walk from below an entry leaves it. -/
lemma loosened_above {userPage : Bool} {virt level n w : ℕ} :
    loosened userPage virt level (level + 1) n w = w :=
  if_neg fun h => Nat.not_succ_le_self level h.2.2.1

/-- A walk opens the entry of the table it goes on with. -/
lemma loosened_self {userPage : Bool} {virt level w : ℕ} (hh : w &&& huge = 0) :
    loosened userPage virt (level + 1) (level + 1) (slot virt (level + 1)) w =
      if userPage = true then w ||| user else w :=
  if_congr ⟨And.left, fun huser => ⟨huser, Nat.succ_pos _, le_rfl, rfl, hh⟩⟩ rfl rfl

/-- A walk that ends above the tables of the lower levels opens none of their entries. -/
lemma loosened_of_none {userPage : Bool} {virt level l n w : ℕ} (hw : s.word T l n = some w)
    (hnone : ∀ l ≤ level, 0 < l → T l (slot virt (l + 1)) = none) :
    loosened userPage virt level l n w = w := by
  refine if_neg ?_
  rintro ⟨-, hpos, hle, rfl, -⟩
  rw [Paging.word, ← slot_succ, hnone l hle hpos] at hw
  cases hw

/-- More tables leave the entries of the ones that are there. -/
lemma word_tableInsert {level n g l m w : ℕ} (hnone : T level n = none)
    (hw : s.word T l m = some w) (s' : Paging) :
    s'.word (T.insert level n g) l m = s'.word T l m := by
  rw [Paging.word, Paging.word, TableTree.insert, if_neg]
  rintro ⟨rfl, hq⟩
  rw [Paging.word, hq, hnone] at hw
  cases hw

/-- What a walk leaves of the tables: it opens the entries it has passed, and it fails only for an
address without a page table. -/
structure Descended (userPage : Bool) (virt level : ℕ) (s : Paging) (T : TableTree) (s' : Paging)
    (r : Except MapError ℕ) : Prop where
  /-- The entries that were present. -/
  word : ∀ {l n w}, s.word T l n = some w → w &&& present ≠ 0 →
    s'.word T l n = some (loosened userPage virt level l n w)
  /-- A failure. -/
  error : ∀ {e}, r = .error e → T 0 (slot virt 1) = none

/-- **What a walk does to the entries that were present**, whether it arrives or not. -/
lemma descend_word (hf : FreshFrames frames) (virt : ℕ) (userPage : Bool) :
    ∀ (level t : ℕ) (s : Paging) (T : TableTree), Shape frames s T → level ≤ 3 →
      T level (slot virt (level + 1)) = some t → ∀ s' r,
      Paging.descend frames virt userPage level t s = .ok (s', r) →
      Descended userPage virt level s T s' r := by
  intro level
  induction level with
  | zero =>
    intro t s T _ _ _ s' r hrun
    obtain ⟨rfl, rfl⟩ := Prod.mk.inj (Except.ok.inj hrun)
    refine ⟨fun hw _ => hw.trans (congrArg some (if_neg ?_).symm), nofun⟩
    rintro ⟨-, hpos, hle, -⟩
    omega
  | succ level ih =>
    intro t s T h hle ht s' r hrun
    have ht' := ht
    rw [slot_succ] at ht'
    have hentry := h.points ht
    rw [tableIndex_eq] at hentry
    have hlevel := descend_level h hf virt userPage ht
    generalize Paging.descend frames virt userPage (level + 1) t s = run at hrun hlevel
    cases hlevel with
    | @opened g huser hdir hchild =>
      have hstep : Grow frames userPage (s, T) _ :=
        .loosen huser ht' (Option.isSome_of_eq_some hchild)
      have hdown := ih g _ T (hstep.shape hf h) (by omega) hchild s' r hrun
      rw [hchild] at hentry
      obtain ⟨hp, hh, -⟩ := hentry hdir
      refine ⟨fun {l n w} hw hpresent => ?_, hdown.error⟩
      by_cases hself : l = level + 1 ∧ n = slot virt (level + 1)
      · obtain ⟨rfl, rfl⟩ := hself
        obtain rfl := Option.some.inj ((word_eq ht').symm.trans hw)
        rw [loosened_self hh, if_pos huser]
        refine (hdown.word ?_ (userEntry_or_user hp).1).trans (congrArg some loosened_above)
        rw [word_setWord h.toPlaced hf ht', if_pos ⟨rfl, rfl⟩]
      · rw [loosened_succ hself]
        refine hdown.word ?_ hpresent
        rw [word_setWord h.toPlaced hf ht', if_neg hself]
        exact hw
    | @entered g hdir hchild hopen =>
      have hdown := ih g s T h (by omega) hchild s' r hrun
      rw [hchild] at hentry
      obtain ⟨hp, hh, -⟩ := hentry hdir
      refine ⟨fun {l n w} hw hpresent => ?_, hdown.error⟩
      rw [hdown.word hw hpresent]
      by_cases hself : l = level + 1 ∧ n = slot virt (level + 1)
      · obtain ⟨rfl, rfl⟩ := hself
        obtain rfl := Option.some.inj ((word_eq ht').symm.trans hw)
        rw [loosened_self hh, loosened_above]
        split_ifs with huser
        · rw [or_user_eq (hopen huser)]
        · rfl
      · rw [loosened_succ hself]
    | @linked g hdir hchild hg =>
      have hstep : Grow frames userPage (s, T) _ := .link ht' hchild (slot_of_dir hdir) hg
      have hdown := ih g _ _ (hstep.shape hf h) (by omega) (if_pos ⟨rfl, rfl⟩) s' r hrun
      rw [hchild, points_none] at hentry
      refine ⟨fun {l n w} hw hpresent => ?_, fun he => ?_⟩
      · -- the linking entry was not present
        have hself : ¬ (l = level + 1 ∧ n = slot virt (level + 1)) := by
          rintro ⟨rfl, rfl⟩
          obtain rfl := Option.some.inj ((word_eq ht').symm.trans hw)
          exact hpresent (hentry hdir)
        have hnew : ¬ (l = level ∧ n / 512 = slot virt (level + 1)) := by
          rintro ⟨rfl, hq⟩
          rw [Paging.word, hq, hchild] at hw
          cases hw
        rw [loosened_succ hself, ← word_tableInsert hchild hw]
        refine hdown.word ?_ hpresent
        rw [word_insert h.toPlaced hf ht' hg, if_neg hself, if_neg hnew]
        exact hw
      · exact h.absent_below virt level (by omega) hchild
    | refused hdir hchild hg =>
      obtain ⟨rfl, rfl⟩ := Prod.mk.inj (Except.ok.inj hrun)
      have habsent := h.absent_of_le virt level (by omega) hchild
      rw [hchild, points_none] at hentry
      refine ⟨fun {l n w} hw hpresent => ?_, fun _ => habsent 0 (Nat.zero_le _)⟩
      have hself : ¬ (l = level + 1 ∧ n = slot virt (level + 1)) := by
        rintro ⟨rfl, rfl⟩
        obtain rfl := Option.some.inj ((word_eq ht').symm.trans hw)
        exact hpresent (hentry hdir)
      rw [loosened_succ hself, loosened_of_none hw fun l hl _ => habsent l hl]
      exact hw
    | large hlevel hlt =>
      obtain ⟨rfl, rfl⟩ := Prod.mk.inj (Except.ok.inj hrun)
      subst hlevel
      have hslot := slot_of_lt.mpr hlt
      refine ⟨fun {l n w} hw hpresent => hw.trans (congrArg some (if_neg ?_).symm),
        fun _ => h.noTable hslot⟩
      rintro ⟨-, hpos, hle, rfl, hh⟩
      obtain rfl : l = 1 := by omega
      -- the entry of a large page is passed by
      rw [h.directory hslot] at hw
      obtain rfl := Option.some.inj hw
      exact (identityEntry_and hslot).2.1 hh

/-! ## The tables of the memory -/

/-- The entries of a table of the tree. -/
lemma word_entryAt {level q t index : ℕ} (ht : T level q = some t) (hindex : index < 512) :
    s.word T level (q * 512 + index) = some (s.entryAt t index) := by
  have hdiv : (q * 512 + index) / 512 = q := by omega
  have hmod : (q * 512 + index) % 512 = index := by omega
  have hword := word_eq (s := s) (n := q * 512 + index) (by rwa [hdiv])
  rwa [hmod] at hword

/-- An entry that leads on leads to the table it governs. -/
lemma Shape.table_of_entry (h : Shape frames s T) {level q table index : ℕ}
    (hq : T (level + 1) q = some table) (hindex : index < 512)
    (hpresent : s.entryAt table index &&& present ≠ 0)
    (hsmall : ¬ (level + 1 ≤ 2 ∧ s.entryAt table index &&& huge ≠ 0)) :
    T level (q * 512 + index) = some (s.entryAt table index &&& addrMask) := by
  have hword := word_entryAt (s := s) hq hindex
  have hdir : level ≠ 0 ∨ 512 ≤ q * 512 + index := by
    by_contra hno
    obtain ⟨rfl, hlt⟩ : level = 0 ∧ q * 512 + index < 512 := by omega
    -- an entry of the identity map has no table
    have hentry := Option.some.inj (hword.symm.trans (h.directory hlt))
    exact hsmall ⟨by norm_num, hentry ▸ (identityEntry_and hlt).2.1⟩
  have hpoints := h.link hword hdir
  cases hchild : T level (q * 512 + index) with
  | none =>
    rw [hchild, points_none] at hpoints
    exact absurd hpoints hpresent
  | some t =>
    rw [hchild, points_some] at hpoints
    exact congrArg some hpoints.2.2.symm

/-- The table above a table has the entry that leads to it. -/
lemma Shape.entry_of_table (h : Shape frames s T) {level n t : ℕ} (hlevel : level < 3)
    (ht : T level n = some t) :
    ∃ p, T (level + 1) (n / 512) = some p ∧ Points (s.entryAt p (n % 512)) (some t) := by
  obtain ⟨p, hp⟩ := Option.isSome_iff_exists.mp (h.parent hlevel (Option.isSome_of_eq_some ht))
  have hdir : level ≠ 0 ∨ 512 ≤ n := by
    by_contra hno
    obtain ⟨rfl, hlt⟩ : level = 0 ∧ n < 512 := by omega
    rw [h.noTable hlt] at ht
    cases ht
  have hpoints := h.link (word_eq hp) hdir
  rw [ht] at hpoints
  exact ⟨p, hp, hpoints⟩

/-- **The tables that a walk can reach are those of the tree.** -/
lemma Shape.isTable_iff (h : Shape frames s T) {level table : ℕ} :
    s.IsTable level table ↔ ∃ q, T level q = some table := by
  constructor
  · intro htable
    induction htable with
    | root => exact ⟨0, h.root⟩
    | next _ hindex hpresent hsmall ih =>
      obtain ⟨q, hq⟩ := ih
      exact ⟨_, h.table_of_entry hq hindex hpresent hsmall⟩
  · -- every table is governed by an entry of the level above, up to the root
    have hdown : ∀ k ≤ 3, ∀ {n t : ℕ}, T (3 - k) n = some t → s.IsTable (3 - k) t := by
      intro k
      induction k with
      | zero =>
        intro _ n t ht
        obtain ⟨-, rfl⟩ := (h.top (Option.isSome_of_eq_some ht)).resolve_left (by omega)
        obtain rfl := Option.some.inj (h.root.symm.trans ht)
        exact .root
      | succ k ih =>
        intro hk n t ht
        obtain ⟨level, hlevel⟩ : ∃ level, 3 - k = level + 1 := ⟨3 - k - 1, by omega⟩
        have hsub : 3 - (k + 1) = level := by omega
        rw [hlevel] at ih
        rw [hsub] at ht ⊢
        obtain ⟨p, hp, hpresent, hh, haddr⟩ := h.entry_of_table (by omega) ht
        have htable := Paging.IsTable.next (ih (by omega) hp) (Nat.mod_lt n (by norm_num))
          hpresent fun hlarge => hlarge.2 hh
        rwa [haddr] at htable
    rintro ⟨q, ht⟩
    have hle : level ≤ 3 := by
      have := h.top (Option.isSome_of_eq_some ht)
      omega
    obtain ⟨k, hk, rfl⟩ : ∃ k ≤ 3, level = 3 - k := ⟨3 - level, by omega, by omega⟩
    exact hdown k hk ht

/-- **The entries of a walk are those of the tables above its address.** -/
lemma Shape.mem_walkLevels_iff (h : Shape frames s T) (virt entry : ℕ) :
    ∀ level t, level ≤ 3 → T level (slot virt (level + 1)) = some t →
      (entry ∈ s.walkLevels virt level t ↔
        ∃ l ≤ level, s.word T l (slot virt l) = some entry) := by
  intro level
  induction level with
  | zero =>
    intro t _ ht
    rw [slot_succ] at ht
    rw [Paging.walkLevels, List.mem_singleton, tableIndex_eq]
    constructor
    · rintro rfl
      exact ⟨0, le_rfl, word_eq ht⟩
    · rintro ⟨l, hl, hw⟩
      obtain rfl := Nat.le_zero.mp hl
      exact Option.some.inj (hw.symm.trans (word_eq ht))
  | succ level ih =>
    intro t hle ht
    have ht' := ht
    rw [slot_succ] at ht'
    have hword : s.word T (level + 1) (slot virt (level + 1)) =
        some (s.entryAt t (tableIndex virt (level + 1))) := by
      rw [tableIndex_eq]
      exact word_eq ht'
    have hsplit : (∃ l ≤ level + 1, s.word T l (slot virt l) = some entry) ↔
        entry = s.entryAt t (tableIndex virt (level + 1)) ∨
          ∃ l ≤ level, s.word T l (slot virt l) = some entry := by
      constructor
      · rintro ⟨l, hl, hw⟩
        rcases Nat.le_succ_iff.mp hl with hl | rfl
        · exact .inr ⟨l, hl, hw⟩
        · exact .inl (Option.some.inj (hw.symm.trans hword))
      · rintro (rfl | ⟨l, hl, hw⟩)
        · exact ⟨level + 1, le_rfl, hword⟩
        · exact ⟨l, by omega, hw⟩
    rw [hsplit]
    cases hchild : T level (slot virt (level + 1)) with
    | none =>
      -- below a missing table there are no entries
      have hno : ¬ ∃ l ≤ level, s.word T l (slot virt l) = some entry := by
        rintro ⟨l, hl, hw⟩
        rw [Paging.word, ← slot_succ, h.absent_of_le virt level (by omega) hchild l hl] at hw
        cases hw
      rw [or_iff_left hno, Paging.walkLevels, if_pos, List.mem_singleton]
      by_cases hdir : level ≠ 0 ∨ identityLimit ≤ virt
      · have hpoints := h.points ht hdir
        rw [hchild, points_none] at hpoints
        exact .inl hpoints
      · obtain ⟨rfl, hlt⟩ : level = 0 ∧ virt < identityLimit := by omega
        refine .inr ⟨by norm_num, ?_⟩
        rw [Paging.entryAt, h.mem_directory ht hlt]
        exact (identityEntry_and (slot_of_lt.mpr hlt)).2.1
    | some g =>
      have hdir : level ≠ 0 ∨ identityLimit ≤ virt := by
        by_contra hno
        obtain ⟨rfl, hlt⟩ : level = 0 ∧ virt < identityLimit := by omega
        rw [h.noTable (slot_of_lt.mpr hlt)] at hchild
        cases hchild
      have hpoints := h.points ht hdir
      rw [hchild, points_some] at hpoints
      obtain ⟨hp, hh, haddr⟩ := hpoints
      rw [walkLevels_succ hp fun hlarge => hlarge.2 hh, List.mem_cons]
      refine or_congr Iff.rfl ?_
      rw [Paging.entryAt, haddr]
      exact ih g (by omega) hchild

/-! ## Addresses with the same walk -/

/-- Bits 47 to 12 of an address select the entries of its walk. -/
lemma tableIndex_mod (virt : ℕ) {level : ℕ} (hle : level ≤ 3) :
    tableIndex (virt % 2 ^ 48) level = tableIndex virt level := by
  rw [tableIndex_eq, tableIndex_eq, slot, slot]
  interval_cases level <;> norm_num <;> omega

/-- Addresses that select the same entries have the same walk. -/
lemma walkLevels_congr {virt virt' : ℕ}
    (h : ∀ level ≤ 3, tableIndex virt level = tableIndex virt' level) :
    ∀ level ≤ 3, ∀ table, s.walkLevels virt level table = s.walkLevels virt' level table := by
  intro level
  induction level with
  | zero =>
    intro hle table
    rw [Paging.walkLevels, Paging.walkLevels, h 0 hle]
  | succ level ih =>
    intro hle table
    rw [Paging.walkLevels, Paging.walkLevels, h (level + 1) hle]
    simp only [ih (by omega)]

/-- Addresses that select the same entries have the same descent. -/
lemma descend_congr {virt virt' : ℕ}
    (h : ∀ level ≤ 3, tableIndex virt level = tableIndex virt' level) (userPage : Bool) :
    ∀ level ≤ 3, ∀ table s, Paging.descend frames virt userPage level table s =
      Paging.descend frames virt' userPage level table s := by
  intro level
  induction level with
  | zero => exact fun _ table s => rfl
  | succ level ih =>
    intro hle table s
    rw [Paging.descend, Paging.descend, h (level + 1) hle]
    simp only [ih (by omega)]

/-- Addresses that select the same entries have the same page table. -/
lemma findTable_congr {virt virt' : ℕ}
    (h : ∀ level ≤ 3, tableIndex virt level = tableIndex virt' level) :
    ∀ level ≤ 3, ∀ table, s.findTable virt level table = s.findTable virt' level table := by
  intro level
  induction level with
  | zero => exact fun _ table => rfl
  | succ level ih =>
    intro hle table
    rw [Paging.findTable, Paging.findTable, h (level + 1) hle]
    simp only [ih (by omega)]

/-- The page of an address in the lower half selects the entries of the address. -/
lemma tableIndex_page_mod (virt : ℕ) (level : ℕ) (hle : level ≤ 3) :
    tableIndex (virt / 4096 * 4096) level = tableIndex (virt % 2 ^ 48 / 4096 * 4096) level := by
  rw [tableIndex_of_page, tableIndex_of_page, tableIndex_mod virt hle]

/-- A mapping knows of the lower half only. -/
lemma mapInner_mod {virt : ℕ} (hvirt : virt < 2 ^ 64) (phys flags : ℕ) (userPage : Bool) :
    s.mapInner frames virt phys flags userPage =
      s.mapInner frames (virt % 2 ^ 48) phys flags userPage := by
  have hdescend : ∀ table s, Paging.descend frames (virt / 4096 * 4096) userPage 3 table s =
      Paging.descend frames (virt % 2 ^ 48 / 4096 * 4096) userPage 3 table s :=
    descend_congr (tableIndex_page_mod virt) userPage 3 le_rfl
  unfold Paging.mapInner
  simp only [and_not64_frame hvirt, and_not64_frame (x := virt % 2 ^ 48) (by omega), hdescend,
    tableIndex_page_mod virt 0 (Nat.zero_le 3)]

/-- The walk of a mapping is the walk for its address. -/
lemma descend_page (virt : ℕ) (userPage : Bool) (table : ℕ) (s : Paging) :
    Paging.descend frames (virt / 4096 * 4096) userPage 3 table s =
      Paging.descend frames virt userPage 3 table s :=
  descend_congr (fun level _ => tableIndex_of_page virt level) userPage 3 le_rfl table s

/-- A mapping whose walk fails. -/
lemma mapInner_of_error {s₁ : Paging} {virt phys flags : ℕ} {userPage : Bool} {e : MapError}
    (hvirt : virt < 2 ^ 64) (hphys : phys < 2 ^ 64)
    (hwalk : Paging.descend frames virt userPage 3 (s.cr3 &&& addrMask) s = .ok (s₁, .error e)) :
    s.mapInner frames virt phys flags userPage = .ok (s₁, .error e) := by
  unfold Paging.mapInner
  simp only [and_not64_frame hvirt, and_not64_frame hphys, descend_page, hwalk, Exec.bind_ok,
    Exec.pure_eq_ok]

/-- A mapping whose walk arrives writes the entry of the page. -/
lemma mapInner_of_ok {s₁ : Paging} {virt phys flags t : ℕ} {userPage : Bool}
    (hvirt : virt < 2 ^ 64) (hphys : phys < 2 ^ 64)
    (hwalk : Paging.descend frames virt userPage 3 (s.cr3 &&& addrMask) s = .ok (s₁, .ok t)) :
    s.mapInner frames virt phys flags userPage = (do
      let s ← s₁.writeEntry t (tableIndex virt 0) (leafEntry phys flags userPage)
      pure (s, .ok ())) := by
  unfold Paging.mapInner
  simp only [and_not64_frame hvirt, and_not64_frame hphys, descend_page, hwalk, Exec.bind_ok,
    tableIndex_of_page, leafEntry]

/-- An unmapping knows of the lower half only. -/
lemma unmapPage_mod {virt : ℕ} (hvirt : virt < 2 ^ 64) :
    s.unmapPage virt = s.unmapPage (virt % 2 ^ 48) := by
  have hfind := findTable_congr (s := s) (tableIndex_page_mod virt) 3 le_rfl
  unfold Paging.unmapPage
  simp only [and_not64_frame hvirt, and_not64_frame (x := virt % 2 ^ 48) (by omega), hfind,
    tableIndex_page_mod virt 0 (Nat.zero_le 3)]

/-! ## Calls with arbitrary arguments -/

/-- The arguments of a call are words. -/
def PagingCall.Words : PagingCall → Prop
  | mapPage virt phys flags | mapUserPage virt phys flags =>
    virt < 2 ^ 64 ∧ phys < 2 ^ 64 ∧ flags < 2 ^ 64
  | unmapPage virt => virt < 2 ^ 64

instance : (c : PagingCall) → Decidable c.Words
  | .mapPage virt phys flags | .mapUserPage virt phys flags =>
    inferInstanceAs (Decidable (virt < 2 ^ 64 ∧ phys < 2 ^ 64 ∧ flags < 2 ^ 64))
  | .unmapPage virt => inferInstanceAs (Decidable (virt < 2 ^ 64))

/-- The entries of the walk for a page of ring 3 are open to it, as far as they are there and lead
on. -/
def PagingCall.PathOpen (s : Paging) : PagingCall → Prop
  | mapUserPage virt _ _ => ∀ entry ∈ s.walk virt,
    entry &&& present ≠ 0 → entry &&& huge = 0 → entry &&& user ≠ 0
  | mapPage _ _ _ | unmapPage _ => True

namespace Paging

/-- One call with its result. -/
def WordSteps (frames : ℕ → Option ℕ) (s : Paging) (x : PagingCall × PagingResult)
    (s' : Paging) : Prop :=
  x.1.Words ∧ s.call frames x.1 = .ok (s', x.2)

/-- A call has left no trace: every address translates as before, and every entry that was present
has the `user` flag it had. -/
structure PermissionsKept (s s' : Paging) : Prop where
  /-- Translations are as before. -/
  translate : ∀ virt < 2 ^ 48, s'.translate virt = s.translate virt
  /-- The `user` flags are as before. -/
  userBits : ∀ {level table index}, s.IsTable level table → index < 512 →
    s.entryAt table index &&& present ≠ 0 →
    s'.entryAt table index &&& user = s.entryAt table index &&& user

end Paging

/-- The `user` flag is one bit. -/
lemma and_user_or {w : ℕ} : (w ||| user) &&& user = w &&& user ↔ w &&& user ≠ 0 := by
  constructor
  · intro h hw
    have hopen : (w ||| user) &&& user = user := by rw [Nat.and_or_distrib_right, hw, Nat.zero_or,
      Nat.and_self]
    rw [hopen, hw] at h
    exact absurd h (by decide)
  · intro hw
    rw [or_user_eq hw]

/-- A failed mapping keeps the translation of every address. -/
lemma translate_of_failed (h : Shape frames s T) (hf : FreshFrames frames) {virt phys flags : ℕ}
    (hvirt : virt < 2 ^ 48) (hphys : phys < 2 ^ 64) {userPage : Bool} {e : MapError}
    (hrun : s.mapInner frames virt phys flags userPage = .ok (s', .error e)) :
    ∀ virt < 2 ^ 48, s'.translate virt = s.translate virt := by
  obtain ⟨s₁, T₁, r, hrun₁, hmaps, -⟩ := mapInner_eq h hf hvirt hphys flags userPage
  obtain ⟨rfl, rfl⟩ := Prod.mk.inj (Except.ok.inj (hrun₁.symm.trans hrun))
  intro virt₁ hvirt₁
  have hpage := hmaps.pageAt_eq hf h (virt₁ / 4096)
  rw [if_neg (by simp)] at hpage
  rw [translate_eq h hf hvirt₁, translate_eq (hmaps.shape hf h) hf hvirt₁, Paging.target,
    Paging.target, hpage]

/-- **What a failed mapping does to the entries that were present.** -/
lemma descended_of_failed (h : Shape frames s T) (hf : FreshFrames frames) {virt phys flags : ℕ}
    (hvirt : virt < 2 ^ 48) (hphys : phys < 2 ^ 64) {userPage : Bool} {e : MapError}
    (hrun : s.mapInner frames virt phys flags userPage = .ok (s', .error e)) :
    Descended userPage virt 3 s T s' (.error e) := by
  have hroot := h.root_slot hvirt
  obtain ⟨s₁, T₁, r, hdescend, -⟩ := descend_eq hf virt userPage 3 _ s T h le_rfl hroot
  have hdown := descend_word hf virt userPage 3 _ s T h le_rfl hroot s₁ r hdescend
  cases r with
  | error e' =>
    have hret := (mapInner_of_error (by omega) hphys hdescend).symm.trans hrun
    obtain ⟨rfl, he⟩ := Prod.mk.inj (Except.ok.inj hret)
    obtain rfl := Except.error.inj he
    exact hdown
  | ok t =>
    -- a walk that arrives does not fail
    have hret := (mapInner_of_ok (by omega) hphys hdescend).symm.trans hrun
    obtain ⟨s₂, -, hret⟩ := Exec.bind_eq_ok.mp hret
    have hno := (Prod.mk.inj (Except.ok.inj hret)).2
    cases hno

/-- **A failed mapping for ring 3 keeps the `user` flags exactly if its path was open.** -/
lemma permissionsKept_of_failed (h : Shape frames s T) (hf : FreshFrames frames)
    {virt phys flags : ℕ} (hvirt : virt < 2 ^ 48) (hphys : phys < 2 ^ 64) {userPage : Bool}
    {e : MapError} (hrun : s.mapInner frames virt phys flags userPage = .ok (s', .error e)) :
    s.PermissionsKept s' ↔ (userPage = true → ∀ entry ∈ s.walk virt,
      entry &&& present ≠ 0 → entry &&& huge = 0 → entry &&& user ≠ 0) := by
  have hdown := descended_of_failed h hf hvirt hphys hrun
  have hwalk : ∀ entry, entry ∈ s.walk virt ↔ ∃ l ≤ 3, s.word T l (slot virt l) = some entry :=
    fun entry => h.mem_walkLevels_iff virt entry 3 _ le_rfl (h.root_slot hvirt)
  constructor
  · intro hkept huser entry hentry hpresent hh
    obtain ⟨l, hl, hw⟩ := (hwalk entry).mp hentry
    cases ht : T l (slot virt l / 512) with
    | none =>
      rw [Paging.word, ht] at hw
      cases hw
    | some t =>
      obtain rfl := Option.some.inj ((word_eq ht).symm.trans hw)
      have hpos : 0 < l := by
        refine Nat.pos_of_ne_zero fun h0 => ?_
        -- the walk has not met a page table
        subst h0
        rw [← slot_succ, hdown.error rfl] at ht
        cases ht
      have hword := hdown.word hw hpresent
      rw [word_eq ht, Option.some.injEq, loosened, if_pos ⟨huser, hpos, hl, rfl, hh⟩] at hword
      have hbits := hkept.userBits (h.isTable_iff.mpr ⟨_, ht⟩)
        (Nat.mod_lt (slot virt l) (by norm_num)) hpresent
      rw [Paging.entryAt, hword] at hbits
      exact and_user_or.mp hbits
  · intro hopen
    refine ⟨translate_of_failed h hf hvirt hphys hrun, fun {level table index} ht hindex hp => ?_⟩
    obtain ⟨q, hq⟩ := h.isTable_iff.mp ht
    have hword := hdown.word (word_entryAt hq hindex) hp
    rw [word_entryAt hq hindex, Option.some.injEq] at hword
    rw [hword, loosened]
    split_ifs with hloose
    · obtain ⟨huser, -, hl, hn, hh⟩ := hloose
      refine and_user_or.mpr (hopen huser _ ((hwalk _).mpr ⟨level, hl, ?_⟩) hp hh)
      rw [← hn]
      exact word_entryAt hq hindex
    · rfl

/-! ## Runs -/

/-- Writing an entry makes no request. -/
lemma writeEntry_allocs {table index entry : ℕ} (h : s.writeEntry table index entry = .ok s') :
    s'.allocs = s.allocs := by
  obtain ⟨ptr, -, hret⟩ := Exec.bind_eq_ok.mp h
  obtain rfl := Except.ok.inj hret
  rfl

/-- What a mapping for ring 3 that returns has done. -/
lemma Paging.mapUserPage_ok {virt phys flags : ℕ} {r : Except MapError Unit}
    (hrun : s.mapUserPage frames virt phys flags = .ok (s', r)) :
    s.mapInner frames virt phys flags true = .ok (s', r) := by
  unfold Paging.mapUserPage at hrun
  split_ifs at hrun
  · exact hrun
  · cases hrun

/-- A mapping is a walk, and a write to an entry of a page if it succeeds. -/
lemma Maps.grows {userPage : Bool} {virt entry : ℕ} {r : Except MapError Unit}
    (hm : Maps frames userPage virt entry s T s' T' r) (hf : FreshFrames frames)
    (h : Shape frames s T) :
    ∃ s₁, Relation.ReflTransGen (Grow frames userPage) (s, T) (s₁, T') ∧ Shape frames s' T' ∧
      s'.allocs = s₁.allocs := by
  have hshape := hm.shape hf h
  cases hm with
  | failed hgrows _ => exact ⟨s', hgrows, hshape, rfl⟩
  | done hgrows ht => exact ⟨_, hgrows, hshape, rfl⟩

/-- Unmapping makes no request. -/
lemma unmapPage_allocs {virt : ℕ} {found : Bool} (h : s.unmapPage virt = .ok (s', found)) :
    s'.allocs = s.allocs := by
  obtain ⟨table, -, hrest⟩ := Exec.bind_eq_ok.mp h
  cases table with
  | none => exact congrArg Paging.allocs (Prod.mk.inj (Except.ok.inj hrest)).1.symm
  | some table =>
    obtain ⟨entry, -, hwrite⟩ := Exec.bind_eq_ok.mp hrest
    split_ifs at hwrite with hpresent
    · exact congrArg Paging.allocs (Prod.mk.inj (Except.ok.inj hwrite)).1.symm
    · obtain ⟨s₁, hs₁, hret⟩ := Exec.bind_eq_ok.mp hwrite
      obtain ⟨rfl, -⟩ := Prod.mk.inj (Except.ok.inj hret)
      exact writeEntry_allocs hs₁

/-- **A call is a walk and at most one write**, as far as the frame allocator can tell. -/
lemma call_grows (h : Shape frames s T) (hf : FreshFrames frames) {c : PagingCall}
    {r : PagingResult} (hc : c.Words) (hrun : s.call frames c = .ok (s', r)) :
    ∃ userPage s₁ T', Relation.ReflTransGen (Grow frames userPage) (s, T) (s₁, T') ∧
      Shape frames s' T' ∧ s'.allocs = s₁.allocs := by
  have hmap : ∀ {virt phys flags userPage r}, virt < 2 ^ 64 → phys < 2 ^ 64 →
      s.mapInner frames virt phys flags userPage = .ok (s', r) →
      ∃ userPage s₁ T', Relation.ReflTransGen (Grow frames userPage) (s, T) (s₁, T') ∧
        Shape frames s' T' ∧ s'.allocs = s₁.allocs := by
    intro virt phys flags userPage r hvirt hphys hrun
    rw [mapInner_mod hvirt] at hrun
    have hlow : virt % 2 ^ 48 < 2 ^ 48 := Nat.mod_lt _ (by norm_num)
    obtain ⟨s₁, T₁, r₁, hrun₁, hmaps, -⟩ := mapInner_eq h hf hlow hphys flags userPage
    obtain ⟨rfl, -⟩ := Prod.mk.inj (Except.ok.inj (hrun₁.symm.trans hrun))
    exact ⟨userPage, _, T₁, (hmaps.grows hf h).choose_spec⟩
  cases c with
  | mapPage virt phys flags =>
    obtain ⟨⟨s₁, r₁⟩, hrun₁, hret⟩ := Exec.bind_eq_ok.mp hrun
    obtain ⟨rfl, -⟩ := Prod.mk.inj (Except.ok.inj hret)
    exact hmap hc.1 hc.2.1 hrun₁
  | mapUserPage virt phys flags =>
    obtain ⟨⟨s₁, r₁⟩, hrun₁, hret⟩ := Exec.bind_eq_ok.mp hrun
    obtain ⟨rfl, -⟩ := Prod.mk.inj (Except.ok.inj hret)
    exact hmap hc.1 hc.2.1 (Paging.mapUserPage_ok hrun₁)
  | unmapPage virt =>
    obtain ⟨⟨s₁, found⟩, hrun₁, hret⟩ := Exec.bind_eq_ok.mp hrun
    obtain ⟨rfl, -⟩ := Prod.mk.inj (Except.ok.inj hret)
    have hallocs := unmapPage_allocs hrun₁
    rw [unmapPage_mod hc] at hrun₁
    have hlow : virt % 2 ^ 48 < 2 ^ 48 := Nat.mod_lt _ (by norm_num)
    obtain ⟨s₂, hrun₂, hshape, -⟩ := unmapPage_eq h hf hlow
    obtain ⟨rfl, -⟩ := Prod.mk.inj (Except.ok.inj (hrun₂.symm.trans hrun₁))
    exact ⟨false, s, T, .refl, hshape, hallocs⟩

namespace Paging

/-- The tables have a tree. -/
def Shaped (frames : ℕ → Option ℕ) (s : Paging) : Prop := ∃ T, Shape frames s T

/-- **A call keeps the tree.** -/
lemma Shaped.step (hf : FreshFrames frames) (h : Shaped frames s)
    (x : PagingCall × PagingResult) (hstep : WordSteps frames s x s') : Shaped frames s' := by
  obtain ⟨T, hshape⟩ := h
  obtain ⟨-, -, T', -, hshape', -⟩ := call_grows hshape hf hstep.1 hstep.2
  exact ⟨T', hshape'⟩

end Paging

/-- **A failed mapping leaves no trace exactly if the path it has taken was open.**  After every run
of calls on the first address space, whatever they returned, a call that fails to map a page keeps
the translation of every address.  It keeps the `user` flag of every entry that was present always
for a page of the kernel, and for a page of ring 3 if and only if the entries of its walk that were
present and led on had the flag before. -/
theorem permissionsKept_iff (frames : ℕ → Option ℕ) (hf : FreshFrames frames)
    (boot s₀ s s' : Paging) (pml4 : ℕ) (hb : boot.buildAddressSpace frames = .ok (s₀, pml4))
    (tr : List (Transition Paging (PagingCall × PagingResult)))
    (hrun : Run (Paging.WordSteps frames) (s₀.writeCr3 pml4) tr s) (c : PagingCall)
    (hc : c.Words) (e : MapError) (hcall : s.call frames c = .ok (s', .mapped (.error e))) :
    (∀ virt < 2 ^ 48, s'.translate virt = s.translate virt) ∧
      (s.PermissionsKept s' ↔ c.PathOpen s) := by
  obtain ⟨T₀, hshape₀, -⟩ := buildAddressSpace_shape hf hb
  have hshaped : Paging.Shaped frames s :=
    hrun.invariant (I := Paging.Shaped frames) (fun s x t h hstep => h.step hf x hstep)
      ⟨T₀, hshape₀⟩
  obtain ⟨T, hshape⟩ := hshaped
  cases c with
  | mapPage virt phys flags =>
    obtain ⟨⟨s₁, r₁⟩, hmap, hret⟩ := Exec.bind_eq_ok.mp hcall
    cases hret
    have hlow : virt % 2 ^ 48 < 2 ^ 48 := Nat.mod_lt _ (by norm_num)
    rw [Paging.mapPage, mapInner_mod hc.1] at hmap
    refine ⟨translate_of_failed hshape hf hlow hc.2.1 hmap, ?_⟩
    rw [permissionsKept_of_failed hshape hf hlow hc.2.1 hmap]
    exact iff_of_true (fun hno => absurd hno (by decide)) trivial
  | mapUserPage virt phys flags =>
    obtain ⟨⟨s₁, r₁⟩, hmap, hret⟩ := Exec.bind_eq_ok.mp hcall
    cases hret
    have hlow : virt % 2 ^ 48 < 2 ^ 48 := Nat.mod_lt _ (by norm_num)
    have hmap := Paging.mapUserPage_ok hmap
    rw [mapInner_mod hc.1] at hmap
    refine ⟨translate_of_failed hshape hf hlow hc.2.1 hmap, ?_⟩
    have hwalk : s.walk (virt % 2 ^ 48) = s.walk virt :=
      walkLevels_congr (fun level hle => tableIndex_mod virt hle) 3 le_rfl _
    rw [permissionsKept_of_failed hshape hf hlow hc.2.1 hmap, hwalk]
    exact forall_prop_of_true rfl
  | unmapPage virt =>
    obtain ⟨⟨s₁, found⟩, -, hret⟩ := Exec.bind_eq_ok.mp hcall
    cases hret

/-- A machine with frames for the first address space and no more. -/
def threeFrames (k : ℕ) : Option ℕ := if k < 3 then sampleFrames k else none

/-- A machine with two more frames. -/
def fiveFrames (k : ℕ) : Option ℕ := if k < 5 then sampleFrames k else none

/-- Fewer frames are fresh, too. -/
lemma FreshFrames.of_le {frames frames' : ℕ → Option ℕ} (h : FreshFrames frames)
    (hle : ∀ k f, frames' k = some f → frames k = some f) : FreshFrames frames' where
  aligned hf := h.aligned (hle _ _ hf)
  low hf := h.low (hle _ _ hf)
  distinct hf hf' := h.distinct (hle _ _ hf) (hle _ _ hf')

/-- The three frames are fresh. -/
lemma freshFrames_threeFrames : FreshFrames threeFrames :=
  freshFrames_sampleFrames.of_le fun _ _ hf => (Option.ite_none_right_eq_some.mp hf).2

/-- The five frames are fresh. -/
lemma freshFrames_fiveFrames : FreshFrames fiveFrames :=
  freshFrames_sampleFrames.of_le fun _ _ hf => (Option.ite_none_right_eq_some.mp hf).2

/-- The address space of the machine with three frames exists. -/
lemma threeFrames_build : ∃ s₀, sampleBoot.buildAddressSpace threeFrames = .ok (s₀, 0x1000) := by
  have hpml4 : threeFrames sampleBoot.allocs = some 0x1000 := rfl
  have hpdpt : threeFrames (sampleBoot.allocs + 1) = some 0x2000 := rfl
  have hpd : threeFrames (sampleBoot.allocs + 2) = some 0x3000 := rfl
  obtain ⟨s₀, hb, -⟩ := buildAddressSpace_eq freshFrames_threeFrames hpml4 hpdpt hpd
  exact ⟨s₀, hb⟩

/-- The address space of the machine with five frames exists. -/
lemma fiveFrames_build : ∃ s₀, sampleBoot.buildAddressSpace fiveFrames = .ok (s₀, 0x1000) := by
  have hpml4 : fiveFrames sampleBoot.allocs = some 0x1000 := rfl
  have hpdpt : fiveFrames (sampleBoot.allocs + 1) = some 0x2000 := rfl
  have hpd : fiveFrames (sampleBoot.allocs + 2) = some 0x3000 := rfl
  obtain ⟨s₀, hb, -⟩ := buildAddressSpace_eq freshFrames_fiveFrames hpml4 hpdpt hpd
  exact ⟨s₀, hb⟩

/-- A page of ring 3 at 1 GiB takes the last two frames and opens its path.  A second page of ring 3
next to it, in another page table, cannot be mapped then, and the attempt leaves no trace. -/
theorem permissionsKept_iff_fiveFrames :
    ∃ s₀ s₁ s', sampleBoot.buildAddressSpace fiveFrames = .ok (s₀, 0x1000) ∧
      (s₀.writeCr3 0x1000).call fiveFrames (.mapUserPage 0x40000000 0x5000 writable) =
        .ok (s₁, .mapped (.ok ())) ∧
      s₁.call fiveFrames (.mapUserPage 0x40200000 0x6000 writable) =
        .ok (s', .mapped (.error .outOfFrames)) ∧
      s₁.PermissionsKept s' := by
  obtain ⟨s₀, hb⟩ := fiveFrames_build
  have hresult : (do
      let x ← sampleBoot.buildAddressSpace fiveFrames
      let y ← (x.1.writeCr3 x.2).call fiveFrames (.mapUserPage 0x40000000 0x5000 writable)
      let z ← y.1.call fiveFrames (.mapUserPage 0x40200000 0x6000 writable)
      pure (y.1.walk 0x40200000, y.2, z.2)) =
        .ok ([0x2007, 0x4007, 0], .mapped (.ok ()), .mapped (.error .outOfFrames)) := by
    decide +kernel
  rw [hb, Exec.bind_ok] at hresult
  obtain ⟨⟨s₁, r₁⟩, hfirst, hresult⟩ := Exec.bind_eq_ok.mp hresult
  obtain ⟨⟨s', r⟩, hcall, hr⟩ := Exec.bind_eq_ok.mp hresult
  obtain ⟨hwalk, hr⟩ := Prod.mk.inj (Except.ok.inj hr)
  obtain ⟨rfl, rfl⟩ := Prod.mk.inj hr
  have hstep : Paging.WordSteps fiveFrames (s₀.writeCr3 0x1000)
      (.mapUserPage 0x40000000 0x5000 writable, .mapped (.ok ())) s₁ := ⟨by decide, hfirst⟩
  obtain ⟨-, hkept⟩ := permissionsKept_iff fiveFrames freshFrames_fiveFrames sampleBoot s₀ s₁ s'
    0x1000 hb _ (.cons hstep (.nil _)) (.mapUserPage 0x40200000 0x6000 writable) (by decide) _
    hcall
  have hopen : (PagingCall.mapUserPage 0x40200000 0x6000 writable).PathOpen s₁ := by
    intro entry hentry
    rw [hwalk] at hentry
    simp only [List.mem_cons, List.not_mem_nil, or_false] at hentry
    rcases hentry with rfl | rfl | rfl <;> decide
  exact ⟨s₀, s₁, s', hb, hfirst, hcall, hkept.mpr hopen⟩

/-- With no frame left a page of ring 3 cannot be mapped at 1 GiB either, but the attempt opens the
first entry of the root, under which the whole identity map lies. -/
theorem outOfFrames_opens_root :
    ∃ s₀ s', FreshFrames threeFrames ∧
      sampleBoot.buildAddressSpace threeFrames = .ok (s₀, 0x1000) ∧
      (s₀.writeCr3 0x1000).call threeFrames (.mapUserPage 0x40000000 0x5000 writable) =
        .ok (s', .mapped (.error .outOfFrames)) ∧
      (s₀.writeCr3 0x1000).IsTable 3 0x1000 ∧
      (s₀.writeCr3 0x1000).entryAt 0x1000 0 = 0x2000 ||| present ||| writable ∧
      s'.entryAt 0x1000 0 = 0x2000 ||| present ||| writable ||| user ∧
      ¬ (s₀.writeCr3 0x1000).PermissionsKept s' := by
  obtain ⟨s₀, hb⟩ := threeFrames_build
  have hresult : (do
      let x ← sampleBoot.buildAddressSpace threeFrames
      let y ← (x.1.writeCr3 x.2).call threeFrames (.mapUserPage 0x40000000 0x5000 writable)
      pure (x.1.mem 0x1000, y.1.mem 0x1000, y.2)) =
        .ok (0x2003, 0x2007, .mapped (.error .outOfFrames)) := by decide +kernel
  rw [hb, Exec.bind_ok] at hresult
  obtain ⟨⟨s', r⟩, hcall, hr⟩ := Exec.bind_eq_ok.mp hresult
  obtain ⟨hbefore, hr⟩ := Prod.mk.inj (Except.ok.inj hr)
  obtain ⟨hafter, rfl⟩ := Prod.mk.inj hr
  have hroot : (s₀.writeCr3 0x1000).cr3 &&& addrMask = 0x1000 :=
    show 0x1000 &&& addrMask = 0x1000 by decide
  have htable : (s₀.writeCr3 0x1000).IsTable 3 ((s₀.writeCr3 0x1000).cr3 &&& addrMask) := .root
  rw [hroot] at htable
  refine ⟨s₀, s', freshFrames_threeFrames, hb, hcall, htable, hbefore, hafter, fun hkept => ?_⟩
  have hbits := hkept.userBits htable (show 0 < 512 by norm_num)
  have hbefore' : (s₀.writeCr3 0x1000).entryAt 0x1000 0 = 0x2003 := hbefore
  have hafter' : s'.entryAt 0x1000 0 = 0x2007 := hafter
  rw [hbefore', hafter'] at hbits
  exact absurd (hbits (by decide)) (by decide)

end ZiranOS
