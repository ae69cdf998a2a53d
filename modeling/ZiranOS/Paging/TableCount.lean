import ZiranOS.Paging.Footprint

/-!
# The frames of the tables

Paging takes frames for its tables and never gives one back.  After any sequence of calls the frames
it has taken are exactly the tables that a walk can reach from the root (`Accounted`), so there are
as many of the one as of the other, and every table but the root has exactly one entry that leads to
it.  The memory for tables is bounded by the tables touched: a mapping takes one frame for each
table missing on its walk, and in a region of 2 MiB that once had a page there is nothing missing.
-/

namespace ZiranOS

open ProgLib

variable {frames : ℕ → Option ℕ} {s s' : Paging} {T T' : TableTree} {userPage : Bool}

/-- The number of requests from `a` up to `b` that were answered with a frame. -/
def framesTaken (frames : ℕ → Option ℕ) (a b : ℕ) : ℕ :=
  ((Finset.Ico a b).filter fun k => (frames k).isSome).card

namespace Paging

/-- The number of tables that a walk for `virt` misses below the table of the given level. -/
def missingTables (s : Paging) (virt : ℕ) : (level table : ℕ) → ℕ
  | 0, _ => 0
  | level + 1, table =>
    let entry := s.entryAt table (tableIndex virt (level + 1))
    if entry &&& present = 0 then level + 1
    else if level + 1 ≤ 2 ∧ entry &&& huge ≠ 0 then 0
    else s.missingTables virt level (entry &&& addrMask)

/-- The number of tables missing on the walk of the live tables for `virt`. -/
def missing (s : Paging) (virt : ℕ) : ℕ := s.missingTables virt 3 (s.cr3 &&& addrMask)

/-- The tables that a walk can reach from the root. -/
def tables (s : Paging) : Set ℕ := {t | ∃ level, s.IsTable level t}

/-- The entry with the given table and index leads to the table `t`. -/
def Links (s : Paging) (t : ℕ) (p : ℕ × ℕ) : Prop :=
  ∃ level, s.IsTable (level + 1) p.1 ∧ p.2 < 512 ∧ s.entryAt p.1 p.2 &&& present ≠ 0 ∧
    ¬ (level + 1 ≤ 2 ∧ s.entryAt p.1 p.2 &&& huge ≠ 0) ∧ s.entryAt p.1 p.2 &&& addrMask = t

end Paging

/-! ## Counting the answers -/

/-- Requests that are all answered. -/
lemma framesTaken_of_isSome {a n : ℕ} (h : ∀ i < n, (frames (a + i)).isSome) :
    framesTaken frames a (a + n) = n := by
  rw [framesTaken, Finset.filter_true_of_mem, Nat.card_Ico, Nat.add_sub_cancel_left]
  intro k hk
  obtain ⟨hle, hlt⟩ := Finset.mem_Ico.mp hk
  have hsome := h (k - a) (by omega)
  rwa [Nat.add_sub_cancel' hle] at hsome

/-- A refused request takes no frame. -/
lemma framesTaken_succ_of_none {a b : ℕ} (hle : a ≤ b) (h : frames b = none) :
    framesTaken frames a (b + 1) = framesTaken frames a b := by
  rw [framesTaken, ← Finset.insert_Ico_right_eq_Ico_add_one hle, Finset.filter_insert, if_neg]
  · rfl
  · rw [h]
    exact Bool.false_ne_true

/-- **The frames that a walk takes**: one for each missing table, or fewer if a request is
refused. -/
lemma Requested.framesTaken {α : Type} {count a a' : ℕ} {r : Except MapError α}
    (h : Requested frames count a r a') :
    ZiranOS.framesTaken frames a a' ≤ count ∧
      (ZiranOS.framesTaken frames a a' < count ↔ r = .error .outOfFrames) := by
  cases h with
  | all hr hframes ha' =>
    rw [ha', framesTaken_of_isSome hframes]
    exact ⟨le_rfl, iff_of_false (lt_irrefl _) hr⟩
  | @refused j hj hframes hnone hr ha' =>
    rw [ha', framesTaken_succ_of_none (Nat.le_add_right a j) hnone, framesTaken_of_isSome hframes]
    exact ⟨hj.le, iff_of_true hj hr⟩

/-! ## Missing tables in memory -/

/-- No walk misses more tables than there are levels below. -/
lemma missingTables_le (s : Paging) (virt : ℕ) : ∀ level table,
    s.missingTables virt level table ≤ level := by
  intro level
  induction level with
  | zero => exact fun _ => le_rfl
  | succ level ih =>
    intro table
    rw [Paging.missingTables]
    split_ifs
    · exact le_rfl
    · exact Nat.zero_le _
    · exact (ih _).trans (Nat.le_succ _)

/-- **The tables missing in memory are those missing in the tree**, above the identity map. -/
lemma Shape.missingTables_eq (h : Shape frames s T) {virt : ℕ} (hvirt : identityLimit ≤ virt) :
    ∀ level t, level ≤ 3 → T level (slot virt (level + 1)) = some t →
      s.missingTables virt level t = T.missing virt level := by
  intro level
  induction level with
  | zero => exact fun t _ _ => rfl
  | succ level ih =>
    intro t hle ht
    have hpoints : Points (s.entryAt t (tableIndex virt (level + 1))) _ :=
      h.points ht (Or.inr hvirt)
    rw [Paging.missingTables]
    cases hchild : T level (slot virt (level + 1)) with
    | none =>
      rw [hchild, points_none] at hpoints
      rw [if_pos hpoints, missing_of_none]
      exact fun l hl => h.absent_of_le virt level (by omega) hchild l (by omega)
    | some g =>
      rw [hchild, points_some] at hpoints
      obtain ⟨hp, hh, haddr⟩ := hpoints
      rw [if_neg hp, if_neg fun hlarge => hlarge.2 hh, haddr, TableTree.missing, hchild,
        if_neg (Option.some_ne_none g)]
      exact ih g (by omega) hchild

/-- A walk in the identity map misses no table. -/
lemma Shape.missingTables_identity (h : Shape frames s T) {virt : ℕ}
    (hvirt : virt < identityLimit) : ∀ level t, level + 1 ≤ 3 →
      T (level + 1) (slot virt (level + 1 + 1)) = some t →
      s.missingTables virt (level + 1) t = 0 := by
  intro level
  induction level with
  | zero =>
    intro t _ ht
    obtain ⟨hp, hh, -⟩ := identityEntry_and (slot_of_lt.mpr hvirt)
    rw [Paging.missingTables, Paging.entryAt, h.mem_directory ht hvirt, if_neg hp,
      if_pos ⟨by norm_num, hh⟩]
  | succ level ih =>
    intro t hle ht
    have hpresent : (T (level + 1) (slot virt (level + 1 + 1))).isSome :=
      h.isSome_of_virt_lt hvirt (by omega)
    obtain ⟨g, hchild⟩ := Option.isSome_iff_exists.mp hpresent
    have hpoints : Points (s.entryAt t (tableIndex virt (level + 1 + 1))) _ :=
      h.points ht (Or.inl (Nat.succ_ne_zero level))
    rw [hchild, points_some] at hpoints
    obtain ⟨hp, hh, haddr⟩ := hpoints
    rw [Paging.missingTables, if_neg hp, if_neg fun hlarge => hlarge.2 hh, haddr]
    exact ih g (by omega) hchild

/-- Addresses of one region of 2 MiB miss the same tables. -/
lemma missing_congr {virt virt' : ℕ}
    (h : ∀ level < 3, tableIndex virt (level + 1) = tableIndex virt' (level + 1)) :
    s.missing virt = s.missing virt' := by
  have hlevels : ∀ level ≤ 3, ∀ table,
      s.missingTables virt level table = s.missingTables virt' level table := by
    intro level
    induction level with
    | zero => exact fun _ _ => rfl
    | succ level ih =>
      intro hle table
      rw [Paging.missingTables, Paging.missingTables, h level hle]
      simp only [ih (by omega)]
  exact hlevels 3 le_rfl _

/-- Addresses of one region of 2 MiB select the same entries above the pages. -/
lemma tableIndex_region {virt virt' : ℕ} (h : virt / 2 ^ 21 = virt' / 2 ^ 21) (level : ℕ) :
    tableIndex virt (level + 1) = tableIndex virt' (level + 1) := by
  have hslot : ∀ v, slot v (level + 1) = v / 2 ^ 21 / 2 ^ (9 * level) := by
    intro v
    rw [slot, Nat.div_div_eq_div_mul, ← Nat.pow_add]
    congr 2
    omega
  rw [tableIndex_eq, tableIndex_eq, hslot, hslot, h]

/-- The tables missing in the lower half. -/
lemma Shape.missing_eq (h : Shape frames s T) (virt : ℕ) :
    s.missing virt =
      if virt % 2 ^ 48 < identityLimit then 0 else T.missing (virt % 2 ^ 48) 3 := by
  have hlow : virt % 2 ^ 48 < 2 ^ 48 := Nat.mod_lt _ (by norm_num)
  have hmod : s.missing virt = s.missing (virt % 2 ^ 48) :=
    missing_congr fun level hlt => (tableIndex_mod virt (by omega)).symm
  rw [hmod, Paging.missing]
  split_ifs with hid
  · exact h.missingTables_identity hid 2 _ le_rfl (h.root_slot hlow)
  · exact h.missingTables_eq (not_lt.mp hid) 3 _ le_rfl (h.root_slot hlow)

/-- **The requests of a mapping** are for the tables missing on its walk. -/
lemma mapInner_requested (h : Shape frames s T) (hf : FreshFrames frames) {virt phys flags : ℕ}
    (hvirt : virt < 2 ^ 64) (hphys : phys < 2 ^ 64) {r : Except MapError Unit}
    (hrun : s.mapInner frames virt phys flags userPage = .ok (s', r)) :
    Requested frames (s.missing virt) s.allocs r s'.allocs := by
  have hlow : virt % 2 ^ 48 < 2 ^ 48 := Nat.mod_lt _ (by norm_num)
  rw [mapInner_mod hvirt] at hrun
  rw [h.missing_eq]
  split_ifs with hid
  · obtain ⟨hallocs, rfl⟩ := mapInner_identity h hf hid hphys hrun
    exact .all (by simp) (fun i hi => absurd hi (Nat.not_lt_zero i)) hallocs
  · exact mapInner_requests h hf (not_lt.mp hid) hlow hphys hrun

/-- A mapping that succeeds leaves no table missing on its walk. -/
lemma missing_of_mapped (h : Shape frames s T) (hf : FreshFrames frames) {virt phys flags : ℕ}
    (hvirt : virt < 2 ^ 64) (hphys : phys < 2 ^ 64)
    (hrun : s.mapInner frames virt phys flags userPage = .ok (s', .ok ())) :
    s'.missing virt = 0 := by
  have hlow : virt % 2 ^ 48 < 2 ^ 48 := Nat.mod_lt _ (by norm_num)
  rw [mapInner_mod hvirt] at hrun
  obtain ⟨s₁, T', r, hrun₁, hmaps, -⟩ := mapInner_eq h hf hlow hphys flags userPage
  obtain ⟨rfl, rfl⟩ := Prod.mk.inj (Except.ok.inj (hrun₁.symm.trans hrun))
  have hshape := hmaps.shape hf h
  rw [hshape.missing_eq]
  split_ifs with hid
  · rfl
  · generalize hr : Except.ok () = r at hmaps
    cases hmaps with
    | failed => cases hr
    | @done _ _ t _ ht =>
      -- the tables above the page table are there as well
      have hall : ∀ l ≤ 3, (T' l (slot (virt % 2 ^ 48) (l + 1))).isSome := by
        intro l
        induction l with
        | zero =>
          intro _
          rw [slot_succ, slot_zero, ht]
          rfl
        | succ l ih =>
          intro hl
          rw [slot_succ]
          exact hshape.parent (by omega) (ih (by omega))
      have hsome : ∀ l ≤ 3, T'.missing (virt % 2 ^ 48) l = 0 := by
        intro l
        induction l with
        | zero => exact fun _ => rfl
        | succ l ih =>
          intro hl
          rw [TableTree.missing, ih (by omega), if_neg]
          exact Option.isSome_iff_ne_none.mp (hall l (by omega))
      exact hsome 3 le_rfl

/-- Where no table is removed, no walk misses more than before. -/
lemma missing_le (h : Shape frames s T) (h' : Shape frames s' T')
    (hkept : ∀ {level q t}, T level q = some t → T' level q = some t) (virt : ℕ) :
    s'.missing virt ≤ s.missing virt := by
  rw [h.missing_eq, h'.missing_eq]
  split_ifs
  · exact le_rfl
  · have hle : ∀ l, T'.missing (virt % 2 ^ 48) l ≤ T.missing (virt % 2 ^ 48) l := by
      intro l
      induction l with
      | zero => exact le_rfl
      | succ l ih =>
        rw [TableTree.missing, TableTree.missing]
        refine add_le_add ih ?_
        cases ht : T l (slot (virt % 2 ^ 48) (l + 1)) with
        | none =>
          rw [if_pos rfl]
          split_ifs
          · exact le_rfl
          · exact Nat.zero_le 1
        | some t => rw [hkept ht, if_neg (Option.some_ne_none t)]
    exact hle 3

/-! ## Accounting -/

/-- The tables are the frames that were handed out from request `a` on. -/
structure Accounted (frames : ℕ → Option ℕ) (a : ℕ) (s : Paging) (T : TableTree) : Prop
    extends Shape frames s T where
  le : a ≤ s.allocs
  tables : ∀ {t}, (∃ level q, T level q = some t) ↔
    ∃ k, a ≤ k ∧ k < s.allocs ∧ frames k = some t

/-- The first address space is accounted for. -/
lemma accounted_first (hf : FreshFrames frames) {boot : Paging} {pml4 : ℕ}
    (hb : boot.buildAddressSpace frames = .ok (s, pml4)) :
    ∃ T, Accounted frames boot.allocs (s.writeCr3 pml4) T := by
  obtain ⟨pdpt, pd, h0, h1, h2, hallocs, hshape⟩ := buildAddressSpace_first hf hb
  have hsame : (s.writeCr3 pml4).allocs = s.allocs := rfl
  refine ⟨_, hshape, by omega, fun {t} => ⟨?_, ?_⟩⟩
  · rintro ⟨level, q, ht⟩
    simp only [firstTables, TableTree.insert, noTables] at ht
    split_ifs at ht
    · exact ⟨boot.allocs + 2, by omega, by omega, h2.trans ht⟩
    · exact ⟨boot.allocs + 1, by omega, by omega, h1.trans ht⟩
    · exact ⟨boot.allocs, by omega, by omega, h0.trans ht⟩
  · rintro ⟨k, hle, hlt, hk⟩
    obtain rfl | rfl | rfl : k = boot.allocs ∨ k = boot.allocs + 1 ∨ k = boot.allocs + 2 := by
      omega
    · exact ⟨3, 0, h0.symm.trans hk⟩
    · exact ⟨2, 0, h1.symm.trans hk⟩
    · exact ⟨1, 0, h2.symm.trans hk⟩

/-- **Each step of a walk keeps the account.** -/
lemma Grow.accounted {a : ℕ} {x y : Paging × TableTree} (hstep : Grow frames userPage x y)
    (hf : FreshFrames frames) (h : Accounted frames a x.1 x.2) :
    Accounted frames a y.1 y.2 := by
  have hshape := hstep.shape hf h.toShape
  have hlast : ∀ {k b : ℕ}, k < b + 1 ↔ k < b ∨ k = b := Nat.lt_succ_iff_lt_or_eq
  cases hstep with
  | @refuse s T hnone =>
    refine ⟨hshape, h.le.trans (Nat.le_succ _), fun {t} => h.tables.trans ?_⟩
    refine exists_congr fun k => and_congr_right fun _ =>
      ⟨fun hk => ⟨?_, hk.2⟩, fun hk => ⟨?_, hk.2⟩⟩
    · exact Nat.lt_succ_of_lt hk.1
    · refine (hlast.mp hk.1).resolve_right ?_
      rintro rfl
      cases hnone.symm.trans hk.2
  | loosen => exact ⟨hshape, h.le, h.tables⟩
  | @link s T level n t g ht hnone hdir hg =>
    refine ⟨hshape, h.le.trans (Nat.le_succ _), fun {t₁} => ⟨?_, ?_⟩⟩
    · rintro ⟨level₁, q, ht₁⟩
      replace ht₁ : T.insert level n g level₁ q = some t₁ := ht₁
      rw [TableTree.insert] at ht₁
      split_ifs at ht₁
      · exact ⟨s.allocs, h.le, Nat.lt_succ_self _, hg.trans ht₁⟩
      · obtain ⟨k, hle, hlt, hk⟩ := h.tables.mp ⟨level₁, q, ht₁⟩
        exact ⟨k, hle, Nat.lt_succ_of_lt hlt, hk⟩
    · rintro ⟨k, hle, hlt, hk⟩
      rcases hlast.mp hlt with hlt | rfl
      · obtain ⟨level₁, q, ht₁⟩ := h.tables.mpr ⟨k, hle, hlt, hk⟩
        exact ⟨level₁, q, TableTree.insert_of_none hnone ht₁⟩
      · exact ⟨level, n, (if_pos ⟨rfl, rfl⟩).trans (hg.symm.trans hk)⟩

/-- A walk keeps the account. -/
lemma accounted_of_grows {a : ℕ} {x y : Paging × TableTree}
    (hgrows : Relation.ReflTransGen (Grow frames userPage) x y) (hf : FreshFrames frames)
    (h : Accounted frames a x.1 x.2) : Accounted frames a y.1 y.2 := by
  induction hgrows with
  | refl => exact h
  | tail _ hstep ih => exact hstep.accounted hf ih

/-- **A call keeps the account**, and the tables that are there stay. -/
lemma Accounted.call {a : ℕ} (h : Accounted frames a s T) (hf : FreshFrames frames)
    {c : PagingCall} {r : PagingResult} (hc : c.Words) (hrun : s.call frames c = .ok (s', r)) :
    ∃ T', Accounted frames a s' T' ∧ ∀ {level q t}, T level q = some t → T' level q = some t := by
  obtain ⟨userPage, s₁, T', hgrows, hshape, hallocs⟩ := call_grows h.toShape hf hc hrun
  have h₁ := accounted_of_grows hgrows hf h
  refine ⟨T', ⟨hshape, hallocs ▸ h₁.le, fun {t} => ?_⟩, fun ht => table_grown hgrows ht⟩
  rw [hallocs]
  exact h₁.tables

/-- The tables that a walk can reach are the frames that were handed out. -/
lemma Accounted.tables_eq {a : ℕ} (h : Accounted frames a s T) :
    s.tables = {t | ∃ k, a ≤ k ∧ k < s.allocs ∧ frames k = some t} := by
  ext t
  rw [Set.mem_ofPred_eq, ← h.tables]
  exact exists_congr fun level => h.isTable_iff

/-- **There are as many tables as frames taken.** -/
lemma Accounted.ncard_tables {a : ℕ} (h : Accounted frames a s T) (hf : FreshFrames frames) :
    s.tables.ncard = framesTaken frames a s.allocs := by
  have himage : s.tables = (fun k => (frames k).getD 0) ''
      ((Finset.Ico a s.allocs).filter fun k => (frames k).isSome : Finset ℕ) := by
    rw [h.tables_eq]
    ext t
    simp only [Set.mem_ofPred_eq, Set.mem_image, Finset.coe_filter, Finset.mem_Ico]
    refine exists_congr fun k => ?_
    cases frames k <;> simp [and_assoc]
  rw [himage, Set.InjOn.ncard_image, Set.ncard_coe_finset, framesTaken]
  intro k hk k' hk' heq
  obtain ⟨f, hkf⟩ := Option.isSome_iff_exists.mp (Finset.mem_filter.mp hk).2
  obtain ⟨f', hkf'⟩ := Option.isSome_iff_exists.mp (Finset.mem_filter.mp hk').2
  dsimp only at heq
  rw [hkf, hkf', Option.getD_some, Option.getD_some] at heq
  exact hf.distinct hkf (heq ▸ hkf')

/-- **Every table but the root has one entry that leads to it**, and the root has none. -/
lemma Shape.links (h : Shape frames s T) {t : ℕ} (ht : t ∈ s.tables) :
    (t ≠ s.cr3 &&& addrMask → ∃! p, s.Links t p) ∧
      (t = s.cr3 &&& addrMask → ∀ p, ¬ s.Links t p) := by
  obtain ⟨level, htable⟩ := ht
  obtain ⟨n, hn⟩ := h.isTable_iff.mp htable
  -- an entry that leads to the table is the one that governs it
  have hgoverns : ∀ {p}, s.Links t p → ∃ q, level < 3 ∧ T (level + 1) q = some p.1 ∧ p.2 < 512 ∧
      n = q * 512 + p.2 := by
    rintro p ⟨level₁, habove, hindex, hpresent, hsmall, haddr⟩
    obtain ⟨q, hq⟩ := h.isTable_iff.mp habove
    have hchild := h.table_of_entry hq hindex hpresent hsmall
    rw [haddr] at hchild
    obtain ⟨rfl, rfl⟩ := h.inj hn hchild
    have htop := h.top (Option.isSome_of_eq_some hq)
    exact ⟨q, by omega, hq, hindex, rfl⟩
  have hroot : level = 3 ↔ t = s.cr3 &&& addrMask := by
    constructor
    · rintro rfl
      obtain ⟨-, rfl⟩ := (h.top (Option.isSome_of_eq_some hn)).resolve_left (by omega)
      exact Option.some.inj (hn.symm.trans h.root)
    · rintro rfl
      exact (h.inj hn h.root).1
  refine ⟨fun hne => ?_, fun heq p hp => ?_⟩
  · have hlevel : level < 3 := by
      have htop := h.top (Option.isSome_of_eq_some hn)
      have hthree : level ≠ 3 := fun h3 => hne (hroot.mp h3)
      omega
    obtain ⟨p, hp, hpresent, hh, haddr⟩ := h.entry_of_table hlevel hn
    refine ⟨(p, n % 512), ⟨level, h.isTable_iff.mpr ⟨_, hp⟩, Nat.mod_lt n (by norm_num), hpresent,
      fun hlarge => hlarge.2 hh, haddr⟩, ?_⟩
    rintro ⟨p', index⟩ hlinks
    obtain ⟨q, -, hq, hindex, rfl⟩ := hgoverns hlinks
    dsimp only at hq hindex
    have hdiv : (q * 512 + index) / 512 = q := by omega
    have hmod : (q * 512 + index) % 512 = index := by omega
    rw [hdiv] at hp
    rw [hmod, Option.some.inj (hp.symm.trans hq)]
  · obtain ⟨q, hlt, -⟩ := hgoverns hp
    have hthree := hroot.mpr heq
    omega

/-! ## Calls -/

/-- A call that maps a page. -/
lemma call_mapped {c : PagingCall} {r : Except MapError Unit} (hc : c.Words)
    (hrun : s.call frames c = .ok (s', .mapped r)) :
    ∃ phys flags userPage, c.virt < 2 ^ 64 ∧ phys < 2 ^ 64 ∧
      s.mapInner frames c.virt phys flags userPage = .ok (s', r) := by
  cases c with
  | mapPage virt phys flags =>
    obtain ⟨⟨s₁, r₁⟩, hmap, hret⟩ := Exec.bind_eq_ok.mp hrun
    obtain ⟨rfl, hr⟩ := Prod.mk.inj (Except.ok.inj hret)
    obtain rfl := PagingResult.mapped.inj hr
    exact ⟨phys, flags, false, hc.1, hc.2.1, hmap⟩
  | mapUserPage virt phys flags =>
    obtain ⟨⟨s₁, r₁⟩, hmap, hret⟩ := Exec.bind_eq_ok.mp hrun
    obtain ⟨rfl, hr⟩ := Prod.mk.inj (Except.ok.inj hret)
    obtain rfl := PagingResult.mapped.inj hr
    exact ⟨phys, flags, true, hc.1, hc.2.1, Paging.mapUserPage_ok hmap⟩
  | unmapPage virt =>
    obtain ⟨x, -, hret⟩ := Exec.bind_eq_ok.mp hrun
    cases (Prod.mk.inj (Except.ok.inj hret)).2

/-- **A call that unmaps a page takes no frame and leaves the tables.** -/
lemma call_unmapped (h : Shape frames s T) (hf : FreshFrames frames) {c : PagingCall}
    {found : Bool} (hc : c.Words) (hrun : s.call frames c = .ok (s', .unmapped found)) :
    s'.allocs = s.allocs ∧ ∀ level t, s'.IsTable level t ↔ s.IsTable level t := by
  cases c with
  | unmapPage virt =>
    obtain ⟨⟨s₁, found₁⟩, hunmap, hret⟩ := Exec.bind_eq_ok.mp hrun
    obtain ⟨rfl, -⟩ := Prod.mk.inj (Except.ok.inj hret)
    have hallocs := unmapPage_allocs hunmap
    rw [unmapPage_mod hc] at hunmap
    obtain ⟨s₂, hrun₂, hshape, -⟩ := unmapPage_eq h hf (Nat.mod_lt virt (by norm_num))
    obtain ⟨rfl, -⟩ := Prod.mk.inj (Except.ok.inj (hrun₂.symm.trans hunmap))
    exact ⟨hallocs, fun level t => by rw [hshape.isTable_iff, h.isTable_iff]⟩
  | mapPage | mapUserPage =>
    obtain ⟨x, -, hret⟩ := Exec.bind_eq_ok.mp hrun
    cases (Prod.mk.inj (Except.ok.inj hret)).2

namespace Paging

/-- The tables are accounted for. -/
def IsAccounted (frames : ℕ → Option ℕ) (a : ℕ) (s : Paging) : Prop :=
  ∃ T, Accounted frames a s T

/-- A step keeps the account. -/
lemma IsAccounted.step {a : ℕ} (hf : FreshFrames frames) (h : IsAccounted frames a s)
    (x : PagingCall × PagingResult) (hstep : WordSteps frames s x s') :
    IsAccounted frames a s' := by
  obtain ⟨T, h⟩ := h
  obtain ⟨T', h', -⟩ := h.call hf hstep.1 hstep.2
  exact ⟨T', h'⟩

/-- **A region that once had a page misses no table.** -/
lemma missing_of_mem {a : ℕ} {t : Paging} (hf : FreshFrames frames)
    (hs : IsAccounted frames a s) {tr : List (Transition Paging (PagingCall × PagingResult))}
    (hrun : Run (WordSteps frames) s tr t) {x : Transition Paging (PagingCall × PagingResult)}
    (hx : x ∈ tr) (hok : x.event.2 = .mapped (.ok ())) : t.missing x.event.1.virt = 0 := by
  obtain ⟨tr₁, tr₂, rfl⟩ := List.append_of_mem hx
  obtain ⟨s₁, hrun₁, hrun₂⟩ := hrun.exists_of_append
  have hs₁ := hrun₁.invariant (I := IsAccounted frames a) (fun _ y _ h hstep => h.step hf y hstep)
    hs
  cases hrun₂ with
  | @cons _ s₂ _ e _ hstep hrest =>
    dsimp only at hok ⊢
    -- from the mapping on no walk misses more
    refine (hrest.invariant (I := fun s => IsAccounted frames a s ∧ s.missing e.1.virt = 0) ?_
      ⟨hs₁.step hf e hstep, ?_⟩).2
    · rintro s₃ y s₄ ⟨⟨T, h⟩, hzero⟩ hstep₃
      obtain ⟨T', h', hkept⟩ := h.call hf hstep₃.1 hstep₃.2
      exact ⟨⟨T', h'⟩, Nat.le_zero.mp (hzero ▸ missing_le h.toShape h'.toShape hkept _)⟩
    · obtain ⟨T, h⟩ := hs₁
      obtain ⟨c, r⟩ := e
      dsimp only at hok
      subst hok
      obtain ⟨phys, flags, userPage, hvirt, hphys, hmap⟩ := call_mapped hstep.1 hstep.2
      exact missing_of_mapped h.toShape hf hvirt hphys hmap

end Paging

/-- **The memory for tables is bounded by the tables touched.**  After every run of calls on the
first address space, whatever they returned, as many frames were taken as there are tables within
reach of the root, three of them at first, and every table but the root has exactly one entry that
leads to it.  A call that maps a page takes one frame for each table missing on its walk, fewer
exactly if it runs out; one that unmaps a page makes no request and leaves every table; and no call
makes a request in a region of 2 MiB in which a page was mapped before. -/
theorem table_frames_exact (frames : ℕ → Option ℕ) (hf : FreshFrames frames)
    (boot s₀ s : Paging) (pml4 : ℕ) (hb : boot.buildAddressSpace frames = .ok (s₀, pml4))
    (tr : List (Transition Paging (PagingCall × PagingResult)))
    (hrun : Run (Paging.WordSteps frames) (s₀.writeCr3 pml4) tr s) :
    (framesTaken frames boot.allocs s₀.allocs = 3 ∧
      framesTaken frames boot.allocs s.allocs = s.tables.ncard ∧
      ∀ t ∈ s.tables, (t ≠ s.cr3 &&& addrMask → ∃! p, s.Links t p) ∧
        (t = s.cr3 &&& addrMask → ∀ p, ¬ s.Links t p)) ∧
    ∀ (c : PagingCall) (s' : Paging) (r : PagingResult), c.Words → s.call frames c = .ok (s', r) →
      (∀ r', r = .mapped r' →
        framesTaken frames s.allocs s'.allocs ≤ s.missing c.virt ∧ s.missing c.virt ≤ 3 ∧
        (framesTaken frames s.allocs s'.allocs < s.missing c.virt ↔ r' = .error .outOfFrames)) ∧
      (∀ found, r = .unmapped found →
        s'.allocs = s.allocs ∧ ∀ level t, s'.IsTable level t ↔ s.IsTable level t) ∧
      ((∃ x ∈ tr, x.event.2 = .mapped (.ok ()) ∧ x.event.1.virt / 2 ^ 21 = c.virt / 2 ^ 21) →
        s'.allocs = s.allocs) := by
  have hfirst : Paging.IsAccounted frames boot.allocs (s₀.writeCr3 pml4) := accounted_first hf hb
  obtain ⟨T, h⟩ := hrun.invariant (I := Paging.IsAccounted frames boot.allocs)
    (fun _ x _ hs hstep => hs.step hf x hstep) hfirst
  refine ⟨⟨?_, (h.ncard_tables hf).symm, fun t ht => h.links ht⟩, fun c s' r hc hcall => ?_⟩
  · obtain ⟨pdpt, pd, h0, h1, h2, hallocs, -⟩ := buildAddressSpace_first hf hb
    rw [hallocs]
    refine framesTaken_of_isSome fun i hi => ?_
    interval_cases i
    · exact Option.isSome_of_eq_some h0
    · exact Option.isSome_of_eq_some h1
    · exact Option.isSome_of_eq_some h2
  refine ⟨?_, ?_, ?_⟩
  · rintro r' rfl
    obtain ⟨phys, flags, userPage, hvirt, hphys, hmap⟩ := call_mapped hc hcall
    obtain ⟨hle, hlt⟩ := (mapInner_requested h.toShape hf hvirt hphys hmap).framesTaken
    exact ⟨hle, missingTables_le s _ 3 _, hlt⟩
  · rintro found rfl
    exact call_unmapped h.toShape hf hc hcall
  · rintro ⟨x, hx, hok, hregion⟩
    cases r with
    | unmapped found => exact (call_unmapped h.toShape hf hc hcall).1
    | mapped r =>
      obtain ⟨phys, flags, userPage, hvirt, hphys, hmap⟩ := call_mapped hc hcall
      have hreq := mapInner_requested h.toShape hf hvirt hphys hmap
      have hzero : s.missing c.virt = 0 := by
        rw [← missing_congr fun level _ => tableIndex_region hregion level]
        exact Paging.missing_of_mem hf hfirst hrun hx hok
      rw [hzero] at hreq
      cases hreq with
      | all _ _ hallocs => exact hallocs
      | refused hj => exact absurd hj (Nat.not_lt_zero _)

/-- On the sample machine the first page at 1 GiB takes two frames, for a page directory and a page
table, and the five tables lie in the five frames taken. -/
theorem table_frames_exact_sampleBoot :
    ∃ s₀ s', sampleBoot.buildAddressSpace sampleFrames = .ok (s₀, 0x1000) ∧
      (s₀.writeCr3 0x1000).call sampleFrames (.mapPage 0x40000000 0x5000 writable) =
        .ok (s', .mapped (.ok ())) ∧
      framesTaken sampleFrames s₀.allocs s'.allocs = 2 ∧
      framesTaken sampleFrames sampleBoot.allocs s'.allocs = s'.tables.ncard := by
  obtain ⟨s₀, hb⟩ := sampleBoot_build
  have hresult : (do
      let x ← sampleBoot.buildAddressSpace sampleFrames
      let y ← (x.1.writeCr3 x.2).call sampleFrames (.mapPage 0x40000000 0x5000 writable)
      pure ((x.1.writeCr3 x.2).missing 0x40000000, y.2)) = .ok (2, .mapped (.ok ())) := by
    decide +kernel
  rw [hb, Exec.bind_ok] at hresult
  obtain ⟨⟨s', r⟩, hcall, hr⟩ := Exec.bind_eq_ok.mp hresult
  obtain ⟨hmissing, rfl⟩ := Prod.mk.inj (Except.ok.inj hr)
  have hstep : Paging.WordSteps sampleFrames (s₀.writeCr3 0x1000)
      (.mapPage 0x40000000 0x5000 writable, .mapped (.ok ())) s' := ⟨by decide, hcall⟩
  obtain ⟨-, hcalls⟩ := table_frames_exact sampleFrames freshFrames_sampleFrames sampleBoot s₀ _
    0x1000 hb [] (.nil _)
  obtain ⟨⟨-, hcount, -⟩, -⟩ := table_frames_exact sampleFrames freshFrames_sampleFrames sampleBoot
    s₀ _ 0x1000 hb _ (.cons hstep (.nil _))
  obtain ⟨hle, -, hlt⟩ := (hcalls _ s' _ hstep.1 hcall).1 _ rfl
  have hvirt : (PagingCall.mapPage 0x40000000 0x5000 writable).virt = 0x40000000 := rfl
  rw [hvirt, hmissing] at hle hlt
  exact ⟨s₀, s', hb, hcall, le_antisymm hle (not_lt.mp fun hfew => by simpa using hlt.mp hfew),
    hcount⟩

end ZiranOS
