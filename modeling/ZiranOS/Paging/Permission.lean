import ZiranOS.Paging.Access

/-!
# The permission walk and the translation walk

`userLevels` and `translateLevels` walk the same tables and are written apart from each other.  Over
tables with arbitrary contents, as long as they lie in the identity map (`LowTables`), both walks
return, and a page that the first one accepts is translated by the second one and has the `user`
flag in every entry of its walk (`pageUserAccessible_eq`).
-/

namespace ZiranOS

open ProgLib

namespace Paging

/-- The entry of a table. -/
def entryAt (s : Paging) (table index : ℕ) : ℕ := s.mem (table + 8 * index)

/-- The tables that a walk can reach from the root, with their levels. -/
inductive IsTable (s : Paging) : (level table : ℕ) → Prop
  /-- The root. -/
  | root : IsTable s 3 (s.cr3 &&& addrMask)
  /-- The table of a present entry that is not a large page. -/
  | next {level table index : ℕ} (habove : IsTable s (level + 1) table) (hindex : index < 512)
      (hpresent : s.entryAt table index &&& present ≠ 0)
      (hsmall : ¬ (level + 1 ≤ 2 ∧ s.entryAt table index &&& huge ≠ 0)) :
      IsTable s level (s.entryAt table index &&& addrMask)

/-- All tables that a walk can reach lie in the identity map. -/
def LowTables (s : Paging) : Prop := ∀ {level table}, s.IsTable level table → table < identityLimit

/-- The entries that a walk for `virt` meets, from the table of the given level on. -/
def walkLevels (s : Paging) (virt : ℕ) : (level table : ℕ) → List ℕ
  | 0, table => [s.entryAt table (tableIndex virt 0)]
  | level + 1, table =>
    let entry := s.entryAt table (tableIndex virt (level + 1))
    if entry &&& present = 0 ∨ level + 1 ≤ 2 ∧ entry &&& huge ≠ 0 then [entry]
    else entry :: s.walkLevels virt level (entry &&& addrMask)

/-- The entries that a walk of the live tables for `virt` meets. -/
def walk (s : Paging) (virt : ℕ) : List ℕ := s.walkLevels virt 3 (s.cr3 &&& addrMask)

/-- Ring 3 can read at the address: it is translated, and every entry of the walk is present and for
the user. -/
def UserReadable (s : Paging) (virt : ℕ) : Prop :=
  (∃ phys, s.translate virt = .ok (some phys)) ∧ ∀ entry ∈ s.walk virt, UserEntry entry

end Paging

variable {s : Paging}

/-- Reading an entry of a table that a walk can reach. -/
lemma Paging.LowTables.readEntry_eq (h : s.LowTables) {level table : ℕ}
    (ht : s.IsTable level table) (index : ℕ) :
    s.readEntry table index = .ok (s.entryAt table index) := by
  rw [Paging.readEntry, physToVirt, if_pos (h ht)]
  rfl

/-- An index lies in its table. -/
lemma tableIndex_lt (virt level : ℕ) : tableIndex virt level < 512 := by
  rw [tableIndex_eq]
  exact Nat.mod_lt _ (by norm_num)

/-- A walk meets an entry in the first of its tables. -/
lemma entryAt_mem_walkLevels (virt level table : ℕ) :
    s.entryAt table (tableIndex virt level) ∈ s.walkLevels virt level table := by
  cases level with
  | zero => exact List.mem_singleton_self _
  | succ level =>
    unfold Paging.walkLevels
    dsimp only
    split_ifs
    · exact List.mem_singleton_self _
    · exact List.mem_cons_self

/-- A walk goes on below an entry that is present and not a large page. -/
lemma walkLevels_succ {virt level table : ℕ}
    (hp : s.entryAt table (tableIndex virt (level + 1)) &&& present ≠ 0)
    (hsmall : ¬ (level + 1 ≤ 2 ∧ s.entryAt table (tableIndex virt (level + 1)) &&& huge ≠ 0)) :
    s.walkLevels virt (level + 1) table = s.entryAt table (tableIndex virt (level + 1)) ::
      s.walkLevels virt level (s.entryAt table (tableIndex virt (level + 1)) &&& addrMask) := by
  rw [Paging.walkLevels, if_neg (not_or.mpr ⟨hp, hsmall⟩)]

/-- **The permission walk accepts exactly if all entries of the walk are open.** -/
lemma Paging.LowTables.userLevels_eq (h : s.LowTables) (virt : ℕ) :
    ∀ level table, s.IsTable level table → ∃ b, s.userLevels virt level table = .ok b ∧
      (b = true ↔ ∀ entry ∈ s.walkLevels virt level table, UserEntry entry) := by
  intro level
  induction level with
  | zero =>
    intro table ht
    unfold Paging.userLevels Paging.walkLevels
    rw [h.readEntry_eq ht, Exec.bind_ok]
    refine ⟨_, rfl, ?_⟩
    simp [UserEntry]
  | succ level ih =>
    intro table ht
    have hmem := entryAt_mem_walkLevels (s := s) virt (level + 1) table
    unfold Paging.userLevels
    rw [h.readEntry_eq ht, Exec.bind_ok]
    split_ifs with hclosed hhuge
    · refine ⟨false, rfl, iff_of_false (by simp) fun hall => ?_⟩
      exact hclosed.elim (hall _ hmem).1 (hall _ hmem).2
    · refine ⟨true, rfl, iff_of_true rfl fun entry hentry => ?_⟩
      rw [Paging.walkLevels, if_pos (Or.inr hhuge)] at hentry
      obtain rfl := List.mem_singleton.mp hentry
      exact not_or.mp hclosed
    · obtain ⟨hp, hu⟩ := not_or.mp hclosed
      obtain ⟨b, hrun, hb⟩ := ih _ (.next ht (tableIndex_lt virt _) hp hhuge)
      refine ⟨b, hrun, hb.trans ?_⟩
      rw [walkLevels_succ hp hhuge, List.forall_mem_cons]
      exact (and_iff_right ⟨hp, hu⟩).symm

/-- **The translation walk translates where all entries are present.** -/
lemma Paging.LowTables.translateLevels_eq (h : s.LowTables) (virt : ℕ) :
    ∀ level table, s.IsTable level table →
      (∀ entry ∈ s.walkLevels virt level table, entry &&& present ≠ 0) →
      ∃ phys, s.translateLevels virt level table = .ok (some phys) := by
  intro level
  induction level with
  | zero =>
    intro table ht hall
    unfold Paging.translateLevels
    rw [h.readEntry_eq ht, Exec.bind_ok, if_neg (hall _ (List.mem_singleton_self _))]
    exact ⟨_, rfl⟩
  | succ level ih =>
    intro table ht hall
    have hp := hall _ (entryAt_mem_walkLevels virt (level + 1) table)
    unfold Paging.translateLevels
    rw [h.readEntry_eq ht, Exec.bind_ok, if_neg hp]
    split_ifs with hhuge
    · exact ⟨_, rfl⟩
    · rw [walkLevels_succ hp hhuge] at hall
      exact ih _ (.next ht (tableIndex_lt virt _) hp hhuge)
        fun entry hentry => hall entry (List.mem_cons_of_mem _ hentry)

/-- **The two walks agree**: the check of a page accepts exactly if ring 3 can read there. -/
lemma Paging.LowTables.pageUserAccessible_eq (h : s.LowTables) (virt : ℕ) :
    ∃ b, s.pageUserAccessible virt = .ok b ∧ (b = true ↔ s.UserReadable virt) := by
  obtain ⟨b, hrun, hb⟩ := h.userLevels_eq virt 3 _ .root
  refine ⟨b, hrun, hb.trans ⟨fun hall => ⟨?_, hall⟩, And.right⟩⟩
  exact h.translateLevels_eq virt 3 _ .root fun entry hentry => (hall entry hentry).1

/-! ## Addresses of one page -/

/-- The addresses of a page have the same entries. -/
lemma tableIndex_of_page (virt level : ℕ) :
    tableIndex (virt / 4096 * 4096) level = tableIndex virt level := by
  rw [tableIndex_eq, tableIndex_eq, slot_page]

/-- The addresses of a page have the same walk. -/
lemma walkLevels_page (virt : ℕ) : ∀ level table,
    s.walkLevels (virt / 4096 * 4096) level table = s.walkLevels virt level table := by
  intro level
  induction level with
  | zero =>
    intro table
    unfold Paging.walkLevels
    rw [tableIndex_of_page]
  | succ level ih =>
    intro table
    unfold Paging.walkLevels
    dsimp only
    rw [tableIndex_of_page, ih]

/-- Ring 3 can read at an address if it can read at the page of the address. -/
lemma Paging.LowTables.userReadable_of_page (h : s.LowTables) {virt : ℕ}
    (hpage : s.UserReadable (virt / 4096 * 4096)) : s.UserReadable virt := by
  have hall : ∀ entry ∈ s.walk virt, UserEntry entry := by
    have := hpage.2
    rwa [Paging.walk, walkLevels_page] at this
  exact ⟨h.translateLevels_eq virt 3 _ .root fun entry hentry => (hall entry hentry).1, hall⟩

end ZiranOS
