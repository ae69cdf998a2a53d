import ZiranOS.Paging.Tables

/-!
# The tree of tables in memory

A `TableTree` says which tables exist: `T level q` is the frame of the table of that level for the
`q`-th region of its size, with level 3 for the root and level 0 for the page tables.  The entries
of one level are numbered through: the entry `n` lies in the table `n / 512` of its level, at the
index `n % 512`, and governs the table `n` of the level below.  `Paging.word` is the contents of an
entry, so that a write to one entry changes `word` at one argument (`word_setWord`), however the
tables lie in memory.

`Shape` is the invariant of the tree: distinct tables lie in distinct frames of the allocator, every
entry points to the table it governs or is not present, and the first page directory holds the
identity map.  `Grow` lists what a walk does to the tables on its way down; each of its three steps
keeps the invariant (`Grow.shape`) and the translation of every page (`Grow.pageAt_eq`).
-/

namespace ZiranOS

open ProgLib

/-- The identity map ends at 1 GiB. -/
lemma identityLimit_eq : identityLimit = 2 ^ 30 := by decide

/-! ## The frame allocator -/

/-- The frame allocator hands out aligned frames of the identity map, none of them twice. -/
structure FreshFrames (frames : ℕ → Option ℕ) : Prop where
  /-- Frames are aligned. -/
  aligned : ∀ {k f}, frames k = some f → frameSize ∣ f
  /-- Frames lie in the identity map. -/
  low : ∀ {k f}, frames k = some f → f < identityLimit
  /-- No frame is handed out twice. -/
  distinct : ∀ {k k' f}, frames k = some f → frames k' = some f → k = k'

/-! ## Entries by number -/

/-- The number of the entry for `virt` among all entries of a level. -/
def slot (virt level : ℕ) : ℕ := virt / 2 ^ (12 + 9 * level)

/-- The index of an entry in its table. -/
lemma tableIndex_eq (virt level : ℕ) : tableIndex virt level = slot virt level % 512 := by
  have h511 : (0x1FF : ℕ) = 2 ^ 9 - 1 := rfl
  rw [tableIndex, slot, Nat.shiftRight_eq_div_pow, h511, Nat.and_two_pow_sub_one_eq_mod]

/-- The table of an entry is governed by the entry of the level above. -/
lemma slot_succ (virt level : ℕ) : slot virt (level + 1) = slot virt level / 512 := by
  have h : 12 + 9 * (level + 1) = 12 + 9 * level + 9 := by ring
  rw [slot, slot, h, Nat.pow_add, ← Nat.div_div_eq_div_mul]

/-- The entry of a page depends on the page only. -/
lemma slot_page (virt level : ℕ) : slot (virt / 4096 * 4096) level = slot virt level := by
  have h : (2 : ℕ) ^ (12 + 9 * level) = 4096 * 2 ^ (9 * level) := by rw [Nat.pow_add]
  rw [slot, slot, h, ← Nat.div_div_eq_div_mul, ← Nat.div_div_eq_div_mul,
    Nat.mul_div_cancel _ (by norm_num)]

/-- The tables in use: the frame of each table, by its level and its number. -/
abbrev TableTree := ℕ → ℕ → Option ℕ

/-- One more table. -/
def TableTree.insert (T : TableTree) (level n frame : ℕ) : TableTree := fun level' n' =>
  if level' = level ∧ n' = n then some frame else T level' n'

namespace Paging

/-- The contents of an entry, if its table exists. -/
def word (s : Paging) (T : TableTree) (level n : ℕ) : Option ℕ :=
  (T level (n / 512)).map fun table => s.mem (table + 8 * (n % 512))

/-- What a write to an entry leaves. -/
def setWord (s : Paging) (table index entry : ℕ) : Paging :=
  { s with mem := Function.update s.mem (table + 8 * index) entry }

/-- What zeroing a newly allocated frame leaves. -/
def zeroed (s : Paging) (frame : ℕ) : Paging where
  mem a := if frame ≤ a ∧ a < frame + frameSize ∧ (a - frame) % 8 = 0 then 0 else s.mem a
  cr3 := s.cr3
  allocs := s.allocs + 1

/-- The page that a leaf entry maps. -/
def leafPage (entry : ℕ) : Option ℕ :=
  if entry &&& present = 0 then none else some (entry &&& addrMask)

/-- The frame to which a page is mapped by a page table. -/
def pageAt (s : Paging) (T : TableTree) (n : ℕ) : Option ℕ := (s.word T 0 n).bind leafPage

end Paging

/-- An entry points to the given table, or to nothing. -/
def Points (entry : ℕ) : Option ℕ → Prop
  | none => entry &&& present = 0
  | some table => entry &&& present ≠ 0 ∧ entry &&& huge = 0 ∧ entry &&& addrMask = table

/-- An entry that points to nothing is not present. -/
@[simp] lemma points_none {w : ℕ} : Points w none ↔ w &&& present = 0 := Iff.rfl

/-- An entry that points to a table is present and not a large page. -/
@[simp] lemma points_some {w t : ℕ} :
    Points w (some t) ↔ w &&& present ≠ 0 ∧ w &&& huge = 0 ∧ w &&& addrMask = t := Iff.rfl

/-! ## The invariant -/

/-- The tables lie in distinct frames of the allocator. -/
structure Placed (frames : ℕ → Option ℕ) (s : Paging) (T : TableTree) : Prop where
  /-- Every table lies in a frame that was handed out. -/
  used : ∀ {level q t}, T level q = some t → ∃ k < s.allocs, frames k = some t
  /-- Distinct tables lie in distinct frames. -/
  inj : ∀ {level q level₁ q₁ t}, T level q = some t → T level₁ q₁ = some t →
    level = level₁ ∧ q = q₁

/-- The invariant of the tables. -/
structure Shape (frames : ℕ → Option ℕ) (s : Paging) (T : TableTree) : Prop
    extends Placed frames s T where
  /-- The root is the table of level 3. -/
  root : T 3 0 = some (s.cr3 &&& addrMask)
  /-- The root is the only table of its level, and there is no level above it. -/
  top : ∀ {level n}, (T level n).isSome → level < 3 ∨ level = 3 ∧ n = 0
  /-- Every table but the root is governed by an entry. -/
  parent : ∀ {level n}, level < 3 → (T level n).isSome → (T (level + 1) (n / 512)).isSome
  /-- An entry points to the table it governs; the first page directory is the exception. -/
  link : ∀ {level n entry}, s.word T (level + 1) n = some entry → level ≠ 0 ∨ 512 ≤ n →
    Points entry (T level n)
  /-- The first page directory is the identity map. -/
  directory : ∀ {n}, n < 512 → s.word T 1 n = some (Paging.identityEntry n)
  /-- No page table lies under the identity map. -/
  noTable : ∀ {n}, n < 512 → T 0 n = none

section Placement

variable {frames : ℕ → Option ℕ} {s : Paging} {T : TableTree}

namespace Placed

/-- Tables are aligned. -/
lemma aligned (h : Placed frames s T) (hf : FreshFrames frames) {level q t : ℕ}
    (ht : T level q = some t) : frameSize ∣ t := by
  obtain ⟨k, -, hk⟩ := h.used ht
  exact hf.aligned hk

/-- Tables lie in the identity map. -/
lemma low (h : Placed frames s T) (hf : FreshFrames frames) {level q t : ℕ}
    (ht : T level q = some t) : t < identityLimit := by
  obtain ⟨k, -, hk⟩ := h.used ht
  exact hf.low hk

/-- The next frame is not the frame of a table. -/
lemma ne_next (h : Placed frames s T) (hf : FreshFrames frames) {level q t g : ℕ}
    (ht : T level q = some t) (hg : frames s.allocs = some g) : t ≠ g := by
  rintro rfl
  obtain ⟨k, hlt, hk⟩ := h.used ht
  exact absurd (hf.distinct hk hg) (by omega)

/-- A new frame can hold a new table. -/
lemma insert (h : Placed frames s T) (hf : FreshFrames frames) {g : ℕ}
    (hg : frames s.allocs = some g) (level n : ℕ) :
    Placed frames (s.zeroed g) (T.insert level n g) where
  used := by
    intro level₁ q t₁ ht₁
    rw [TableTree.insert] at ht₁
    split_ifs at ht₁
    · exact ⟨s.allocs, Nat.lt_succ_self _, hg.trans ht₁⟩
    · obtain ⟨k, hlt, hk⟩ := h.used ht₁
      exact ⟨k, Nat.lt_succ_of_lt hlt, hk⟩
  inj := by
    intro level₁ q₁ level₂ q₂ t₁ ht₁ ht₂
    rw [TableTree.insert] at ht₁ ht₂
    split_ifs at ht₁ ht₂ with h₁ h₂ h₂
    · exact ⟨h₁.1.trans h₂.1.symm, h₁.2.trans h₂.2.symm⟩
    · exact absurd (Option.some.inj ht₁).symm (h.ne_next hf ht₂ hg)
    · exact absurd (Option.some.inj ht₂).symm (h.ne_next hf ht₁ hg)
    · exact h.inj ht₁ ht₂

/-- Writes keep the tables where they are. -/
lemma setWord (h : Placed frames s T) (t index w : ℕ) : Placed frames (s.setWord t index w) T :=
  ⟨h.used, h.inj⟩

end Placed

/-! ## Writes -/

/-- The contents of an entry whose table is known. -/
lemma word_eq {level n t : ℕ} (ht : T level (n / 512) = some t) :
    s.word T level n = some (s.mem (t + 8 * (n % 512))) := by
  rw [Paging.word, ht, Option.map_some]

/-- Two aligned frames share an entry only if they are one frame. -/
lemma entry_inj {t t₁ i i₁ : ℕ} (ht : frameSize ∣ t) (ht₁ : frameSize ∣ t₁) (hi : i < 512)
    (hi₁ : i₁ < 512) (h : t + 8 * i = t₁ + 8 * i₁) : t = t₁ ∧ i = i₁ := by
  rw [frameSize] at ht ht₁
  omega

/-- A write to an entry changes that entry only. -/
lemma word_setWord (h : Placed frames s T) (hf : FreshFrames frames) {level n t w : ℕ}
    (ht : T level (n / 512) = some t) (level₁ n₁ : ℕ) :
    (s.setWord t (n % 512) w).word T level₁ n₁ =
      if level₁ = level ∧ n₁ = n then some w else s.word T level₁ n₁ := by
  split_ifs with heq
  · obtain ⟨rfl, rfl⟩ := heq
    simp [Paging.word, Paging.setWord, ht]
  · rw [Paging.word, Paging.word]
    cases ht₁ : T level₁ (n₁ / 512) with
    | none => rfl
    | some t₁ =>
      refine congrArg some (Function.update_of_ne (fun hadr => heq ?_) _ _)
      obtain ⟨rfl, hidx⟩ := entry_inj (h.aligned hf ht₁) (h.aligned hf ht)
        (Nat.mod_lt _ (by norm_num)) (Nat.mod_lt _ (by norm_num)) hadr
      obtain ⟨rfl, hq⟩ := h.inj ht₁ ht
      exact ⟨rfl, by omega⟩

/-- A new table in a zeroed frame has entries that are zero; the other tables are as before. -/
lemma word_zeroed (h : Placed frames s T) (hf : FreshFrames frames) {g : ℕ}
    (hg : frames s.allocs = some g) (level n level₁ n₁ : ℕ) :
    (s.zeroed g).word (T.insert level n g) level₁ n₁ =
      if level₁ = level ∧ n₁ / 512 = n then some 0 else s.word T level₁ n₁ := by
  have hmod : n₁ % 512 < 512 := Nat.mod_lt _ (by norm_num)
  rw [Paging.word, TableTree.insert]
  split_ifs with hnew
  · refine congrArg some (if_pos ?_)
    unfold frameSize
    omega
  · rw [Paging.word]
    cases ht₁ : T level₁ (n₁ / 512) with
    | none => rfl
    | some t₁ =>
      have hne := h.ne_next hf ht₁ hg
      have hdvd := h.aligned hf ht₁
      have hdvd' := hf.aligned hg
      rw [frameSize] at hdvd hdvd'
      refine congrArg some (if_neg ?_)
      unfold frameSize
      omega

/-- Linking a new, zeroed table changes the linking entry and adds 512 entries that are zero. -/
lemma word_insert (h : Placed frames s T) (hf : FreshFrames frames) {level n t g w : ℕ}
    (ht : T (level + 1) (n / 512) = some t) (hg : frames s.allocs = some g) (level₁ n₁ : ℕ) :
    ((s.zeroed g).setWord t (n % 512) w).word (T.insert level n g) level₁ n₁ =
      if level₁ = level + 1 ∧ n₁ = n then some w
      else if level₁ = level ∧ n₁ / 512 = n then some 0
      else s.word T level₁ n₁ := by
  have ht' : T.insert level n g (level + 1) (n / 512) = some t := by
    rwa [TableTree.insert, if_neg (by omega)]
  rw [word_setWord (h.insert hf hg level n) hf ht', word_zeroed h hf hg]

end Placement

namespace Shape

variable {frames : ℕ → Option ℕ} {s : Paging} {T : TableTree}

/-- A table that is missing has no tables below it. -/
lemma absent_of_le (h : Shape frames s T) (virt : ℕ) : ∀ level ≤ 3,
    T level (slot virt (level + 1)) = none → ∀ l ≤ level, T l (slot virt (l + 1)) = none := by
  intro level
  induction level with
  | zero =>
    intro _ hnone l hl
    obtain rfl := Nat.le_zero.mp hl
    exact hnone
  | succ level ih =>
    intro hle hnone l hl
    rcases Nat.le_succ_iff.mp hl with hl | rfl
    · refine ih (by omega) (Option.not_isSome_iff_eq_none.mp fun hsome => ?_) l hl
      have := h.parent (by omega) hsome
      rw [← slot_succ, hnone] at this
      cases this
    · exact hnone

/-- An address with a missing table has no page table. -/
lemma absent_below (h : Shape frames s T) (virt level : ℕ) (hle : level ≤ 3)
    (hnone : T level (slot virt (level + 1)) = none) : T 0 (slot virt 1) = none :=
  h.absent_of_le virt level hle hnone 0 (Nat.zero_le _)

/-- The tables above the identity map exist. -/
lemma isSome_of_lt (h : Shape frames s T) :
    (T 1 0).isSome ∧ (T 2 0).isSome ∧ (T 3 0).isSome := by
  have h1 : (T 1 0).isSome := by
    have := h.directory (n := 0) (by omega)
    unfold Paging.word at this
    cases ht : T 1 0 with
    | none => rw [Nat.zero_div, ht] at this; cases this
    | some t => rfl
  have h2 := h.parent (by omega) h1
  exact ⟨h1, h2, h.parent (by omega) h2⟩

end Shape

/-! ## Bits of an entry -/

/-- The address and the flags of an entry are read back by their masks. -/
lemma entry_and {a f m : ℕ} (ha : frameSize ∣ a) (hf : f < frameSize) (hm : m < frameSize) :
    (a ||| f) &&& m = f &&& m :=
  or_and_of_lt (k := 12) ha hf hm

/-- The address of an entry is read back by the address mask. -/
lemma entry_and_addrMask {a f : ℕ} (ha : frameSize ∣ a) (hlt : a < 2 ^ 52) (hf : f < frameSize) :
    (a ||| f) &&& addrMask = a :=
  or_and_mask (k := 12) (w := 52) (by norm_num) ha hlt hf

/-- The entry for a new table points to it. -/
lemma points_newTable {g : ℕ} (hg : frameSize ∣ g) (hlow : g < identityLimit) (userPage : Bool) :
    Points (g ||| Paging.newTable userPage) (some g) := by
  have hflags : Paging.newTable userPage < frameSize := by cases userPage <;> decide
  have hlt : g < 2 ^ 52 := lt_trans hlow (by decide)
  refine ⟨?_, ?_, entry_and_addrMask hg hlt hflags⟩
  · rw [entry_and hg hflags (by decide)]
    cases userPage <;> decide
  · rw [entry_and hg hflags (by decide)]
    cases userPage <;> decide

/-- Letting ring 3 through an entry leaves its target. -/
lemma Points.loosen {w : ℕ} {g : Option ℕ} (h : Points w g) : Points (w ||| user) g := by
  have hand : ∀ m, user &&& m = 0 → (w ||| user) &&& m = w &&& m := by
    intro m hm
    rw [Nat.and_or_distrib_right, hm, Nat.or_zero]
  cases g with
  | none => exact (hand _ (by decide)).trans h
  | some g =>
    obtain ⟨hp, hh, ha⟩ := h
    refine ⟨?_, ?_, ?_⟩
    · rwa [hand _ (by decide)]
    · rwa [hand _ (by decide)]
    · rwa [hand _ (by decide)]

end ZiranOS
