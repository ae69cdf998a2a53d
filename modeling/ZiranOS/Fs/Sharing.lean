import ZiranOS.Fs.BootImage
import ZiranOS.Fs.Trace

/-!
# When a table is shared

The comment of `validate_dir` promises that an accepted directory graph is a tree: a second entry
that points at a table already seen starts below the high-water mark, so every table is validated
exactly once.  The mark is compared with the start of a table only, and an empty table ends where it
starts, so entries that name one and the same empty table all pass.

`DirectoryTree` states the promise for the log of a validation run, with `Chain` for the chains of
entries that lead to a table.  On the images the readers accept it holds exactly when no empty table
is named twice (`EmptyTablesApart`).
-/

namespace ZiranOS

open ProgLib Entries

variable {image : List UInt8}

/-! ## The directory graph of an image -/

/-- The table that the record at `base` names, as `(offset, length)`. -/
def namedTable (image : List UInt8) (base : ℕ) : ℕ × ℕ :=
  (u32At image (base + entOffset), u32At image (base + entLength))

/-- The root table, as `(offset, length)`. -/
def rootTable (image : List UInt8) : ℕ × ℕ := (superblockLen, direntLen * fileCount image)

/-- The record at `base` is a directory entry of the table `t`. -/
def DirEntryOf (image : List UInt8) (t : ℕ × ℕ) (base : ℕ) : Prop :=
  (∃ i < t.2 / direntLen, base = t.1 + direntLen * i) ∧ u32At image (base + entKind) = kindDir

/-- A chain of directory entries from the root table to a table: the addresses of the records, the
last one first. -/
inductive Chain (image : List UInt8) : List ℕ → ℕ × ℕ → Prop
  /-- No entry is needed for the root table. -/
  | root : Chain image [] (rootTable image)
  /-- A chain to a table is continued by an entry of that table. -/
  | step {chain : List ℕ} {t : ℕ × ℕ} {base : ℕ} (h : Chain image chain t)
      (he : DirEntryOf image t base) : Chain image (base :: chain) (namedTable image base)

/-- The record at `base` is a directory entry of a table that a chain leads to. -/
def DirEntry.Linked (image : List UInt8) (base : ℕ) : Prop :=
  ∃ chain t, Chain image chain t ∧ DirEntryOf image t base

/-- No two directory entries of length zero have the same offset. -/
def EmptyTablesApart (image : List UInt8) : Prop :=
  ∀ base base', DirEntry.Linked image base → DirEntry.Linked image base' →
    (namedTable image base).2 = 0 → (namedTable image base').2 = 0 →
    (namedTable image base).1 = (namedTable image base').1 → base = base'

/-- The directory entries a validation run met, by the addresses of their records. -/
def dirEntriesMet (image : List UInt8) (log : List ValidateEvent) : List ℕ :=
  log.filterMap fun
    | .entry base => if u32At image (base + entKind) = kindDir then some base else none
    | _ => none

/-- What the comment of `validate_dir` promises of a run with the given log. -/
structure DirectoryTree (image : List UInt8) (log : List ValidateEvent) : Prop where
  /-- Different directory entries name different tables. -/
  distinct : ∀ base ∈ dirEntriesMet image log, ∀ base' ∈ dirEntriesMet image log,
    base ≠ base' → namedTable image base ≠ namedTable image base'
  /-- No directory entry names the root table. -/
  not_root : ∀ base ∈ dirEntriesMet image log, namedTable image base ≠ rootTable image
  /-- Every table that a chain leads to is validated exactly once. -/
  once : ∀ chain t, Chain image chain t → (scans log).count t = 1
  /-- Exactly one chain leads to every table that is validated. -/
  chain : ∀ t ∈ scans log, ∃! chain, Chain image chain t

@[simp] lemma dirEntriesMet_append (l l' : List ValidateEvent) :
    dirEntriesMet image (l ++ l') = dirEntriesMet image l ++ dirEntriesMet image l' := by
  simp [dirEntriesMet]

@[simp] lemma dirEntriesMet_call (depth : ℕ) (l : List ValidateEvent) :
    dirEntriesMet image (.call depth :: l) = dirEntriesMet image l := rfl

@[simp] lemma dirEntriesMet_scan (off len : ℕ) (l : List ValidateEvent) :
    dirEntriesMet image (.scan off len :: l) = dirEntriesMet image l := rfl

lemma dirEntriesMet_entry (base : ℕ) (l : List ValidateEvent) :
    dirEntriesMet image (.entry base :: l) =
      if u32At image (base + entKind) = kindDir then base :: dirEntriesMet image l
      else dirEntriesMet image l := by
  simp only [dirEntriesMet, List.filterMap_cons]
  split_ifs <;> rfl

/-! ## The directory entries of a stored tree -/

namespace Entries

/-- The addresses of the directory entries of a tree whose first record is at the given address, in
pre-order. -/
def dirBases : ℕ → Entries → List ℕ
  | _, nil => []
  | base, file _ _ _ rest => rest.dirBases (base + direntLen)
  | base, dir _ offset _ sub rest =>
    base :: (sub.dirBases offset ++ rest.dirBases (base + direntLen))

/-- A run over a stored tree meets the directory entries of the tree. -/
lemma Stored.dirEntriesMet_events {es : Entries} : ∀ {base : ℕ}, Stored image base es →
    ∀ depth, dirEntriesMet image (es.events depth base) = es.dirBases base := by
  induction es with
  | nil => exact fun _ _ => rfl
  | file name o l rest ih =>
    rintro base ⟨-, -, -, -, hkind, hrest⟩ depth
    have hne : ¬ (kindFile = kindDir) := by decide
    rw [events, dirEntriesMet_entry, hkind, if_neg hne, ih hrest, dirBases]
  | dir name o l sub rest ihs ihr =>
    rintro base ⟨-, -, -, -, hkind, -, hsub, hrest⟩ depth
    rw [events, dirEntriesMet_entry, hkind, if_pos rfl, dirEntriesMet_call, dirEntriesMet_scan,
      dirEntriesMet_append, ihs hsub, ihr hrest, dirBases]

/-- The directory entries of a stored tree name its tables. -/
lemma Stored.map_dirBases {es : Entries} : ∀ {base : ℕ}, Stored image base es →
    (es.dirBases base).map (namedTable image) = es.tables := by
  induction es with
  | nil => exact fun _ => rfl
  | file name o l rest ih =>
    rintro base ⟨-, -, -, -, -, hrest⟩
    exact ih hrest
  | dir name o l sub rest ihs ihr =>
    rintro base ⟨-, -, ho, hl, -, -, hsub, hrest⟩
    rw [dirBases, List.map_cons, List.map_append, ihs hsub, ihr hrest, namedTable, ho, hl, tables]

/-- The directory entries of a stored tree lie in its first table or in a table below it. -/
lemma Stored.dirBases_bounds {es : Entries} : ∀ {base hw : ℕ}, Stored image base es →
    Forward hw es → ∀ b ∈ es.dirBases base,
      (base ≤ b ∧ b < base + direntLen * es.count) ∨ (hw ≤ b ∧ b < water hw es) := by
  induction es with
  | nil => simp [dirBases]
  | file name o l rest ih =>
    rintro base hw ⟨-, -, -, -, -, hrest⟩ hfw b hb
    have := ih hrest hfw b hb
    simp only [count, direntLen, water] at this ⊢
    omega
  | dir name o l sub rest ihs ihr =>
    rintro base hw ⟨-, -, -, -, -, hl, hsub, hrest⟩ ⟨hlow, hfs, hfr⟩ b hb
    have hws := le_water hfs
    have hwr := le_water hfr
    simp only [dirBases, List.mem_cons, List.mem_append] at hb
    simp only [count, direntLen, water] at hl ⊢
    rcases hb with rfl | hb | hb
    · omega
    · have := ihs hsub hfs b hb
      simp only [direntLen] at this
      omega
    · have := ihr hrest hfr b hb
      simp only [direntLen] at this
      omega

/-- No directory entry of a forward tree is met twice. -/
lemma Stored.nodup_dirBases {es : Entries} : ∀ {base hw : ℕ}, Stored image base es →
    Forward hw es → base + direntLen * es.count ≤ hw → (es.dirBases base).Nodup := by
  induction es with
  | nil => exact fun _ _ _ => List.nodup_nil
  | file name o l rest ih =>
    rintro base hw ⟨-, -, -, -, -, hrest⟩ hfw hle
    refine ih hrest hfw ?_
    simp only [count, direntLen] at hle ⊢
    omega
  | dir name o l sub rest ihs ihr =>
    rintro base hw ⟨-, -, -, -, -, hl, hsub, hrest⟩ ⟨hlow, hfs, hfr⟩ hle
    have hws := le_water hfs
    have hbs := hsub.dirBases_bounds hfs
    have hbr := hrest.dirBases_bounds hfr
    simp only [count, direntLen] at hl hle hbs hbr
    rw [dirBases, List.nodup_cons, List.nodup_append']
    refine ⟨?_, ihs hsub hfs (by simp only [direntLen]; omega),
      ihr hrest hfr (by simp only [direntLen]; omega), ?_⟩
    · rw [List.mem_append]
      rintro (hb | hb)
      · have := hbs base hb
        omega
      · have := hbr base hb
        omega
    · intro b hb hb'
      have := hbs b hb
      have := hbr b hb'
      omega

/-- A directory entry among the records of the first table is one of the tree. -/
lemma Stored.mem_dirBases {es : Entries} : ∀ {base i : ℕ}, Stored image base es → i < es.count →
    u32At image (base + direntLen * i + entKind) = kindDir →
    base + direntLen * i ∈ es.dirBases base := by
  induction es with
  | nil => exact fun _ h => absurd h (Nat.not_lt_zero _)
  | file name o l rest ih =>
    rintro base i ⟨-, -, -, -, hkind, hrest⟩ hi hdir
    cases i with
    | zero =>
      rw [Nat.mul_zero, Nat.add_zero, hkind] at hdir
      cases hdir
    | succ i =>
      rw [record_succ, Nat.add_right_comm base] at hdir ⊢
      exact ih hrest (Nat.lt_of_succ_lt_succ hi) hdir
  | dir name o l sub rest _ ih =>
    rintro base i ⟨-, -, -, -, -, -, -, hrest⟩ hi hdir
    rw [dirBases, List.mem_cons, List.mem_append]
    cases i with
    | zero => exact Or.inl (by rw [Nat.mul_zero, Nat.add_zero])
    | succ i =>
      rw [record_succ, Nat.add_right_comm base] at hdir ⊢
      exact Or.inr (Or.inr (ih hrest (Nat.lt_of_succ_lt_succ hi) hdir))

/-- A directory entry of a table below the first one is one of the tree. -/
lemma Stored.mem_dirBases_of_mem {es : Entries} {t : ℕ × ℕ} {b : ℕ} (hb : DirEntryOf image t b) :
    ∀ {base : ℕ}, Stored image base es → t ∈ es.tables → b ∈ es.dirBases base := by
  induction es with
  | nil => simp [tables]
  | file name o l rest ih =>
    rintro base ⟨-, -, -, -, -, hrest⟩ ht
    exact ih hrest ht
  | dir name o l sub rest ihs ihr =>
    rintro base ⟨-, -, -, -, -, hl, hsub, hrest⟩ ht
    simp only [tables, List.mem_cons, List.mem_append] at ht
    rw [dirBases, List.mem_cons, List.mem_append]
    rcases ht with rfl | ht | ht
    · obtain ⟨⟨i, hi, rfl⟩, hdir⟩ := hb
      refine Or.inr (Or.inl (hsub.mem_dirBases ?_ hdir))
      simp only [direntLen] at hi hl
      omega
    · exact Or.inr (Or.inl (ihs hsub ht))
    · exact Or.inr (Or.inr (ihr hrest ht))

/-- Chains lead to every table below a table that a chain leads to, and with them to all the
directory entries. -/
lemma Stored.linked {es : Entries} {t : ℕ × ℕ} (ht : ∃ chain, Chain image chain t) :
    ∀ {i : ℕ}, Stored image (t.1 + direntLen * i) es → t.2 = direntLen * (i + es.count) →
      ∀ b ∈ es.dirBases (t.1 + direntLen * i), DirEntry.Linked image b := by
  induction es generalizing t with
  | nil => simp [dirBases]
  | file name o l rest ih =>
    rintro i ⟨-, -, -, -, -, hrest⟩ hlen
    rw [dirBases, ← record_succ]
    refine ih ht (record_succ t.1 i ▸ hrest) ?_
    simp only [count, direntLen] at hlen ⊢
    omega
  | dir name o l sub rest ihs ihr =>
    rintro i ⟨-, -, rfl, rfl, hkind, hl, hsub, hrest⟩ hlen
    obtain ⟨chain, hchain⟩ := ht
    have hentry : DirEntryOf image t (t.1 + direntLen * i) := by
      refine ⟨⟨i, ?_, rfl⟩, hkind⟩
      simp only [count, direntLen] at hlen ⊢
      omega
    intro b hb
    rw [dirBases, ← record_succ, List.mem_cons, List.mem_append] at hb
    rcases hb with rfl | hb | hb
    · exact ⟨chain, t, hchain, hentry⟩
    · refine ihs (t := namedTable image (t.1 + direntLen * i)) ⟨_, hchain.step hentry⟩ (i := 0)
        (by simpa [namedTable] using hsub) (by simpa [namedTable] using hl) b ?_
      simpa [namedTable] using hb
    · refine ihr ⟨chain, hchain⟩ (record_succ t.1 i ▸ hrest) ?_ b hb
      simp only [count, direntLen] at hlen ⊢
      omega

/-- One of the two tables ends before the other one starts. -/
def Apart (t u : ℕ × ℕ) : Prop := t.1 + t.2 ≤ u.1 ∨ u.1 + u.2 ≤ t.1

instance : Std.Symm Apart := ⟨fun _ _ => Or.symm⟩

/-- Different tables of an ordered list are apart. -/
lemma Ordered.apart {ts : List (ℕ × ℕ)} (h : Ordered ts) {t u : ℕ × ℕ} (ht : t ∈ ts) (hu : u ∈ ts)
    (hne : t ≠ u) : Apart t u := by
  have hapart : ts.Pairwise Apart := h.imp Or.inl
  exact hapart.forall ht hu hne

/-- Different directory entries of a stored tree whose tables are ordered name tables that are
apart. -/
lemma Stored.apart_dirBases {es : Entries} {base : ℕ} (h : Stored image base es)
    (hord : Ordered es.tables) {b b' : ℕ} (hb : b ∈ es.dirBases base) (hb' : b' ∈ es.dirBases base)
    (hne : b ≠ b') : Apart (namedTable image b) (namedTable image b') := by
  have hsymm : Std.Symm fun b b' => Apart (namedTable image b) (namedTable image b') :=
    ⟨fun _ _ => Or.symm⟩
  rw [← h.map_dirBases, Ordered, List.pairwise_map] at hord
  have hapart : (es.dirBases base).Pairwise fun b b' =>
      Apart (namedTable image b) (namedTable image b') := hord.imp Or.inl
  exact hapart.forall hb hb' hne

end Entries

/-! ## The tree of an accepted image -/

namespace TreeOk

variable {ceiling : ℕ} {es : Entries}

/-- The tables of an accepted image are ordered, the root table first. -/
lemma ordered (h : TreeOk image ceiling es) : Ordered (rootTable image :: es.tables) := by
  obtain ⟨hroot, hord⟩ := forward_iff.mp h.forward
  exact List.pairwise_cons.mpr ⟨hroot, hord⟩

/-- A directory entry of a table of the image is one of its tree. -/
lemma mem_dirBases (h : TreeOk image ceiling es) {t : ℕ × ℕ} {b : ℕ}
    (ht : t ∈ rootTable image :: es.tables) (hb : DirEntryOf image t b) :
    b ∈ es.dirBases superblockLen := by
  rcases List.mem_cons.mp ht with rfl | ht
  · obtain ⟨⟨i, hi, rfl⟩, hdir⟩ := hb
    refine h.stored.mem_dirBases ?_ hdir
    rw [h.count]
    simpa [rootTable, direntLen] using hi
  · exact h.stored.mem_dirBases_of_mem hb ht

/-- Chains lead to tables of the tree only. -/
lemma mem_tables_of_chain (h : TreeOk image ceiling es) {chain : List ℕ} {t : ℕ × ℕ}
    (hc : Chain image chain t) : t ∈ rootTable image :: es.tables := by
  induction hc with
  | root => exact List.mem_cons_self
  | step _ he ih =>
    rw [← h.stored.map_dirBases]
    exact List.mem_cons_of_mem _ (List.mem_map_of_mem (h.mem_dirBases ih he))

/-- The directory entries that chains lead to are those of the tree. -/
lemma linked_iff (h : TreeOk image ceiling es) {b : ℕ} :
    DirEntry.Linked image b ↔ b ∈ es.dirBases superblockLen := by
  constructor
  · rintro ⟨chain, t, hc, hb⟩
    exact h.mem_dirBases (h.mem_tables_of_chain hc) hb
  · intro hb
    refine Stored.linked (t := rootTable image) ⟨[], .root⟩ (i := 0) h.stored ?_ b hb
    rw [Nat.zero_add, h.count, rootTable]

/-- A chain leads to every table of the tree. -/
lemma exists_chain (h : TreeOk image ceiling es) {t : ℕ × ℕ}
    (ht : t ∈ rootTable image :: es.tables) : ∃ chain, Chain image chain t := by
  rcases List.mem_cons.mp ht with rfl | ht
  · exact ⟨[], .root⟩
  · rw [← h.stored.map_dirBases, List.mem_map] at ht
    obtain ⟨b, hb, rfl⟩ := ht
    obtain ⟨chain, u, hc, he⟩ := h.linked_iff.mpr hb
    exact ⟨b :: chain, hc.step he⟩

/-- No record belongs to two tables of the tree. -/
lemma eq_of_dirEntryOf (h : TreeOk image ceiling es) {t u : ℕ × ℕ} {b : ℕ}
    (ht : t ∈ rootTable image :: es.tables) (hu : u ∈ rootTable image :: es.tables)
    (hbt : DirEntryOf image t b) (hbu : DirEntryOf image u b) : t = u := by
  by_contra hne
  obtain ⟨⟨i, hi, hbi⟩, -⟩ := hbt
  obtain ⟨⟨j, hj, hbj⟩, -⟩ := hbu
  have hapart := h.ordered.apart ht hu hne
  simp only [Apart, direntLen] at hapart hi hj hbi hbj
  omega

/-- The root table is not named by any entry. -/
lemma namedTable_ne_root (h : TreeOk image ceiling es) {b : ℕ}
    (hb : b ∈ es.dirBases superblockLen) : namedTable image b ≠ rootTable image := by
  intro heq
  have hmem : namedTable image b ∈ es.tables := by
    rw [← h.stored.map_dirBases]
    exact List.mem_map_of_mem hb
  -- an entry is a record of some table, so the root table is not empty
  have hcount : 0 < fileCount image := by
    rw [← h.count]
    cases es with
    | nil => simp [dirBases] at hb
    | file => exact Nat.succ_pos _
    | dir => exact Nat.succ_pos _
  have hlow := (forward_iff.mp h.forward).1 _ hmem
  rw [heq] at hlow
  simp only [rootTable, rootEnd, direntLen] at hlow
  omega

/-- With the empty tables apart, different directory entries name different tables. -/
lemma namedTable_injective (h : TreeOk image ceiling es) (hempty : EmptyTablesApart image)
    {b b' : ℕ} (hb : b ∈ es.dirBases superblockLen) (hb' : b' ∈ es.dirBases superblockLen)
    (heq : namedTable image b = namedTable image b') : b = b' := by
  by_contra hne
  have hord : Ordered es.tables := (forward_iff.mp h.forward).2
  have hapart := h.stored.apart_dirBases hord hb hb' hne
  rw [← heq] at hapart
  -- a table that is apart from itself is empty
  have hzero : (namedTable image b).2 = 0 := by
    simp only [Apart] at hapart
    omega
  exact hne (hempty b b' (h.linked_iff.mpr hb) (h.linked_iff.mpr hb') hzero (heq ▸ hzero)
    (congrArg Prod.fst heq))

/-- With the empty tables apart, only one chain leads to a table. -/
lemma chain_unique (h : TreeOk image ceiling es) (hempty : EmptyTablesApart image) {t : ℕ × ℕ}
    {chain : List ℕ} (hc : Chain image chain t) :
    ∀ chain', Chain image chain' t → chain' = chain := by
  induction hc with
  | root =>
    intro chain' hc'
    generalize ht : rootTable image = t at hc'
    cases hc' with
    | root => rfl
    | step hu he =>
      exact absurd ht.symm (h.namedTable_ne_root (h.mem_dirBases (h.mem_tables_of_chain hu) he))
  | @step chain t base hc he ih =>
    intro chain' hc'
    have hmem := h.mem_dirBases (h.mem_tables_of_chain hc) he
    generalize ht : namedTable image base = u at hc'
    cases hc' with
    | root => exact absurd ht (h.namedTable_ne_root hmem)
    | @step chain' t' base' hc' he' =>
      obtain rfl : base = base' := h.namedTable_injective hempty hmem
        (h.mem_dirBases (h.mem_tables_of_chain hc') he') ht
      obtain rfl : t = t' := h.eq_of_dirEntryOf (h.mem_tables_of_chain hc)
        (h.mem_tables_of_chain hc') he he'
      rw [ih chain' hc']

/-- With the empty tables apart, the tables of the tree are pairwise different. -/
lemma nodup_tables (h : TreeOk image ceiling es) (hempty : EmptyTablesApart image) :
    (rootTable image :: es.tables).Nodup := by
  have hroot : superblockLen + direntLen * es.count ≤ rootEnd image := by rw [h.count, rootEnd]
  rw [List.nodup_cons, ← h.stored.map_dirBases]
  refine ⟨fun hmem => ?_, (h.stored.nodup_dirBases h.forward hroot).map_on
    fun b hb b' hb' => h.namedTable_injective hempty hb hb'⟩
  obtain ⟨b, hb, heq⟩ := List.mem_map.mp hmem
  exact h.namedTable_ne_root hb heq

end TreeOk

/-- An accepting run meets the directory entries that chains lead to. -/
lemma mem_dirEntriesMet_iff {r : Reader} {fs : Fs} (h : r.run image = .ok fs) {b : ℕ} :
    b ∈ dirEntriesMet image (r.runT image).log ↔ DirEntry.Linked image b := by
  have hok := h
  rw [Reader.run_eq, mountInner_eq_ok_iff] at hok
  obtain ⟨-, -, es, hes⟩ := hok
  rw [Reader.log_runT_ok h hes, dirEntriesMet_call, dirEntriesMet_scan,
    hes.stored.dirEntriesMet_events, hes.linked_iff]

/-- **When the directory graph is a tree.**  On an image that one of the readers accepts, the run
keeps the promise of the comment of `validate_dir` exactly when no two directory entries of length
zero have the same offset: then different entries name different tables and none names the root
table, every table is validated exactly once, and exactly one chain of entries leads to it. -/
theorem directoryTree_iff (r : Reader) {image : List UInt8} {fs : Fs} (h : r.run image = .ok fs) :
    DirectoryTree image (r.runT image).log ↔ EmptyTablesApart image := by
  have hok := h
  rw [Reader.run_eq, mountInner_eq_ok_iff] at hok
  obtain ⟨-, -, es, hes⟩ := hok
  have hscans : scans (r.runT image).log = rootTable image :: es.tables :=
    Reader.scans_runT h hes
  constructor
  · intro htree base base' hb hb' hlen hlen' hoff
    by_contra hne
    rw [← mem_dirEntriesMet_iff h] at hb hb'
    exact htree.distinct base hb base' hb' hne (Prod.ext hoff (hlen.trans hlen'.symm))
  · intro hempty
    refine ⟨fun base hb base' hb' hne heq => ?_, fun base hb => ?_, fun chain t hc => ?_,
      fun t ht => ?_⟩
    · rw [mem_dirEntriesMet_iff h, hes.linked_iff] at hb hb'
      exact hne (hes.namedTable_injective hempty hb hb' heq)
    · rw [mem_dirEntriesMet_iff h, hes.linked_iff] at hb
      exact hes.namedTable_ne_root hb
    · rw [hscans]
      exact List.count_eq_one_of_mem (hes.nodup_tables hempty) (hes.mem_tables_of_chain hc)
    · obtain ⟨chain, hc⟩ := hes.exists_chain (hscans ▸ ht)
      exact ⟨chain, hc, hes.chain_unique hempty hc⟩

/-- The directory graph of the boot disk, whose only directory entry is that of `docs`. -/
theorem directoryTree_iff_bootImage :
    DirectoryTree bootImage (Reader.mount.runT bootImage).log := by
  obtain ⟨fs, h⟩ := isOk_mount_bootImage
  have hmet : dirEntriesMet bootImage (Reader.mount.runT bootImage).log = [112] := by
    decide +kernel
  refine (directoryTree_iff .mount h).mpr fun base base' hb hb' _ _ _ => ?_
  rw [← mem_dirEntriesMet_iff (r := .mount) h, hmet, List.mem_singleton] at hb hb'
  rw [hb, hb']

/-- Two directories of the root that are both empty and both start at the end of the image. -/
def sharedImage : List UInt8 :=
  let superblock := magic ++ toLeBytes 2 version ++ toLeBytes 2 2 ++ toLeBytes 4 80 ++
    toLeBytes 4 80
  writeEntry (writeEntry superblock (Text.utf8 "a") 80 0 kindDir) (Text.utf8 "b") 80 0 kindDir

/-- The strict reader accepts two entries that name one empty table, and validates it twice. -/
theorem directoryTree_sharedImage :
    Fs.mount sharedImage = .ok ⟨sharedImage, 2⟩ ∧
      scans (Reader.mount.runT sharedImage).log = [(16, 64), (80, 0), (80, 0)] ∧
      ¬ DirectoryTree sharedImage (Reader.mount.runT sharedImage).log := by
  refine ⟨by decide, by decide, fun htree => ?_⟩
  exact htree.distinct 16 (by decide) 48 (by decide) (by decide) (by decide)

end ZiranOS
