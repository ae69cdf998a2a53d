import ZiranOS.Fs.Reader

/-!
# Directory trees stored in an image

The abstract content of an image is a finite tree: a directory table is a list of entries, each
naming a file extent or another table.  `Entries` is that tree, `Entries.Stored` says that its
records are the 32-byte records found in the image, and the remaining predicates are the
conditions of the on-disk format: extents under a ceiling (`Extents`), tables that only move
forward in depth-first order (`Forward`, `Ordered`) and bounded nesting (`height`).

The readers of single fields return exactly the total functions `u16At`, `u32At` and `bytesAt`
whenever the field lies inside the image, so everything after this file is about those functions.
-/

namespace ZiranOS

open ProgLib

/-! ## Total field readers -/

/-- The byte at `i`, `0` past the end. -/
def byteAt (image : List UInt8) (i : ℕ) : UInt8 := image.getD i 0

/-- The little-endian 16-bit field at `off`. -/
def u16At (image : List UInt8) (off : ℕ) : ℕ :=
  (byteAt image off).toNat + 256 * (byteAt image (off + 1)).toNat

/-- The little-endian 32-bit field at `off`. -/
def u32At (image : List UInt8) (off : ℕ) : ℕ :=
  (byteAt image off).toNat + 2 ^ 8 * (byteAt image (off + 1)).toNat +
    2 ^ 16 * (byteAt image (off + 2)).toNat + 2 ^ 24 * (byteAt image (off + 3)).toNat

/-- The bytes `[off, off + len)` of the image. -/
def bytesAt (image : List UInt8) (off len : ℕ) : List UInt8 := (image.drop off).take len

/-- A 16-bit field is below `2 ^ 16`. -/
lemma u16At_lt (image : List UInt8) (off : ℕ) : u16At image off < 2 ^ 16 := by
  have h0 := (byteAt image off).toNat_lt
  have h1 := (byteAt image (off + 1)).toNat_lt
  simp only [u16At]
  omega

/-- A 32-bit field is below `2 ^ 32`. -/
lemma u32At_lt (image : List UInt8) (off : ℕ) : u32At image off < 2 ^ 32 := by
  have h0 := (byteAt image off).toNat_lt
  have h1 := (byteAt image (off + 1)).toNat_lt
  have h2 := (byteAt image (off + 2)).toNat_lt
  have h3 := (byteAt image (off + 3)).toNat_lt
  simp only [u32At]
  omega

/-- A 16-bit field inside the image is read without a fault. -/
lemma readU16Le_eq {ε : Type} {image : List UInt8} {off : ℕ} (h : off + 2 ≤ image.length)
    (hoff : off < 2 ^ 40) : (readU16Le image off : Exec ε ℕ) = .ok (u16At image off) := by
  simp only [readU16Le, getByte_eq (show off < image.length by omega),
    addUsize_eq (show off + 1 < 2 ^ 64 by omega),
    getByte_eq (show off + 1 < image.length by omega), Exec.bind_ok]
  rfl

/-- A 32-bit field inside the image is read without a fault. -/
lemma readU32Le_eq {ε : Type} {image : List UInt8} {off : ℕ} (h : off + 4 ≤ image.length)
    (hoff : off < 2 ^ 40) : (readU32Le image off : Exec ε ℕ) = .ok (u32At image off) := by
  simp only [readU32Le, getByte_eq (show off < image.length by omega),
    addUsize_eq (show off + 1 < 2 ^ 64 by omega), addUsize_eq (show off + 2 < 2 ^ 64 by omega),
    addUsize_eq (show off + 3 < 2 ^ 64 by omega),
    getByte_eq (show off + 1 < image.length by omega),
    getByte_eq (show off + 2 < image.length by omega),
    getByte_eq (show off + 3 < image.length by omega), Exec.bind_ok]
  rfl

/-- Reading a 32-bit field of the record at `base`. -/
lemma readField_bind {ε β : Type} {image : List UInt8} {base field : ℕ}
    (h : base + field + 4 ≤ image.length) (hb : base + field < 2 ^ 40) (k : ℕ → Exec ε β) :
    (do
      let i ← addUsize base field
      let v ← readU32Le image i
      k v) = k (u32At image (base + field)) := by
  rw [addUsize_eq (by omega), Exec.bind_ok, readU32Le_eq h hb, Exec.bind_ok]

/-- The address of the record with index `i`. -/
lemma recordBase_eq {ε : Type} {off i : ℕ} (h : off + direntLen * i < 2 ^ 64) :
    (do addUsize off (← mulUsize i direntLen) : Exec ε ℕ) = .ok (off + direntLen * i) := by
  have hmul : i * direntLen < 2 ^ 64 := by
    rw [Nat.mul_comm]
    omega
  rw [mulUsize_eq hmul, Exec.bind_ok, Nat.mul_comm, addUsize_eq h]

/-- The record behind the one with index `i`. -/
lemma record_succ (off i : ℕ) :
    off + direntLen * (i + 1) = off + direntLen * i + direntLen := by
  rw [Nat.mul_succ, Nat.add_assoc]

/-! ## Entries of a directory table -/

/-- A list of directory entries together with the tables they name. -/
inductive Entries where
  /-- No further entry. -/
  | nil
  /-- A file entry with its name field and extent. -/
  | file (name : List UInt8) (offset length : ℕ) (rest : Entries)
  /-- A directory entry with its name field and region, and the entries `sub` of that region. -/
  | dir (name : List UInt8) (offset length : ℕ) (sub rest : Entries)
  deriving DecidableEq, Repr

namespace Entries

/-- Number of entries of the table itself. -/
def count : Entries → ℕ
  | nil => 0
  | file _ _ _ rest => rest.count + 1
  | dir _ _ _ _ rest => rest.count + 1

/-- The tables below this one, as `(offset, length)`, in depth-first pre-order. -/
def tables : Entries → List (ℕ × ℕ)
  | nil => []
  | file _ _ _ rest => rest.tables
  | dir _ offset length sub rest => (offset, length) :: (sub.tables ++ rest.tables)

/-- The extents of all entries of the tree, as `(offset, length)`. -/
def extents : Entries → List (ℕ × ℕ)
  | nil => []
  | file _ offset length rest => (offset, length) :: rest.extents
  | dir _ offset length sub rest => (offset, length) :: (sub.extents ++ rest.extents)

/-- How many directories are nested below this table. -/
def height : Entries → ℕ
  | nil => 0
  | file _ _ _ rest => rest.height
  | dir _ _ _ sub rest => max (sub.height + 1) rest.height

/-- The entries are exactly the records of the image from `base` on: each record lies in the
image, its fields are those of the entry, and the table a directory entry names consists of
whole records that are in turn the entries below it. -/
def Stored (image : List UInt8) : ℕ → Entries → Prop
  | _, nil => True
  | base, file name offset length rest =>
    base + direntLen ≤ image.length ∧ bytesAt image base nameLen = name ∧
      u32At image (base + entOffset) = offset ∧ u32At image (base + entLength) = length ∧
      u32At image (base + entKind) = kindFile ∧ Stored image (base + direntLen) rest
  | base, dir name offset length sub rest =>
    base + direntLen ≤ image.length ∧ bytesAt image base nameLen = name ∧
      u32At image (base + entOffset) = offset ∧ u32At image (base + entLength) = length ∧
      u32At image (base + entKind) = kindDir ∧ length = direntLen * sub.count ∧
      Stored image offset sub ∧ Stored image (base + direntLen) rest

/-- Every extent of the tree ends at or before `ceiling`. -/
def Extents (ceiling : ℕ) (es : Entries) : Prop := ∀ x ∈ es.extents, x.1 + x.2 ≤ ceiling

/-- Every table of a list starts at or after the end of each table before it. -/
def Ordered (ts : List (ℕ × ℕ)) : Prop := ts.Pairwise fun t u => t.1 + t.2 ≤ u.1

/-- Ordered tables inside `[lo, hi)` have room for at most `(hi - lo) / 32` entries in all. -/
lemma Ordered.room_le {ts : List (ℕ × ℕ)} {lo hi : ℕ} (h : Ordered ts)
    (hb : ∀ t ∈ ts, lo ≤ t.1 ∧ t.1 + t.2 ≤ hi) :
    (ts.map fun t => t.2 / direntLen).sum ≤ (hi - lo) / direntLen := by
  induction ts generalizing lo with
  | nil => simp
  | cons t ts ih =>
    obtain ⟨hhead, htail⟩ := List.pairwise_cons.mp h
    have ht := hb t (by simp)
    have hrest := ih htail fun u hu => ⟨hhead u hu, (hb u (by simp [hu])).2⟩
    simp only [List.map_cons, List.sum_cons, direntLen] at hrest ⊢
    omega

/-- Ordered tables start in increasing order and do not overlap. -/
lemma Ordered.disjoint {ts : List (ℕ × ℕ)} (h : Ordered ts) :
    ts.Pairwise fun t u =>
      t.1 ≤ u.1 ∧ Disjoint (Set.Ico t.1 (t.1 + t.2)) (Set.Ico u.1 (u.1 + u.2)) := by
  refine h.imp fun {t u} htu => ⟨by omega, ?_⟩
  rw [Set.disjoint_left]
  intro x hx hx'
  simp only [Set.mem_Ico] at hx hx'
  omega

/-! ## The high-water mark of a tree -/

/-- The high-water mark after all tables of the tree, starting from `hw`. -/
def water : ℕ → Entries → ℕ
  | hw, nil => hw
  | hw, file _ _ _ rest => water hw rest
  | _, dir _ offset length sub rest => water (water (offset + length) sub) rest

/-- Every table of the tree starts at or after the running high-water mark, which starts from
`hw` and advances past each table in turn. -/
def Forward : ℕ → Entries → Prop
  | _, nil => True
  | hw, file _ _ _ rest => Forward hw rest
  | hw, dir _ offset length sub rest =>
    hw ≤ offset ∧ Forward (offset + length) sub ∧ Forward (water (offset + length) sub) rest

@[simp] lemma extents_nil (ceiling : ℕ) : Extents ceiling nil := by simp [Extents, extents]

@[simp] lemma extents_file {ceiling : ℕ} {name : List UInt8} {offset length : ℕ} {rest : Entries} :
    Extents ceiling (file name offset length rest) ↔
      offset + length ≤ ceiling ∧ Extents ceiling rest := by
  simp [Extents, extents]

@[simp] lemma extents_dir {ceiling : ℕ} {name : List UInt8} {offset length : ℕ}
    {sub rest : Entries} :
    Extents ceiling (dir name offset length sub rest) ↔
      offset + length ≤ ceiling ∧ Extents ceiling sub ∧ Extents ceiling rest := by
  simp only [Extents, extents, List.mem_cons, List.mem_append, or_imp, forall_and, forall_eq]

/-- The high-water mark of a forward tree never falls. -/
lemma le_water {hw : ℕ} {es : Entries} (h : Forward hw es) : hw ≤ water hw es := by
  induction es generalizing hw with
  | nil => exact le_rfl
  | file _ _ _ rest ih => exact ih h
  | dir _ offset length sub rest ihs ihr =>
    obtain ⟨h1, h2, h3⟩ := h
    have hsub := ihs h2
    have hrest := ihr h3
    simp only [water]
    omega

/-- The high-water mark of a tree is the end of one of its tables, or where it started. -/
lemma water_mem (hw : ℕ) (es : Entries) :
    water hw es = hw ∨ ∃ t ∈ es.tables, water hw es = t.1 + t.2 := by
  induction es generalizing hw with
  | nil => exact Or.inl rfl
  | file _ _ _ rest ih => exact ih hw
  | dir _ offset length sub rest ihs ihr =>
    right
    simp only [water, tables, List.mem_cons, List.mem_append]
    rcases ihr (water (offset + length) sub) with h | ⟨t, ht, h⟩
    · rcases ihs (offset + length) with h' | ⟨t, ht, h'⟩
      · exact ⟨(offset, length), Or.inl rfl, h.trans h'⟩
      · exact ⟨t, Or.inr (Or.inl ht), h.trans h'⟩
    · exact ⟨t, Or.inr (Or.inr ht), h⟩

/-- Every table of a forward tree starts at or after the initial mark and ends at or before the
final one. -/
lemma mem_tables_bounds {hw : ℕ} {es : Entries} (h : Forward hw es) :
    ∀ t ∈ es.tables, hw ≤ t.1 ∧ t.1 + t.2 ≤ water hw es := by
  induction es generalizing hw with
  | nil => simp [tables]
  | file _ _ _ rest ih => exact ih h
  | dir _ offset length sub rest ihs ihr =>
    obtain ⟨h1, h2, h3⟩ := h
    have hsub := le_water h2
    have hrest := le_water h3
    intro t ht
    simp only [tables, List.mem_cons, List.mem_append] at ht
    simp only [water]
    rcases ht with rfl | ht | ht
    · exact ⟨h1, by omega⟩
    · have := ihs h2 t ht
      omega
    · have := ihr h3 t ht
      omega

/-- The running high-water comparison is the declarative rule: a tree is forward from `hw` iff
its tables in pre-order all start at or after `hw` and are ordered. -/
theorem forward_iff {hw : ℕ} {es : Entries} :
    Forward hw es ↔ (∀ t ∈ es.tables, hw ≤ t.1) ∧ Ordered es.tables := by
  induction es generalizing hw with
  | nil => simp [Forward, tables, Ordered]
  | file _ _ _ rest ih => exact ih
  | dir _ offset length sub rest ihs ihr =>
    simp only [Forward, tables, Ordered, List.pairwise_cons, List.pairwise_append, List.mem_cons,
      List.mem_append]
    constructor
    · rintro ⟨h1, h2, h3⟩
      have hb2 := mem_tables_bounds h2
      have hb3 := mem_tables_bounds h3
      have hw2 := le_water h2
      refine ⟨?_, ?_, (ihs.mp h2).2, (ihr.mp h3).2, ?_⟩
      · rintro t (rfl | ht | ht)
        · exact h1
        · exact (h1.trans (Nat.le_add_right _ _)).trans (hb2 t ht).1
        · exact (h1.trans (Nat.le_add_right _ _)).trans (hw2.trans (hb3 t ht).1)
      · rintro t (ht | ht)
        · exact (hb2 t ht).1
        · exact hw2.trans (hb3 t ht).1
      · exact fun t ht u hu => (hb2 t ht).2.trans (hb3 u hu).1
    · rintro ⟨hall, hhead, hs, hr, hsr⟩
      have h2 : Forward (offset + length) sub := ihs.mpr ⟨fun t ht => hhead t (Or.inl ht), hs⟩
      refine ⟨hall _ (Or.inl rfl), h2, ihr.mpr ⟨fun t ht => ?_, hr⟩⟩
      -- the final mark of `sub` is the end of one of the tables before `t`
      rcases water_mem (offset + length) sub with h | ⟨u, hu, h⟩
      · rw [h]
        exact hhead t (Or.inr ht)
      · rw [h]
        exact hsr u hu t ht

/-! ## Reading a stored tree -/

/-- The tree stored at `base` is determined by the image and the number of its entries. -/
theorem Stored.unique {image : List UInt8} : ∀ {base : ℕ} {es fs : Entries},
    Stored image base es → Stored image base fs → es.count = fs.count → es = fs
  | _, nil, nil, _, _, _ => rfl
  | _, nil, file _ _ _ _, _, _, h => by simp [count] at h
  | _, nil, dir _ _ _ _ _, _, _, h => by simp [count] at h
  | _, file _ _ _ _, nil, _, _, h => by simp [count] at h
  | _, dir _ _ _ _ _, nil, _, _, h => by simp [count] at h
  | _, file _ _ _ rest, file _ _ _ rest', ⟨_, hn, ho, hl, _, hr⟩,
      ⟨_, hn', ho', hl', _, hr'⟩, h => by
    rw [← hn, ← hn', ← ho, ← ho', ← hl, ← hl', hr.unique hr' (by simpa [count] using h)]
  | _, file _ _ _ _, dir _ _ _ _ _, ⟨_, _, _, _, hk, _⟩, ⟨_, _, _, _, hk', _⟩, _ => by
    simp [hk, kindFile, kindDir] at hk'
  | _, dir _ _ _ _ _, file _ _ _ _, ⟨_, _, _, _, hk, _⟩, ⟨_, _, _, _, hk', _⟩, _ => by
    simp [hk, kindFile, kindDir] at hk'
  | _, dir _ o l sub rest, dir _ o' l' sub' rest', ⟨_, hn, ho, hl, _, hc, hs, hr⟩,
      ⟨_, hn', ho', hl', _, hc', hs', hr'⟩, h => by
    obtain rfl : o = o' := ho.symm.trans ho'
    obtain rfl : l = l' := hl.symm.trans hl'
    have hcount : sub.count = sub'.count := by
      have := hc.symm.trans hc'
      simp only [direntLen] at this
      omega
    rw [← hn, ← hn', hs.unique hs' hcount, hr.unique hr' (by simpa [count] using h)]

end Entries

end ZiranOS
