import ZiranOS.Fs.Tree

/-!
# What `mount` accepts

`validateDir` walks a directory tree once, threading a mutable high-water mark and stopping at the
first violation.  This file proves that it accepts a region exactly when a tree of `Entries` is
stored there whose extents lie under the ceiling, whose tables move forward from the mark and whose
nesting fits the depth cap; the tree is then unique, and the returned mark is its `water`.

`mountInner_eq_ok_iff` lifts this to whole images, and `mount_isOk_iff` is the grammar of the
format: the strict reader accepts exactly the images that hold such a tree below `data_end`.
-/

namespace ZiranOS

open ProgLib Entries

variable {image : List UInt8} {ceiling : ℕ}

/-! ## One entry -/

/-- Inside the image the iteration on one entry reads its three fields and branches on them. -/
lemma validateEntry_eq (recurse : ℕ → ℕ → ℕ → Exec FsError ℕ) {base hw : ℕ}
    (h : base + direntLen ≤ image.length) (hb : base < 2 ^ 36) :
    validateEntry recurse image ceiling base hw =
      if u32At image (base + entOffset) + u32At image (base + entLength) > image.length then
        Exec.fail .entryOutOfBounds
      else if u32At image (base + entOffset) + u32At image (base + entLength) > ceiling then
        Exec.fail .extentEscapesData
      else if u32At image (base + entKind) = kindFile then .ok hw
      else if u32At image (base + entKind) = kindDir then
        recurse (u32At image (base + entOffset)) (u32At image (base + entLength)) hw
      else Exec.fail .badKind := by
  have ho := u32At_lt image (base + entOffset)
  have hl := u32At_lt image (base + entLength)
  simp only [direntLen, entOffset, entLength, entKind] at h ho hl ⊢
  simp only [validateEntry, entOffset, entLength, entKind,
    addUsize_eq (show base + 0x14 < 2 ^ 64 by omega),
    addUsize_eq (show base + 0x18 < 2 ^ 64 by omega),
    addUsize_eq (show base + 0x1C < 2 ^ 64 by omega), Exec.bind_ok,
    readU32Le_eq (show base + 0x14 + 4 ≤ image.length by omega) (by omega),
    readU32Le_eq (show base + 0x18 + 4 ≤ image.length by omega) (by omega),
    readU32Le_eq (show base + 0x1C + 4 ≤ image.length by omega) (by omega),
    checkedAdd_eq (show u32At image (base + 0x14) + u32At image (base + 0x18) < 2 ^ 64 by omega),
    Exec.pure_eq_ok]
  rfl

/-- The iteration on one entry passes exactly when its extent lies under the ceiling and it is a
file, or a directory whose region is accepted. -/
lemma validateEntry_eq_ok_iff {recurse : ℕ → ℕ → ℕ → Exec FsError ℕ} {base hw hw' : ℕ}
    (hc : ceiling ≤ image.length) (h : base + direntLen ≤ image.length) (hb : base < 2 ^ 36) :
    validateEntry recurse image ceiling base hw = .ok hw' ↔
      u32At image (base + entOffset) + u32At image (base + entLength) ≤ ceiling ∧
        (u32At image (base + entKind) = kindFile ∧ hw' = hw ∨
          u32At image (base + entKind) = kindDir ∧
            recurse (u32At image (base + entOffset)) (u32At image (base + entLength)) hw =
              .ok hw') := by
  rw [validateEntry_eq recurse h hb]
  split_ifs with h1 h2 h3 h4
  · simp only [Exec.fail_ne_ok, false_iff]
    omega
  · simp only [Exec.fail_ne_ok, false_iff]
    omega
  · have hne : ¬ (kindFile = kindDir) := by decide
    simp only [h3, hne, Except.ok.injEq, true_and, false_and, or_false, eq_comm (a := hw)]
    exact ⟨fun h' => ⟨by omega, h'⟩, And.right⟩
  · have hne : ¬ (kindDir = kindFile) := by decide
    simp only [h4, hne, true_and, false_and, false_or]
    exact ⟨fun h' => ⟨by omega, h'⟩, And.right⟩
  · simp [h3, h4]

/-! ## A whole region -/

/-- A tree with no entries is `nil`. -/
lemma Entries.count_eq_zero {es : Entries} : es.count = 0 ↔ es = nil := by
  cases es <;> simp [count]

/-- The declarative counterpart of an accepting run of `validate_dir` at depth `depth` on the
region `[off, off + len)`, entered with the mark `hw` and left with the mark `hw'`. -/
def RegionOk (image : List UInt8) (ceiling depth off len hw hw' : ℕ) : Prop :=
  depth ≤ maxDepth ∧ hw ≤ off ∧ off + len ≤ image.length ∧
    ∃ es : Entries, len = direntLen * es.count ∧ Stored image off es ∧ Extents ceiling es ∧
      Forward (off + len) es ∧ depth + es.height ≤ maxDepth ∧ hw' = water (off + len) es

/-- The loop over the entries of a table accepts exactly the stored trees, provided that the
nested calls accept exactly the regions that are fine one level down. -/
lemma validateLoop_eq_ok_iff {recurse : ℕ → ℕ → ℕ → Exec FsError ℕ} {depth off : ℕ}
    (hc : ceiling ≤ image.length) (hdepth : depth ≤ maxDepth)
    (hrec : ∀ o l h h', o < 2 ^ 32 → l < 2 ^ 32 →
      (recurse o l h = .ok h' ↔ RegionOk image ceiling (depth + 1) o l h h')) :
    ∀ (n i hw hw' : ℕ), off + direntLen * (i + n) ≤ image.length →
      off + direntLen * (i + n) < 2 ^ 36 →
      ((List.range' i n).foldlM (fun hw i => do
          let base ← addUsize off (← mulUsize i direntLen)
          validateEntry recurse image ceiling base hw) hw = .ok hw' ↔
        ∃ es : Entries, es.count = n ∧ Stored image (off + direntLen * i) es ∧
          Extents ceiling es ∧ Forward hw es ∧ depth + es.height ≤ maxDepth ∧
          hw' = water hw es) := by
  intro n
  induction n with
  | zero =>
    intro i hw hw' _ _
    simp only [List.range'_zero, List.foldlM_nil, Exec.pure_eq_ok, Except.ok.injEq,
      count_eq_zero, exists_eq_left]
    simp [Stored, Forward, height, water, hdepth, eq_comm]
  | succ n ih =>
    intro i hw hw' hlen hbig
    simp only [direntLen] at hlen hbig
    have hbase : ∀ hw, (do
        let base ← addUsize off (← mulUsize i direntLen)
        validateEntry recurse image ceiling base hw : Exec FsError ℕ) =
          validateEntry recurse image ceiling (off + direntLen * i) hw := by
      intro hw
      rw [← bind_assoc, recordBase_eq (by simp only [direntLen]; omega), Exec.bind_ok]
    have hstep := fun hw₁ => ih (i + 1) hw₁ hw' (by simp only [direntLen]; omega)
      (by simp only [direntLen]; omega)
    rw [List.range'_succ, List.foldlM_cons, Exec.bind_eq_ok]
    simp only [hbase, hstep, record_succ, validateEntry_eq_ok_iff hc
      (show off + direntLen * i + direntLen ≤ image.length by simp only [direntLen]; omega)
      (show off + direntLen * i < 2 ^ 36 by simp only [direntLen]; omega)]
    have hfield := u32At_lt image
    constructor
    · rintro ⟨hw₁, ⟨hext, ⟨hkind, rfl⟩ | ⟨hkind, hrun⟩⟩, rest, hn, hst, hx, hf, hh, rfl⟩
      · refine ⟨.file _ _ _ rest, by simp [count, hn], ⟨?_, rfl, rfl, rfl, hkind, hst⟩,
          extents_file.mpr ⟨hext, hx⟩, hf, hh, rfl⟩
        simp only [direntLen]; omega
      · rw [hrec _ _ _ _ (hfield _) (hfield _)] at hrun
        obtain ⟨hd, hfw, -, sub, hlen', hst', hx', hf', hh', rfl⟩ := hrun
        refine ⟨.dir _ _ _ sub rest, by simp [count, hn],
          ⟨?_, rfl, rfl, rfl, hkind, hlen', hst', hst⟩, extents_dir.mpr ⟨hext, hx', hx⟩,
          ⟨hfw, hf', hf⟩, ?_, rfl⟩
        · simp only [direntLen]; omega
        · simp only [height, maxDepth] at hh hh' ⊢
          omega
    · rintro ⟨es, hn, hst, hx, hf, hh, rfl⟩
      cases es with
      | nil => simp [count] at hn
      | file name o l rest =>
        obtain ⟨-, -, rfl, rfl, hkind, hst⟩ := hst
        obtain ⟨hext, hx⟩ := extents_file.mp hx
        exact ⟨hw, ⟨hext, Or.inl ⟨hkind, rfl⟩⟩, rest, by simpa [count] using hn, hst, hx, hf, hh,
          rfl⟩
      | dir name o l sub rest =>
        obtain ⟨-, -, rfl, rfl, hkind, hlen', hst', hst⟩ := hst
        obtain ⟨hext, hx', hx⟩ := extents_dir.mp hx
        obtain ⟨hfw, hf', hf⟩ := hf
        have hh' : depth + 1 + sub.height ≤ maxDepth ∧ depth + rest.height ≤ maxDepth := by
          simp only [height, maxDepth] at hh ⊢
          omega
        refine ⟨_, ⟨hext, Or.inr ⟨hkind, ?_⟩⟩, rest, by simpa [count] using hn, hst, hx, hf, hh'.2,
          rfl⟩
        rw [hrec _ _ _ _ (hfield _) (hfield _)]
        exact ⟨by omega, hfw, hext.trans hc, sub, hlen', hst', hx', hf', hh'.1, rfl⟩

/-- **What `validate_dir` accepts.**  With enough stack frames for the depths that are left, an
accepting run is the same as a stored tree that satisfies the conditions of the format. -/
theorem validateDir_eq_ok_iff (hc : ceiling ≤ image.length) :
    ∀ (frames off len hw hw' depth : ℕ), maxDepth + 2 ≤ frames + depth → off + len < 2 ^ 36 →
      (validateDir image ceiling frames off len hw depth = .ok hw' ↔
        RegionOk image ceiling depth off len hw hw') := by
  intro frames
  induction frames with
  | zero =>
    intro off len hw hw' depth hframes _
    simp only [validateDir, Exec.panic_ne_ok, RegionOk, false_iff, not_and]
    intro hd
    simp only [maxDepth] at hframes hd
    omega
  | succ frames ih =>
    intro off len hw hw' depth hframes hbig
    simp only [validateDir, RegionOk]
    split_ifs with hd hfw hlen
    · simp only [Exec.fail_ne_ok, false_iff, not_and]
      omega
    · simp only [Exec.fail_ne_ok, false_iff, not_and]
      omega
    · simp only [Exec.fail_ne_ok, false_iff, not_and, not_exists]
      rintro - - - es hes -
      simp [hes] at hlen
    · rw [checkedAdd_eq (by omega), Exec.bind_ok]
      split_ifs with hin
      · simp only [Exec.fail_ne_ok, false_iff, not_and]
        omega
      · have hdl : direntLen * (len / direntLen) = len := by
          simp only [direntLen] at hlen ⊢
          omega
        have hmark : max hw (off + len) = off + len := by omega
        rw [List.range_eq_range', hmark,
          validateLoop_eq_ok_iff hc (by omega)
            (fun o l h h' ho hl => ih o l h h' (depth + 1) (by omega) (by omega))
            (len / direntLen) 0 (off + len) hw' (by rw [Nat.zero_add, hdl]; omega)
            (by rw [Nat.zero_add, hdl]; omega)]
        constructor
        · rintro ⟨es, hn, hst, hx, hf, hh, rfl⟩
          exact ⟨by omega, by omega, by omega, es, by rw [hn, hdl], by simpa using hst, hx, hf, hh,
            rfl⟩
        · rintro ⟨-, -, -, es, hn, hst, hx, hf, hh, rfl⟩
          refine ⟨es, ?_, by simpa using hst, hx, hf, hh, rfl⟩
          simp only [direntLen] at hn ⊢
          omega

/-! ## Whole images -/

/-- The number of root entries the superblock declares. -/
def fileCount (image : List UInt8) : ℕ := u16At image 0x06

/-- The ceiling of the data region the superblock declares. -/
def dataEnd (image : List UInt8) : ℕ := u32At image sbDataEnd

/-- The end of the root table. -/
def rootEnd (image : List UInt8) : ℕ := superblockLen + direntLen * fileCount image

/-- The extent ceiling of a reader that does or does not confine extents. -/
def extentCeiling (image : List UInt8) (confine : Bool) : ℕ :=
  if confine then dataEnd image else image.length

/-- The declared size agrees with the length of the image, as far as the reader asks for it. -/
def SizeOk (image : List UInt8) (trustDeclaredSize : Bool) : Prop :=
  if trustDeclaredSize then u32At image 0x08 ≤ image.length
  else u32At image 0x08 = image.length

instance (image : List UInt8) (trust : Bool) : Decidable (SizeOk image trust) :=
  inferInstanceAs (Decidable (if trust = true then u32At image 0x08 ≤ image.length
    else u32At image 0x08 = image.length))

/-- The superblock passes every check of the reader. -/
structure HeaderOk (image : List UInt8) (trustDeclaredSize : Bool) : Prop where
  /-- The superblock fits. -/
  length : superblockLen ≤ image.length
  /-- The signature is `ZRFS`. -/
  magic : image.take 4 = magic
  /-- The version is the one this reader understands. -/
  version : u16At image 0x04 = version
  /-- The declared size agrees with the length of the image. -/
  size : SizeOk image trustDeclaredSize
  /-- The data region ends at or after the superblock. -/
  le_dataEnd : superblockLen ≤ dataEnd image
  /-- The data region lies inside the image. -/
  dataEnd_le : dataEnd image ≤ image.length
  /-- The root table lies inside the image. -/
  rootEnd_le : rootEnd image ≤ image.length

/-- `es` is the directory tree of the image: it is stored at the root table, and satisfies the
extent, ordering and nesting conditions. -/
structure TreeOk (image : List UInt8) (ceiling : ℕ) (es : Entries) : Prop where
  /-- The root table has the declared number of entries. -/
  count : es.count = fileCount image
  /-- The entries are the records found in the image. -/
  stored : Stored image superblockLen es
  /-- Every extent ends at or before the ceiling. -/
  extents : Extents ceiling es
  /-- Every table starts at or after the end of the tables before it. -/
  forward : Forward (rootEnd image) es
  /-- The nesting fits the depth cap. -/
  height : es.height ≤ maxDepth

/-- The superblock parse in terms of the total field readers. -/
lemma parseSuperblock_eq (h : superblockLen ≤ image.length) (confine trust : Bool) :
    parseSuperblock image confine trust =
      if image.take 4 ≠ magic then Exec.fail .badMagic
      else if u16At image 0x04 ≠ version then Exec.fail .unsupportedVersion
      else if ¬ SizeOk image trust then Exec.fail .sizeMismatch
      else if dataEnd image < superblockLen ∨ dataEnd image > image.length then
        Exec.fail .badDataEnd
      else if rootEnd image > image.length then Exec.fail .truncated
      else .ok (extentCeiling image confine, fileCount image, direntLen * fileCount image) := by
  have hfc : fileCount image < 2 ^ 16 := u16At_lt image 0x06
  simp only [superblockLen] at h
  simp only [parseSuperblock, superblockLen, sbDataEnd, direntLen,
    if_neg (show ¬ image.length < 16 by omega),
    slice_eq (Nat.zero_le 4) (show 4 ≤ image.length by omega),
    Exec.bind_ok, readU16Le_eq (show 0x04 + 2 ≤ image.length by omega) (by omega),
    readU16Le_eq (show 0x06 + 2 ≤ image.length by omega) (by omega),
    readU32Le_eq (show 0x08 + 4 ≤ image.length by omega) (by omega),
    readU32Le_eq (show 0x0C + 4 ≤ image.length by omega) (by omega),
    List.drop_zero, Nat.sub_zero]
  simp only [fileCount] at hfc
  rw [checkedMul_eq (by omega), Exec.bind_ok, checkedAdd_eq (by omega), Exec.bind_ok]
  have hsize : (if trust then u32At image 0x08 > image.length
      else u32At image 0x08 ≠ image.length) ↔ ¬ SizeOk image trust := by
    cases trust <;> simp [SizeOk]
  simp only [hsize, dataEnd, rootEnd, fileCount, extentCeiling, sbDataEnd, superblockLen,
    direntLen, Nat.mul_comm 32]
  rfl

/-- The superblock parse succeeds exactly on a superblock that passes every check. -/
lemma parseSuperblock_eq_ok_iff {confine trust : Bool} {p : ℕ × ℕ × ℕ} :
    parseSuperblock image confine trust = .ok p ↔ HeaderOk image trust ∧
      p = (extentCeiling image confine, fileCount image, direntLen * fileCount image) := by
  by_cases h : superblockLen ≤ image.length
  · rw [parseSuperblock_eq h]
    split_ifs with h1 h2 h3 h4 h5
    · simp only [Exec.fail_ne_ok, false_iff, not_and]
      exact fun hh => absurd hh.magic h1
    · simp only [Exec.fail_ne_ok, false_iff, not_and]
      exact fun hh => absurd hh.version h2
    · simp only [Exec.fail_ne_ok, false_iff, not_and]
      intro hh
      have := hh.le_dataEnd
      have := hh.dataEnd_le
      omega
    · simp only [Exec.fail_ne_ok, false_iff, not_and]
      intro hh
      have := hh.rootEnd_le
      omega
    · rw [Except.ok.injEq, eq_comm (b := p), and_iff_right]
      exact ⟨h, not_not.mp h1, not_not.mp h2, h3, by omega, by omega, by omega⟩
    · simp only [Exec.fail_ne_ok, false_iff, not_and]
      exact fun hh => absurd hh.size h3
  · have : parseSuperblock image confine trust = Exec.fail .truncated :=
      if_pos (by omega)
    simp only [this, Exec.fail_ne_ok, false_iff, not_and]
    exact fun hh => absurd hh.length h

/-- The size of the root table stays far below the machine word. -/
lemma rootEnd_lt (image : List UInt8) : rootEnd image < 2 ^ 36 := by
  have := u16At_lt image 0x06
  simp only [rootEnd, fileCount, superblockLen, direntLen]
  omega

/-- The extent ceiling of an image with a good superblock lies inside the image. -/
lemma HeaderOk.extentCeiling_le {trust : Bool} (h : HeaderOk image trust) (confine : Bool) :
    extentCeiling image confine ≤ image.length := by
  cases confine
  · exact le_rfl
  · exact h.dataEnd_le

/-- **What the readers accept.**  Mounting succeeds exactly when the superblock passes its checks
and a directory tree is stored at the root table; the mounted file system is the image together
with its number of root entries. -/
theorem mountInner_eq_ok_iff {confine trust : Bool} {fs : Fs} :
    mountInner image confine trust = .ok fs ↔ HeaderOk image trust ∧
      fs = ⟨image, fileCount image⟩ ∧ ∃ es, TreeOk image (extentCeiling image confine) es := by
  have hregion : ∀ h : HeaderOk image trust,
      (∃ hw, validateDir image (extentCeiling image confine) validateFrames superblockLen
        (direntLen * fileCount image) superblockLen 0 = .ok hw) ↔
      ∃ es, TreeOk image (extentCeiling image confine) es := by
    intro h
    simp only [validateDir_eq_ok_iff (h.extentCeiling_le confine) validateFrames superblockLen
      (direntLen * fileCount image) superblockLen _ 0 le_rfl (rootEnd_lt image), RegionOk]
    constructor
    · rintro ⟨_, -, -, -, es, hn, hst, hx, hf, hh, -⟩
      refine ⟨es, ?_, hst, hx, hf, by omega⟩
      simp only [direntLen] at hn
      omega
    · rintro ⟨es, ht⟩
      exact ⟨_, by simp [maxDepth], le_rfl, h.rootEnd_le, es, by rw [ht.count], ht.stored,
        ht.extents, ht.forward, by simpa using ht.height, rfl⟩
  simp only [mountInner, Exec.bind_eq_ok, parseSuperblock_eq_ok_iff, Exec.pure_eq_ok,
    Except.ok.injEq]
  constructor
  · rintro ⟨_, ⟨hh, rfl⟩, hw, hrun, rfl⟩
    exact ⟨hh, rfl, (hregion hh).mp ⟨hw, hrun⟩⟩
  · rintro ⟨hh, rfl, htree⟩
    obtain ⟨hw, hrun⟩ := (hregion hh).mpr htree
    exact ⟨_, ⟨hh, rfl⟩, hw, hrun, rfl⟩

/-- The directory tree of an image is unique. -/
lemma TreeOk.unique {c c' : ℕ} {es es' : Entries} (h : TreeOk image c es)
    (h' : TreeOk image c' es') : es = es' :=
  h.stored.unique h'.stored (h.count.trans h'.count.symm)

/-- Every reader is the shared parse with its own pair of switches. -/
lemma Reader.run_eq (r : Reader) (image : List UInt8) :
    r.run image = mountInner image r.confine r.trustDeclaredSize := by
  cases r <;> rfl

/-- The image satisfies the format: a good superblock, and a directory tree confined to the data
region. -/
def WellFormed (image : List UInt8) : Prop :=
  HeaderOk image false ∧ ∃ es, TreeOk image (dataEnd image) es

/-- The strict reader accepts exactly the well-formed images. -/
lemma isOk_mount_iff : (Fs.mount image).IsOk ↔ WellFormed image := by
  simp only [Exec.IsOk, Fs.mount, mountInner_eq_ok_iff, WellFormed]
  constructor
  · rintro ⟨_, h, -, ht⟩
    exact ⟨h, ht⟩
  · rintro ⟨h, ht⟩
    exact ⟨_, h, rfl, ht⟩

/-- **The grammar of the format.**  The strict reader accepts an image exactly when the superblock
is well formed and a finite directory tree is rooted at the table `[16, 16 + 32 * file_count)`:
its records are those of the image (file or directory, a directory's region being whole records),
every extent ends at or before `data_end`, every table starts at or after the end of each table
before it in depth-first pre-order, and directories nest at most 32 deep. -/
theorem mount_isOk_iff (img : List UInt8) :
    (Fs.mount img).IsOk ↔ 16 ≤ img.length ∧ img.take 4 = magic ∧ u16At img 4 = 3 ∧
      u32At img 8 = img.length ∧ 16 ≤ dataEnd img ∧ dataEnd img ≤ img.length ∧
      16 + 32 * fileCount img ≤ img.length ∧
      ∃ es : Entries, es.count = fileCount img ∧ Stored img 16 es ∧
        (∀ x ∈ es.extents, x.1 + x.2 ≤ dataEnd img) ∧
        Ordered ((16, 32 * fileCount img) :: es.tables) ∧ es.height ≤ 32 := by
  have htree : ∀ es : Entries, TreeOk img (dataEnd img) es ↔
      es.count = fileCount img ∧ Stored img 16 es ∧ (∀ x ∈ es.extents, x.1 + x.2 ≤ dataEnd img) ∧
        Ordered ((16, 32 * fileCount img) :: es.tables) ∧ es.height ≤ 32 := by
    intro es
    have hord : Forward (rootEnd img) es ↔ Ordered ((16, 32 * fileCount img) :: es.tables) := by
      rw [forward_iff, Ordered, Ordered, List.pairwise_cons]
      rfl
    rw [← hord]
    constructor
    · intro h
      exact ⟨h.count, h.stored, h.extents, h.forward, h.height⟩
    · rintro ⟨h1, h2, h3, h4, h5⟩
      exact ⟨h1, h2, h3, h4, h5⟩
  simp only [isOk_mount_iff, WellFormed, htree]
  constructor
  · rintro ⟨h, ht⟩
    exact ⟨h.length, h.magic, h.version, h.size, h.le_dataEnd, h.dataEnd_le,
      h.rootEnd_le, ht⟩
  · rintro ⟨h1, h2, h3, h4, h5, h6, h7, ht⟩
    exact ⟨⟨h1, h2, h3, h4, h5, h6, h7⟩, ht⟩

end ZiranOS
