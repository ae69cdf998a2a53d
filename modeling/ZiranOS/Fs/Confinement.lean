import ZiranOS.Fs.Lookup

/-!
# How far the strict reader confines an image to its data region

The strict reader promises that no byte at or past `data_end` can be observed.  Every extent of
the tree, and so every nested table, ends below that ceiling, but the root table is only compared
with the length of the image.  `confined_iff` says exactly what this leaves of the promise:
a superblock confines its image when the root table ends at or before `data_end`, and otherwise
only when the visible bytes already break the format by themselves.
-/

namespace ZiranOS

open ProgLib Entries

variable (lossy : List UInt8 → List Char) {A B : List UInt8} {d : ℕ}

/-! ## Images that agree below a ceiling -/

/-- Two images of the same length with the same bytes before `d`. -/
structure AgreeBelow (d : ℕ) (A B : List UInt8) : Prop where
  /-- The lengths are the same. -/
  length : A.length = B.length
  /-- The bytes before `d` are the same. -/
  take : A.take d = B.take d

namespace AgreeBelow

lemma symm (h : AgreeBelow d A B) : AgreeBelow d B A := ⟨h.length.symm, h.take.symm⟩

/-- Agreement below `d` is agreement on the bytes, on the 16-bit and 32-bit fields and on the
strings of bytes that end at or before `d`. -/
lemma byteAt_eq (h : AgreeBelow d A B) {i : ℕ} (hi : i < d) : byteAt A i = byteAt B i := by
  have htake : (A.take d)[i]? = (B.take d)[i]? := by rw [h.take]
  rw [List.getElem?_take_of_lt hi, List.getElem?_take_of_lt hi] at htake
  simp only [byteAt, List.getD_eq_getElem?_getD, htake]

lemma u16At_eq (h : AgreeBelow d A B) {off : ℕ} (hi : off + 2 ≤ d) : u16At A off = u16At B off := by
  simp only [u16At, h.byteAt_eq (show off < d by omega), h.byteAt_eq (show off + 1 < d by omega)]

lemma u32At_eq (h : AgreeBelow d A B) {off : ℕ} (hi : off + 4 ≤ d) : u32At A off = u32At B off := by
  simp only [u32At, h.byteAt_eq (show off < d by omega), h.byteAt_eq (show off + 1 < d by omega),
    h.byteAt_eq (show off + 2 < d by omega), h.byteAt_eq (show off + 3 < d by omega)]

lemma bytesAt_eq (h : AgreeBelow d A B) {off len : ℕ} (hi : off + len ≤ d) :
    bytesAt A off len = bytesAt B off len := by
  have hcut : ∀ image : List UInt8,
      bytesAt image off len = ((image.take d).drop off).take len := by
    intro image
    rw [List.drop_take, List.take_take, Nat.min_eq_left (by omega)]
    rfl
  rw [hcut, hcut, h.take]

/-- The superblock lies below every admissible ceiling, so its checks have the same outcome. -/
lemma headerOk (h : AgreeBelow d A B) (hd : superblockLen ≤ d) {trust : Bool}
    (hA : HeaderOk A trust) : HeaderOk B trust := by
  simp only [superblockLen] at hd
  have hend : dataEnd A = dataEnd B := h.u32At_eq (by simp only [sbDataEnd]; omega)
  have hcount : fileCount A = fileCount B := h.u16At_eq (by omega)
  refine ⟨h.length ▸ hA.length, ?_, ?_, ?_, hend ▸ hA.le_dataEnd, ?_, ?_⟩
  · exact (h.bytesAt_eq (show 0 + 4 ≤ d by omega)).symm.trans hA.magic
  · exact (h.u16At_eq (by omega)).symm.trans hA.version
  · have hsize := hA.size
    simp only [SizeOk] at hsize ⊢
    rwa [← h.u32At_eq (show 0x08 + 4 ≤ d by omega), ← h.length]
  · rw [← hend, ← h.length]
    exact hA.dataEnd_le
  · rw [rootEnd, ← hcount, ← h.length]
    exact hA.rootEnd_le

/-- A record that ends at or before the ceiling has the same fields in both images. -/
lemma record (h : AgreeBelow d A B) {base : ℕ} (hb : base + direntLen ≤ d) :
    bytesAt A base nameLen = bytesAt B base nameLen ∧
      u32At A (base + entOffset) = u32At B (base + entOffset) ∧
      u32At A (base + entLength) = u32At B (base + entLength) ∧
      u32At A (base + entKind) = u32At B (base + entKind) := by
  simp only [direntLen, nameLen, entOffset, entLength, entKind] at hb ⊢
  exact ⟨h.bytesAt_eq (by omega), h.u32At_eq (by omega), h.u32At_eq (by omega),
    h.u32At_eq (by omega)⟩

/-- A tree whose table and extents end at or before the ceiling is stored in both images. -/
lemma stored (h : AgreeBelow d A B) : ∀ {es : Entries} {base : ℕ}, Stored A base es →
    base + direntLen * es.count ≤ d → Extents d es → Stored B base es := by
  intro es
  induction es with
  | nil => intro base _ _ _; trivial
  | file name o l rest ih =>
    rintro base ⟨hin, hname, ho, hl, hkind, hrest⟩ hend hx
    rw [count, Nat.mul_add, Nat.mul_one] at hend
    obtain ⟨hn, hoff, hlen, hk⟩ := h.record (show base + direntLen ≤ d by omega)
    exact ⟨h.length ▸ hin, hn.symm.trans hname, hoff.symm.trans ho, hlen.symm.trans hl,
      hk.symm.trans hkind, ih hrest (by omega) (extents_file.mp hx).2⟩
  | dir name o l sub rest ihs ihr =>
    rintro base ⟨hin, hname, ho, hl, hkind, hcount, hsub, hrest⟩ hend hx
    obtain ⟨hext, hxs, hxr⟩ := extents_dir.mp hx
    rw [count, Nat.mul_add, Nat.mul_one] at hend
    obtain ⟨hn, hoff, hlen, hk⟩ := h.record (show base + direntLen ≤ d by omega)
    exact ⟨h.length ▸ hin, hn.symm.trans hname, hoff.symm.trans ho, hlen.symm.trans hl,
      hk.symm.trans hkind, hcount, ihs hsub (by omega) hxs, ihr hrest (by omega) hxr⟩

/-- When the root table ends below the ceiling the two images hold the same tree. -/
lemma treeOk (h : AgreeBelow d A B) (hd : superblockLen ≤ d) (hroot : rootEnd A ≤ d)
    {es : Entries} (ht : TreeOk A d es) : TreeOk B d es := by
  simp only [superblockLen] at hd
  have hcount : fileCount A = fileCount B := h.u16At_eq (by omega)
  refine ⟨ht.count.trans hcount, h.stored ht.stored ?_ ht.extents, ht.extents, ?_, ht.height⟩
  · rw [ht.count]
    exact hroot
  · have hf := ht.forward
    rwa [rootEnd, hcount] at hf

end AgreeBelow

/-! ## The visible part of an image -/

/-- The image with every byte from `data_end` on replaced by `0`. -/
def visible (image : List UInt8) : List UInt8 :=
  image.take (dataEnd image) ++ List.replicate (image.length - dataEnd image) 0

/-- The visible part agrees with the image below `data_end`. -/
lemma agreeBelow_visible (A : List UInt8) : AgreeBelow (dataEnd A) A (visible A) := by
  constructor
  · simp only [visible, List.length_append, List.length_take, List.length_replicate]
    omega
  · rcases le_total (dataEnd A) A.length with h | h
    · rw [visible, List.take_append_of_le_length (by simp [h]), List.take_take, Nat.min_self]
    · simp [visible, List.take_of_length_le h, Nat.sub_eq_zero_of_le h]

/-- Hiding bytes only lowers them. -/
lemma byteAt_visible_le (A : List UInt8) (i : ℕ) : byteAt (visible A) i ≤ byteAt A i := by
  by_cases hi : i < dataEnd A
  · rw [(agreeBelow_visible A).byteAt_eq hi]
    exact UInt8.le_refl _
  · have hzero : byteAt (visible A) i = 0 := by
      rw [byteAt, List.getD_eq_getElem?_getD, visible, List.getElem?_append_right (by
        rw [List.length_take]; omega), List.getElem?_replicate]
      split_ifs <;> rfl
    rw [hzero]
    exact UInt8.zero_le

/-- Lowering the bytes lowers the 32-bit fields. -/
lemma u32At_mono {V : List UInt8} (h : ∀ i, byteAt V i ≤ byteAt A i) (off : ℕ) :
    u32At V off ≤ u32At A off := by
  have h0 := UInt8.le_iff_toNat_le.mp (h off)
  have h1 := UInt8.le_iff_toNat_le.mp (h (off + 1))
  have h2 := UInt8.le_iff_toNat_le.mp (h (off + 2))
  have h3 := UInt8.le_iff_toNat_le.mp (h (off + 3))
  simp only [u32At]
  omega

/-- A table of files only stays one when bytes are lowered. -/
lemma Entries.Stored.lower {V : List UInt8} (hlen : V.length = A.length)
    (h : ∀ i, byteAt V i ≤ byteAt A i) : ∀ {es : Entries} {base : ℕ}, Stored A base es →
      es.tables = [] → Extents d es → ∃ es' : Entries, es'.count = es.count ∧ es'.tables = [] ∧
        es'.height = 0 ∧ Stored V base es' ∧ Extents d es' := by
  intro es
  induction es with
  | nil => exact fun _ _ _ => ⟨.nil, rfl, rfl, rfl, trivial, extents_nil d⟩
  | file name o l rest ih =>
    rintro base ⟨hin, -, ho, hl, hkind, hrest⟩ ht hx
    obtain ⟨hext, hx⟩ := extents_file.mp hx
    obtain ⟨es', hc, ht', hh, hst, hx'⟩ := ih hrest ht hx
    have hoff := u32At_mono h (base + entOffset)
    have hle := u32At_mono h (base + entLength)
    have hk := u32At_mono h (base + entKind)
    rw [hkind, kindFile] at hk
    refine ⟨.file (bytesAt V base nameLen) (u32At V (base + entOffset)) (u32At V (base + entLength))
      es', by simp [count, hc], ht', hh, ⟨hlen ▸ hin, rfl, rfl, rfl, ?_, hst⟩,
      extents_file.mpr ⟨by omega, hx'⟩⟩
    exact Nat.le_zero.mp hk
  | dir => exact fun _ ht => absurd ht (by simp [tables])

/-- A tree that is confined below a root table reaching past the ceiling has no nested table. -/
lemma TreeOk.tables_eq_nil {es : Entries} (ht : TreeOk A d es) (hroot : d < rootEnd A) :
    es.tables = [] := by
  apply List.eq_nil_iff_forall_not_mem.mpr
  intro t hmem
  have hlow := (mem_tables_bounds ht.forward t hmem).1
  have hhigh := ht.extents t (tables_subset_extents es hmem)
  omega

/-- Every record of a stored table has one of the two kinds. -/
lemma Entries.Stored.kind_le : ∀ {es : Entries} {base i : ℕ}, Stored A base es → i < es.count →
    u32At A (base + direntLen * i + entKind) ≤ kindDir := by
  -- the first record of a table, and the records after it
  have hstep : ∀ (rest : Entries) {base i : ℕ}, u32At A (base + entKind) ≤ kindDir →
      (∀ {j : ℕ}, j < rest.count →
        u32At A (base + direntLen + direntLen * j + entKind) ≤ kindDir) →
      i < rest.count + 1 → u32At A (base + direntLen * i + entKind) ≤ kindDir := by
    intro rest base i hhead htail hi
    cases i with
    | zero => exact hhead
    | succ j =>
      have := htail (j := j) (by omega)
      rwa [Nat.add_assoc base, Nat.add_comm direntLen, ← Nat.mul_succ] at this
  intro es
  induction es with
  | nil => intro base i _ hi; simp [count] at hi
  | file name o l rest ih =>
    rintro base i ⟨-, -, -, -, hkind, hrest⟩ hi
    exact hstep rest (by rw [hkind]; decide) (fun hj => ih hrest hj) hi
  | dir name o l sub rest _ ihr =>
    rintro base i ⟨-, -, -, -, hkind, -, -, hrest⟩ hi
    exact hstep rest (by rw [hkind]) (fun hj => ihr hrest hj) hi

/-- Hiding the bytes from `data_end` on keeps an image well formed. -/
lemma WellFormed.visible (h : WellFormed A) : WellFormed (visible A) := by
  obtain ⟨hh, es, ht⟩ := h
  have hagree := agreeBelow_visible A
  have hd : 16 ≤ dataEnd A := hh.le_dataEnd
  have hend : dataEnd A = dataEnd (ZiranOS.visible A) :=
    hagree.u32At_eq (by simp only [sbDataEnd]; omega)
  have hcount : fileCount A = fileCount (ZiranOS.visible A) := hagree.u16At_eq (by omega)
  refine ⟨hagree.headerOk hd hh, ?_⟩
  rw [← hend]
  by_cases hroot : rootEnd A ≤ dataEnd A
  · exact ⟨es, hagree.treeOk hd hroot ht⟩
  · obtain ⟨es', hc, htab, hheight, hst, hx⟩ := ht.stored.lower hagree.length.symm
      (byteAt_visible_le A) (ht.tables_eq_nil (by omega)) ht.extents
    refine ⟨es', ⟨hc.trans (ht.count.trans hcount), hst, hx, ?_, by omega⟩⟩
    rw [forward_iff, htab]
    exact ⟨by simp, List.Pairwise.nil⟩

/-! ## Confinement -/

/-- No byte at or past `data_end` of the image can influence what the strict reader lets a user
observe: an image of the same length and `data_end` with the same bytes before it mounts or fails
alike, and then every path resolves, lists and reads alike. -/
def Confined (A : List UInt8) : Prop :=
  ∀ B, dataEnd B = dataEnd A → AgreeBelow (dataEnd A) A B →
    ((Fs.mount A).IsOk ↔ (Fs.mount B).IsOk) ∧
    ∀ fa fb, Fs.mount A = .ok fa → Fs.mount B = .ok fb → ∀ path,
      fa.resolve lossy path = fb.resolve lossy path ∧
        fa.listDir lossy path = fb.listDir lossy path ∧
        fa.readPath lossy path = fb.readPath lossy path

/-- Under a root table below the ceiling the lookups of two agreeing images are the same. -/
lemma AgreeBelow.lookups_eq (h : AgreeBelow d A B) (hd : superblockLen ≤ d)
    (hroot : rootEnd A ≤ d) (hin : d ≤ A.length) {es : Entries} (ht : TreeOk A d es)
    (path : List Char) :
    Fs.resolve lossy ⟨A, fileCount A⟩ path = Fs.resolve lossy ⟨B, fileCount B⟩ path ∧
      Fs.listDir lossy ⟨A, fileCount A⟩ path = Fs.listDir lossy ⟨B, fileCount B⟩ path ∧
      Fs.readPath lossy ⟨A, fileCount A⟩ path = Fs.readPath lossy ⟨B, fileCount B⟩ path := by
  have ht' := h.treeOk hd hroot ht
  refine ⟨?_, ?_, ?_⟩
  · rw [resolve_eq lossy ht, resolve_eq lossy ht']
  · rw [listDir_eq lossy ht, listDir_eq lossy ht']
  · rw [readPath_eq lossy ht hin, readPath_eq lossy ht' (h.length ▸ hin)]
    cases hlook : lookup lossy (rootNode es) (path.splitOn '/') with
    | error e => rfl
    | ok node =>
      cases node with
      | dir o l sub => rfl
      | file o l =>
        have hext := (toNode_bounds lossy ht hlook).1 o l rfl
        simp only [Exec.bind_ok, h.bytesAt_eq hext]

/-- **When the strict reader confines an image.**  Confinement to `data_end` holds exactly when
the root table ends at or before it, or when the visible bytes already break the format, so that
no image with these visible bytes mounts. -/
theorem confined_iff (A : List UInt8) (hd : 16 ≤ dataEnd A) :
    Confined lossy A ↔ rootEnd A ≤ dataEnd A ∨ ¬ WellFormed (visible A) := by
  have hend : ∀ {B}, AgreeBelow (dataEnd A) A B → dataEnd B = dataEnd A :=
    fun h => (h.u32At_eq (by simp only [sbDataEnd]; omega)).symm
  have hcount : ∀ {B}, AgreeBelow (dataEnd A) A B → fileCount B = fileCount A :=
    fun h => (h.u16At_eq (by omega)).symm
  constructor
  · intro hconf
    by_contra hcon
    rw [not_or, not_le, not_not] at hcon
    obtain ⟨hroot, hvis⟩ := hcon
    have hV := agreeBelow_visible A
    have hA : WellFormed A := isOk_mount_iff.mp
      ((hconf _ (hend hV) hV).1.mpr (isOk_mount_iff.mpr hvis))
    -- the top byte of the kind of the last root record is hidden; a large value there is fatal
    have hW : AgreeBelow (dataEnd A) A (A.set (rootEnd A - 1) 0xFF) := by
      refine ⟨(List.length_set ..).symm, ?_⟩
      rw [List.take_set_of_le (by omega)]
    obtain ⟨-, es, ht⟩ : WellFormed (A.set (rootEnd A - 1) 0xFF) := isOk_mount_iff.mp
      ((hconf _ (hend hW) hW).1.mp (isOk_mount_iff.mpr hA))
    have hle := hA.1.rootEnd_le
    have hpos : 0 < fileCount A := by
      simp only [rootEnd, superblockLen, direntLen] at hroot
      omega
    have hkind := ht.stored.kind_le (i := fileCount A - 1) (by rw [ht.count, hcount hW]; omega)
    have hlast : superblockLen + direntLen * (fileCount A - 1) + entKind + 3 = rootEnd A - 1 := by
      simp only [rootEnd, superblockLen, direntLen, entKind]
      omega
    have hbyte : byteAt (A.set (rootEnd A - 1) 0xFF) (rootEnd A - 1) = 0xFF := by
      simp [byteAt, List.getD_eq_getElem?_getD, List.getElem?_set_self
        (show rootEnd A - 1 < A.length by omega)]
    rw [u32At, hlast, hbyte] at hkind
    simp only [kindDir] at hkind
    have : (0xFF : UInt8).toNat = 255 := rfl
    omega
  · intro hcond B hB hagree
    have hd' : superblockLen ≤ dataEnd B := hB ▸ hd
    have hagree' : AgreeBelow (dataEnd B) B A := hB ▸ hagree.symm
    by_cases hroot : rootEnd A ≤ dataEnd A
    · have hroot' : rootEnd B ≤ dataEnd B := by
        rwa [rootEnd, hcount hagree, hB]
      refine ⟨?_, fun fa fb ha hb path => ?_⟩
      · rw [isOk_mount_iff, isOk_mount_iff]
        constructor
        · rintro ⟨hh, es, ht⟩
          exact ⟨hagree.headerOk hd hh, es, hB ▸ hagree.treeOk hd hroot ht⟩
        · rintro ⟨hh, es, ht⟩
          exact ⟨hagree'.headerOk hd' hh, es, hB ▸ hagree'.treeOk hd' hroot' ht⟩
      · obtain ⟨hh, rfl, es, ht⟩ := mountInner_eq_ok_iff.mp ha
        obtain ⟨-, rfl, -⟩ := mountInner_eq_ok_iff.mp hb
        exact hagree.lookups_eq lossy hd hroot hh.dataEnd_le ht path
    · have hA : ¬ WellFormed A := fun h => (hcond.resolve_left hroot) h.visible
      have hvis : visible B = visible A := by
        rw [visible, visible, hB, ← hagree.length, hagree.take]
      have hnB : ¬ WellFormed B := fun h =>
        (hcond.resolve_left hroot) (hvis ▸ h.visible)
      refine ⟨by rw [isOk_mount_iff, isOk_mount_iff, iff_false_left hA]; exact hnB,
        fun fa fb ha => ?_⟩
      exact absurd (isOk_mount_iff.mp ⟨fa, ha⟩) hA

/-- The sample image keeps its two trailing bytes to itself. -/
theorem confined_sampleImage : 16 ≤ dataEnd sampleImage ∧ Confined asciiName sampleImage :=
  ⟨by decide, (confined_iff asciiName sampleImage (by decide)).mpr (Or.inl (by decide))⟩

/-- An image whose data region ends with the superblock, so that its one root entry, an empty file
with the name `name`, lies past `data_end`. -/
def hiddenRootImage (name : UInt8) : List UInt8 :=
  [0x5A, 0x52, 0x46, 0x53, 3, 0, 1, 0, 48, 0, 0, 0, 16, 0, 0, 0] ++ name :: List.replicate 31 0

/-- The reader lists the hidden name: two images that differ only past `data_end` both mount, and
list differently. -/
theorem hiddenRootImage_not_confined :
    ¬ ∀ A : List UInt8, 16 ≤ A.length → 16 ≤ dataEnd A → Confined asciiName A := by
  intro h
  have hagree : AgreeBelow 16 (hiddenRootImage 0x61) (hiddenRootImage 0x62) := ⟨rfl, rfl⟩
  have hlist := ((h (hiddenRootImage 0x61) (by decide) (by decide) (hiddenRootImage 0x62)
    (by decide) hagree).2 ⟨hiddenRootImage 0x61, 1⟩ ⟨hiddenRootImage 0x62, 1⟩ (by decide)
    (by decide) ['/']).2.1
  revert hlist
  decide

end ZiranOS
