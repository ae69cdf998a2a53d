import ZiranOS.Lib.Buffer
import ZiranOS.Lib.Utf8
import ZiranOS.Fs.Compare
import ZiranOS.Fs.Lookup

/-!
# Images with files in the root only

A `Flat` is such an image by its parts: the entries of the root with their extents, the bytes behind
the root table and the declared end of the data region.  `Flat.image` writes it down.  The strict
reader mounts it if every extent ends at or before the declared end, and reports an extent that
escapes otherwise (`Flat.mount_image`); the listing of the root and the bytes of every path are then
those of the entries.
-/

namespace ZiranOS

open ProgLib Entries

/-! ## Fields -/

/-- The two bytes of a number, the lowest first. -/
def le16 (v : ℕ) : List UInt8 := [UInt8.ofNat v, UInt8.ofNat (v >>> 8)]

/-- The four bytes of a number, the lowest first. -/
def le32 (v : ℕ) : List UInt8 := [0, 8, 16, 24].map fun s => UInt8.ofNat (v >>> s)

section Fields

variable {image : List UInt8}

/-- A byte that an image holds. -/
lemma byteAt_of_holds {xs : List UInt8} {off i : ℕ} (h : Holds image off xs) (hi : i < xs.length) :
    byteAt image (off + i) = xs.getD i 0 := h.getD hi 0

/-- The 16-bit field that was written. -/
lemma u16At_of_holds {off v : ℕ} (h : Holds image off (le16 v)) (hv : v < 2 ^ 16) :
    u16At image off = v := by
  have hbyte : ∀ i < 2, byteAt image (off + i) = (le16 v).getD i 0 := fun i hi =>
    byteAt_of_holds h hi
  have h0 : byteAt image off = UInt8.ofNat v := hbyte 0 (by omega)
  have h1 : byteAt image (off + 1) = UInt8.ofNat (v >>> 8) := hbyte 1 (by omega)
  rw [u16At, h0, h1]
  simp only [UInt8.toNat_ofNat', Nat.shiftRight_eq_div_pow]
  omega

/-- The 32-bit field that was written. -/
lemma u32At_of_holds {off v : ℕ} (h : Holds image off (le32 v)) (hv : v < 2 ^ 32) :
    u32At image off = v := by
  have hbyte : ∀ i < 4, byteAt image (off + i) = (le32 v).getD i 0 := fun i hi =>
    byteAt_of_holds h hi
  have h0 : byteAt image off = UInt8.ofNat (v >>> 0) := hbyte 0 (by omega)
  have h1 : byteAt image (off + 1) = UInt8.ofNat (v >>> 8) := hbyte 1 (by omega)
  have h2 : byteAt image (off + 2) = UInt8.ofNat (v >>> 16) := hbyte 2 (by omega)
  have h3 : byteAt image (off + 3) = UInt8.ofNat (v >>> 24) := hbyte 3 (by omega)
  rw [u32At, h0, h1, h2, h3]
  simp only [UInt8.toNat_ofNat', Nat.shiftRight_eq_div_pow]
  omega

/-- The bytes that an image holds, read back. -/
lemma bytesAt_of_holds {xs : List UInt8} {off len : ℕ} (h : Holds image off xs)
    (hlen : xs.length = len) : bytesAt image off len = xs := by
  subst hlen
  exact h.take

end Fields

/-! ## Entries of files -/

/-- The entry of a file: its name and its extent. -/
structure Dirent where
  name : List Char
  offset : ℕ
  length : ℕ
  deriving DecidableEq, Repr

namespace Dirent

/-- The name fits its field and can be read back from it. -/
def NameOk (e : Dirent) : Prop := (Text.encode e.name).length ≤ nameLen ∧ '\x00' ∉ e.name

/-- The bytes of the name field. -/
def nameField (e : Dirent) : List UInt8 := padTo (Text.encode e.name) nameLen

/-- The 32 bytes of the entry. -/
def record (e : Dirent) : List UInt8 :=
  e.nameField ++ (le32 e.offset ++ (le32 e.length ++ le32 kindFile))

/-- The entry as `ls` renders it. -/
def listed (e : Dirent) : DirEntry := ⟨e.name, e.offset, e.length, false⟩

/-- A name without NUL is read back from its field, also where it fills it. -/
lemma entryName_nameField {e : Dirent} (h : e.NameOk) :
    entryName Text.fromUtf8Lossy e.nameField = e.name := by
  have hnone : (Text.encode e.name).findIdx (· == 0) = (Text.encode e.name).length :=
    List.findIdx_eq_length.mpr fun b hb => by
      have hne : b ≠ 0 := fun hzero => Text.zero_notMem_encode h.2 (hzero ▸ hb)
      simpa using hne
  have hzeros : ∀ n : ℕ, (List.replicate n (0 : UInt8)).findIdx (· == 0) = 0 := by
    intro n
    cases n <;> simp [List.replicate_succ, List.findIdx_cons]
  have hfield : entryNameBytes e.nameField = Text.encode e.name := by
    rw [entryNameBytes, nameField, padTo, List.findIdx_append, hnone, if_neg (lt_irrefl _),
      hzeros, Nat.zero_add, List.take_left' rfl]
  rw [entryName, hfield, Text.fromUtf8Lossy_encode]

/-- The name field has its width. -/
lemma length_nameField {e : Dirent} (h : e.NameOk) : e.nameField.length = nameLen :=
  length_padTo h.1

/-- A record has 32 bytes. -/
lemma length_record {e : Dirent} (h : e.NameOk) : e.record.length = direntLen := by
  simp only [record, List.length_append, length_nameField h]
  rfl

/-- The records of a table of files. -/
lemma length_records {es : List Dirent} (h : ∀ e ∈ es, e.NameOk) :
    (es.flatMap record).length = direntLen * es.length := by
  induction es with
  | nil => rfl
  | cons e es ih =>
    rw [List.forall_mem_cons] at h
    rw [List.flatMap_cons, List.length_append, length_record h.1, ih h.2, List.length_cons]
    ring

end Dirent

/-- The table of the files, as a directory tree. -/
def fileEntries : List Dirent → Entries
  | [] => nil
  | e :: es => .file e.nameField e.offset e.length (fileEntries es)

section FileEntries

variable {image : List UInt8} {es : List Dirent}

lemma count_fileEntries (es : List Dirent) : (fileEntries es).count = es.length := by
  induction es with
  | nil => rfl
  | cons e es ih => rw [fileEntries, count, ih, List.length_cons]

lemma tables_fileEntries (es : List Dirent) : (fileEntries es).tables = [] := by
  induction es with
  | nil => rfl
  | cons e es ih => rw [fileEntries, tables, ih]

lemma height_fileEntries (es : List Dirent) : (fileEntries es).height = 0 := by
  induction es with
  | nil => rfl
  | cons e es ih => rw [fileEntries, height, ih]

lemma extents_fileEntries (es : List Dirent) :
    (fileEntries es).extents = es.map fun e => (e.offset, e.length) := by
  induction es with
  | nil => rfl
  | cons e es ih => rw [fileEntries, extents, ih, List.map_cons]

/-- The listing of a table of files. -/
lemma listing_fileEntries (h : ∀ e ∈ es, e.NameOk) :
    (fileEntries es).listing Text.fromUtf8Lossy = es.map Dirent.listed := by
  induction es with
  | nil => rfl
  | cons e es ih =>
    rw [List.forall_mem_cons] at h
    rw [fileEntries, listing, ih h.2, Dirent.entryName_nameField h.1]
    rfl

/-- A name stands for the only entry that has it. -/
lemma find_fileEntries (h : ∀ e ∈ es, e.NameOk) (hd : (es.map Dirent.name).Nodup) {e : Dirent}
    (he : e ∈ es) :
    (fileEntries es).find Text.fromUtf8Lossy e.name = some (.file e.offset e.length) := by
  induction es with
  | nil => exact absurd he List.not_mem_nil
  | cons e' es ih =>
    rw [List.forall_mem_cons] at h
    obtain ⟨hhead, htail⟩ := List.nodup_cons.mp hd
    rw [fileEntries, Entries.find, Dirent.entryName_nameField h.1]
    rcases List.mem_cons.mp he with rfl | he
    · rw [if_pos rfl]
    · have hne : e'.name ≠ e.name := fun heq => hhead (heq ▸ List.mem_map_of_mem he)
      rw [if_neg hne]
      exact ih h.2 htail he

/-- The records of files are stored where an image holds them. -/
lemma stored_fileEntries {base : ℕ} (h : ∀ e ∈ es, e.NameOk)
    (hlt : ∀ e ∈ es, e.offset < 2 ^ 32 ∧ e.length < 2 ^ 32)
    (hrec : Holds image base (es.flatMap Dirent.record))
    (hin : base + direntLen * es.length ≤ image.length) : Stored image base (fileEntries es) := by
  induction es generalizing base with
  | nil => trivial
  | cons e es ih =>
    rw [List.forall_mem_cons] at h hlt
    rw [List.flatMap_cons, holds_append, Dirent.length_record h.1, Dirent.record, holds_append,
      holds_append, holds_append, Dirent.length_nameField h.1] at hrec
    obtain ⟨⟨hname, hoff, hlen, hkind⟩, hrest⟩ := hrec
    rw [List.length_cons, Nat.mul_succ] at hin
    refine ⟨by omega, bytesAt_of_holds hname (Dirent.length_nameField h.1),
      u32At_of_holds hoff hlt.1.1, u32At_of_holds hlen hlt.1.2,
      u32At_of_holds hkind (by decide), ih h.2 hlt.2 hrest (by omega)⟩

end FileEntries

/-! ## The image of the parts -/

/-- An image with files in the root only, by its parts. -/
structure Flat where
  /-- The entries of the root. -/
  entries : List Dirent
  /-- The bytes behind the root table. -/
  body : List UInt8
  /-- The declared end of the data region. -/
  dataEnd : ℕ
  /-- Every name fits its field. -/
  nameOk : ∀ e ∈ entries, e.NameOk
  /-- The number of entries fits its field. -/
  count_lt : entries.length < 2 ^ 16
  /-- Every extent lies in the image. -/
  extent_le : ∀ e ∈ entries,
    e.offset + e.length ≤ superblockLen + direntLen * entries.length + body.length
  /-- The data region ends at or after the superblock. -/
  le_dataEnd : superblockLen ≤ dataEnd
  /-- The data region lies in the image. -/
  dataEnd_le : dataEnd ≤ superblockLen + direntLen * entries.length + body.length
  /-- The size of the image fits its field. -/
  size_lt : superblockLen + direntLen * entries.length + body.length < 2 ^ 32

namespace Flat

variable (f : Flat)

/-- Where the bytes behind the root table start. -/
def bodyStart : ℕ := superblockLen + direntLen * f.entries.length

/-- The size of the image. -/
def size : ℕ := f.bodyStart + f.body.length

/-- The superblock. -/
def superblock : List UInt8 :=
  magic ++ (le16 version ++ (le16 f.entries.length ++ (le32 f.size ++ le32 f.dataEnd)))

/-- The bytes of the image. -/
def image : List UInt8 := f.superblock ++ (f.entries.flatMap Dirent.record ++ f.body)

/-- The directory tree. -/
def tree : Entries := fileEntries f.entries

/-- The image has its declared size. -/
lemma length_image : f.image.length = f.size := by
  have hsuper : f.superblock.length = superblockLen := rfl
  rw [image, List.length_append, List.length_append, hsuper, Dirent.length_records f.nameOk, size,
    bodyStart, Nat.add_assoc]

/-- The parts of the image at their places. -/
lemma holds_image : Holds f.image 0 magic ∧ Holds f.image 4 (le16 version) ∧
    Holds f.image 6 (le16 f.entries.length) ∧ Holds f.image 8 (le32 f.size) ∧
    Holds f.image 12 (le32 f.dataEnd) ∧
    Holds f.image superblockLen (f.entries.flatMap Dirent.record) ∧
    Holds f.image f.bodyStart f.body := by
  have h : Holds f.image 0 (f.superblock ++ (f.entries.flatMap Dirent.record ++ f.body)) :=
    Holds.refl f.image
  obtain ⟨hsuper, hrest⟩ := holds_append.mp h
  obtain ⟨hrecords, hbody⟩ := holds_append.mp hrest
  rw [Dirent.length_records f.nameOk] at hbody
  rw [superblock, holds_append, holds_append, holds_append, holds_append] at hsuper
  obtain ⟨hmagic, hversion, hcount, hsize, hend⟩ := hsuper
  exact ⟨hmagic, hversion, hcount, hsize, hend, hrecords, hbody⟩

/-- The declared number of entries. -/
lemma fileCount_image : fileCount f.image = f.entries.length :=
  u16At_of_holds f.holds_image.2.2.1 f.count_lt

/-- The declared end of the data region. -/
lemma dataEnd_image : ZiranOS.dataEnd f.image = f.dataEnd :=
  u32At_of_holds f.holds_image.2.2.2.2.1 (lt_of_le_of_lt f.dataEnd_le f.size_lt)

/-- The superblock passes every check. -/
lemma headerOk : HeaderOk f.image false := by
  obtain ⟨hmagic, hversion, -, hsize, -⟩ := f.holds_image
  have hle : f.bodyStart ≤ f.size := Nat.le_add_right _ _
  refine ⟨?_, hmagic.take, u16At_of_holds hversion (by decide), ?_, ?_, ?_, ?_⟩
  · rw [length_image]
    exact (Nat.le_add_right _ _).trans hle
  · rw [SizeOk, if_neg Bool.false_ne_true, length_image]
    exact u32At_of_holds hsize f.size_lt
  · rw [dataEnd_image]
    exact f.le_dataEnd
  · rw [dataEnd_image, length_image]
    exact f.dataEnd_le
  · rw [rootEnd, fileCount_image, length_image]
    exact hle

/-- The tree of the image, under every ceiling of its extents. -/
lemma treeOk {c : ℕ} (h : ∀ e ∈ f.entries, e.offset + e.length ≤ c) : TreeOk f.image c f.tree := by
  have hlt : ∀ e ∈ f.entries, e.offset < 2 ^ 32 ∧ e.length < 2 ^ 32 := by
    intro e he
    have hle := f.extent_le e he
    have hsize := f.size_lt
    omega
  have hin : superblockLen + direntLen * f.entries.length ≤ f.image.length := by
    rw [length_image]
    exact Nat.le_add_right _ _
  refine ⟨?_, stored_fileEntries f.nameOk hlt f.holds_image.2.2.2.2.2.1 hin, ?_, ?_, ?_⟩
  · rw [tree, count_fileEntries, fileCount_image]
  · rw [Extents, tree, extents_fileEntries, List.forall_mem_map]
    exact h
  · rw [forward_iff, tree, tables_fileEntries]
    exact ⟨fun t ht => absurd ht List.not_mem_nil, List.Pairwise.nil⟩
  · rw [tree, height_fileEntries]
    exact Nat.zero_le _

/-- The loose reader mounts the image. -/
lemma mountLoose_image : Fs.mountLoose f.image = .ok ⟨f.image, f.entries.length⟩ := by
  rw [Fs.mountLoose, mountInner_eq_ok_iff, fileCount_image]
  refine ⟨f.headerOk, rfl, f.tree, f.treeOk fun e he => ?_⟩
  change e.offset + e.length ≤ f.image.length
  rw [length_image]
  exact f.extent_le e he

/-- **What the strict reader does with the image**: it mounts it if every extent ends at or before
the declared end of the data region, and reports an extent that escapes otherwise. -/
theorem mount_image : Fs.mount f.image =
    if ∀ e ∈ f.entries, e.offset + e.length ≤ f.dataEnd then .ok ⟨f.image, f.entries.length⟩
    else Exec.fail .extentEscapesData := by
  split_ifs with h
  · rw [Fs.mount, mountInner_eq_ok_iff, fileCount_image]
    refine ⟨f.headerOk, rfl, f.tree, f.treeOk ?_⟩
    change ∀ e ∈ f.entries, e.offset + e.length ≤ ZiranOS.dataEnd f.image
    rwa [dataEnd_image]
  · rcases mount_eqUnless f.image with hfail | heq
    · exact hfail
    · -- a mounted image has this tree, whose extents the reader has checked
      rw [mountLoose_image, Fs.mount, mountInner_eq_ok_iff] at heq
      obtain ⟨-, -, es, ht⟩ := heq
      obtain rfl := ht.unique (f.treeOk f.extent_le)
      have hext := ht.extents
      rw [Extents, tree, extents_fileEntries, List.forall_mem_map] at hext
      change ∀ e ∈ f.entries, e.offset + e.length ≤ ZiranOS.dataEnd f.image at hext
      rw [dataEnd_image] at hext
      exact absurd hext h

/-! ## What the paths of the image name -/

/-- The mounted image. -/
def fs : Fs := ⟨f.image, f.entries.length⟩

/-- The root lists the entries. -/
lemma listDir_root :
    f.fs.listDir Text.fromUtf8Lossy ['/'] = .ok (f.entries.map Dirent.listed) := by
  have h := listDir_eq Text.fromUtf8Lossy (f.treeOk f.extent_le) ['/']
  rw [fileCount_image] at h
  exact h.trans (congrArg Except.ok (listing_fileEntries f.nameOk))

/-- The lookups of files. -/
lemma readPath_eq_lookup (path : List Char) :
    f.fs.readPath Text.fromUtf8Lossy path =
      (lookup Text.fromUtf8Lossy (rootNode f.tree) (path.splitOn '/') >>= fun
        | .file offset length => .ok (bytesAt f.image offset length)
        | .dir _ _ _ => Exec.fail .isADirectory) := by
  have h := readPath_eq Text.fromUtf8Lossy (f.treeOk f.extent_le) f.length_image.ge path
  rwa [fileCount_image] at h

/-- A name below the root is read as the extent of its entry. -/
lemma readPath_name {e : Dirent} (hd : (f.entries.map Dirent.name).Nodup) (he : e ∈ f.entries)
    (hne : e.name ≠ []) (hslash : '/' ∉ e.name) :
    f.fs.readPath Text.fromUtf8Lossy ('/' :: e.name) = .ok (bytesAt f.image e.offset e.length) := by
  have hsplit : ('/' :: e.name).splitOn '/' = [[], e.name] := by
    rw [List.splitOn_cons_eq_if_modifyHead, if_pos (beq_self_eq_true _),
      List.splitOn_eq_singleton hslash]
  have hfind : f.tree.find Text.fromUtf8Lossy e.name = some (.file e.offset e.length) :=
    find_fileEntries f.nameOk hd he
  have hlook : lookup Text.fromUtf8Lossy (rootNode f.tree) [[], e.name] =
      .ok (.file e.offset e.length) := by
    rw [lookup_cons, if_pos (by rfl), lookup_cons, if_neg (by simpa using hne)]
    simp only [rootNode, hfind, lookup]
  rw [readPath_eq_lookup, hsplit, hlook, Exec.bind_ok]

/-- Whatever file is found is the extent of an entry. -/
lemma exists_of_lookup {path : List Char} {o l : ℕ}
    (h : lookup Text.fromUtf8Lossy (rootNode f.tree) (path.splitOn '/') = .ok (.file o l)) :
    ∃ e ∈ f.entries, e.offset = o ∧ e.length = l := by
  rcases lookup_in Text.fromUtf8Lossy _ (Or.inl rfl) h with hroot | hin
  · cases hroot
  · change (o, l) ∈ f.tree.extents at hin
    rw [tree, extents_fileEntries, List.mem_map] at hin
    obtain ⟨e, he, heq⟩ := hin
    exact ⟨e, he, Prod.mk.inj heq⟩

/-- Whatever is read is the extent of an entry, to which the path resolves. -/
lemma exists_of_readPath {path : List Char} {bytes : List UInt8}
    (h : f.fs.readPath Text.fromUtf8Lossy path = .ok bytes) :
    ∃ e ∈ f.entries, f.fs.resolve Text.fromUtf8Lossy path = .ok (.file e.offset e.length) ∧
      bytes = bytesAt f.image e.offset e.length := by
  have hres := resolve_eq Text.fromUtf8Lossy (f.treeOk f.extent_le) path
  rw [fileCount_image] at hres
  rw [readPath_eq_lookup, Exec.bind_eq_ok] at h
  obtain ⟨node, hlook, hnode⟩ := h
  rw [hlook] at hres
  cases node with
  | dir o l sub => exact absurd hnode (Exec.fail_ne_ok _ _)
  | file o l =>
    obtain ⟨e, he, rfl, rfl⟩ := f.exists_of_lookup hlook
    exact ⟨e, he, hres, (Except.ok.inj hnode).symm⟩

end Flat

end ZiranOS
