import ZiranOS.Fs.Flat

/-!
# The reference builder

`buildZranFS` is the serializer of the format document.  It zeroes a buffer and copies the fields of
the superblock, the directory entries and the contents of the files into it; `serialize` is the part
of it that other builders of the repository share.  Reading undoes writing: what it builds without
overrides is mounted, lists the files, and gives their contents back
(`readPath_buildZranFS`).
-/

namespace ZiranOS

open ProgLib

namespace Craft

/-- Bytes of a directory entry. -/
def dirent : ℕ := 32
/-- Bytes of the superblock. -/
def sb : ℕ := 16

/-- Copy the fields of an entry to its place. -/
def setEntry (buf : List UInt8) (base : ℕ) (e : Dirent) : Option (List UInt8) := do
  let buf ← setBytes buf ((Text.encode e.name).take 20) base
  let buf ← setBytes buf (le32 e.offset) (base + 20)
  let buf ← setBytes buf (le32 e.length) (base + 24)
  setBytes buf (le32 0) (base + 28)

/-- Write an image of `imgLen` bytes: the superblock, the entries, and the parts of the data, each
at its place. -/
def serialize (imgLen totalSize dataEnd : ℕ) (entries : List Dirent)
    (parts : List (List UInt8 × ℕ)) : Option (List UInt8) := do
  let buf ← setBytes (List.replicate imgLen 0) (Text.encode "ZRFS".toList) 0
  let buf ← setBytes buf (le16 3) 4
  let buf ← setBytes buf (le16 entries.length) 6
  let buf ← setBytes buf (le32 totalSize) 8
  let buf ← setBytes buf (le32 dataEnd) 12
  let buf ← entries.zipIdx.foldlM (fun buf e => setEntry buf (sb + e.2 * dirent) e.1) buf
  parts.foldlM (fun buf part => setBytes buf part.1 part.2) buf

/-- The extents of data laid out from `off` on, and the end of the last one. -/
def layExtents : ℕ → List (List UInt8) → List (ℕ × ℕ) × ℕ
  | off, [] => ([], off)
  | off, data :: rest =>
    let laid := layExtents (off + data.length) rest
    ((off, data.length) :: laid.1, laid.2)

/-- A file to be written. -/
structure File where
  name : List Char
  data : List UInt8
  deriving DecidableEq, Repr

/-- The files with their extents, laid out from `off` on. -/
def place (off : ℕ) (files : List File) : List (File × ℕ × ℕ) :=
  files.zip (layExtents off (files.map File.data)).1

/-- What an override says about an entry. -/
structure EntryOverride where
  offset : Option ℕ := none
  length : Option ℕ := none

/-- What the overrides say about the superblock and about the entries by their number. -/
structure Overrides where
  totalSize : Option ℕ := none
  dataEnd : Option ℕ := none
  entries : ℕ → EntryOverride := fun _ => {}

/-- The reference builder. -/
def buildZranFS (files : List File) (o : Overrides) : Option (List UInt8) :=
  let off := sb + files.length * dirent
  let placed := place off files
  let imgLen := (layExtents off (files.map File.data)).2
  serialize imgLen (o.totalSize.getD imgLen) (o.dataEnd.getD imgLen)
    (placed.mapIdx fun i p =>
      ⟨p.1.name, (o.entries i).offset.getD p.2.1, (o.entries i).length.getD p.2.2⟩)
    (placed.map fun p => (p.1.data, p.2.1))

/-! ## The serializer writes a flat image -/

/-- An entry is copied into its 32 bytes. -/
lemma setEntry_padTo {pre : List UInt8} {base size : ℕ} {e : Dirent} (h : e.NameOk)
    (hpre : pre.length = base) (hsize : base + direntLen ≤ size) :
    setEntry (padTo pre size) base e = some (padTo (pre ++ e.record) size) := by
  have hlen := h.1
  have hfield := Dirent.length_nameField h
  simp only [nameLen, direntLen] at hlen hfield hsize
  have htake : (Text.encode e.name).take 20 = Text.encode e.name := List.take_of_length_le hlen
  have hname : setBytes (padTo pre size) (Text.encode e.name) base =
      some (padTo (pre ++ Text.encode e.name) size) :=
    setBytes_padTo_length hpre (by omega)
  -- the field is filled up by the next copy
  have hpad : padTo (pre ++ Text.encode e.name) (base + 20) = pre ++ e.nameField := by
    rw [← hpre, padTo_append]
    rfl
  have hoff : setBytes (padTo (pre ++ Text.encode e.name) size) (le32 e.offset) (base + 20) =
      some (padTo (pre ++ e.nameField ++ le32 e.offset) size) := by
    rw [setBytes_padTo (by rw [List.length_append]; omega)
      (by change base + 20 + 4 ≤ size; omega), hpad]
  have hl : setBytes (padTo (pre ++ e.nameField ++ le32 e.offset) size) (le32 e.length)
      (base + 24) = some (padTo (pre ++ e.nameField ++ le32 e.offset ++ le32 e.length) size) :=
    setBytes_padTo_length (by
      rw [List.length_append, List.length_append, hfield, hpre]
      rfl) (by change base + 24 + 4 ≤ size; omega)
  have hkind : setBytes (padTo (pre ++ e.nameField ++ le32 e.offset ++ le32 e.length) size)
      (le32 0) (base + 28) =
      some (padTo (pre ++ e.nameField ++ le32 e.offset ++ le32 e.length ++ le32 0) size) :=
    setBytes_padTo_length (by
      rw [List.length_append, List.length_append, List.length_append, hfield, hpre]
      rfl) (by change base + 28 + 4 ≤ size; omega)
  simp only [setEntry, htake, hname, hoff, hl, hkind, Option.bind_eq_bind, Option.bind_some]
  simp only [Dirent.record, kindFile, List.append_assoc]

/-- The entries are copied one behind the other. -/
lemma foldlM_setEntry {es : List Dirent} {pre : List UInt8} {k size : ℕ} (h : ∀ e ∈ es, e.NameOk)
    (hpre : pre.length = sb + k * dirent) (hsize : sb + (k + es.length) * dirent ≤ size) :
    (es.zipIdx k).foldlM (fun buf e => setEntry buf (sb + e.2 * dirent) e.1) (padTo pre size) =
      some (padTo (pre ++ es.flatMap Dirent.record) size) := by
  induction es generalizing pre k with
  | nil => simp
  | cons e es ih =>
    rw [List.forall_mem_cons] at h
    simp only [sb, dirent, List.length_cons] at hpre hsize ih
    have hlen : (pre ++ e.record).length = 16 + (k + 1) * 32 := by
      rw [List.length_append, Dirent.length_record h.1, hpre, direntLen]
      omega
    have hentry : setEntry (padTo pre size) (sb + k * dirent) e =
        some (padTo (pre ++ e.record) size) :=
      setEntry_padTo h.1 hpre (by simp only [sb, dirent, direntLen]; omega)
    rw [List.zipIdx_cons, List.foldlM_cons, hentry, Option.bind_eq_bind, Option.bind_some]
    simp only [sb, dirent]
    rw [ih h.2 hlen (by omega), List.flatMap_cons, List.append_assoc]

/-- **The serializer writes the image down** whose parts it is given. -/
theorem serialize_eq (f : Flat) {parts : List (List UInt8 × ℕ)}
    (hparts : Consecutive f.bodyStart parts) (hbody : parts.flatMap Prod.fst = f.body) :
    serialize f.size f.size f.dataEnd f.entries parts = some f.image := by
  have hstart : f.bodyStart = 16 + 32 * f.entries.length := rfl
  have hsize : f.size = f.bodyStart + f.body.length := rfl
  have hblank : List.replicate f.size 0 = padTo ([] : List UInt8) f.size := rfl
  have hmagic : setBytes (padTo [] f.size) (Text.encode "ZRFS".toList) 0 =
      some (padTo magic f.size) :=
    setBytes_padTo_length rfl (by change 0 + 4 ≤ f.size; omega)
  have hversion : setBytes (padTo magic f.size) (le16 3) 4 =
      some (padTo (magic ++ le16 3) f.size) :=
    setBytes_padTo_length rfl (by change 4 + 2 ≤ f.size; omega)
  have hcount : setBytes (padTo (magic ++ le16 3) f.size) (le16 f.entries.length) 6 =
      some (padTo (magic ++ le16 3 ++ le16 f.entries.length) f.size) :=
    setBytes_padTo_length rfl (by change 6 + 2 ≤ f.size; omega)
  have htotal : setBytes (padTo (magic ++ le16 3 ++ le16 f.entries.length) f.size)
      (le32 f.size) 8 =
      some (padTo (magic ++ le16 3 ++ le16 f.entries.length ++ le32 f.size) f.size) :=
    setBytes_padTo_length rfl (by change 8 + 4 ≤ f.size; omega)
  have hend : setBytes (padTo (magic ++ le16 3 ++ le16 f.entries.length ++ le32 f.size) f.size)
      (le32 f.dataEnd) 12 = some (padTo f.superblock f.size) :=
    setBytes_padTo_length rfl (by change 12 + 4 ≤ f.size; omega)
  have hentries : f.entries.zipIdx.foldlM (fun buf e => setEntry buf (sb + e.2 * dirent) e.1)
      (padTo f.superblock f.size) =
      some (padTo (f.superblock ++ f.entries.flatMap Dirent.record) f.size) :=
    foldlM_setEntry f.nameOk rfl (by simp only [sb, dirent]; omega)
  have hdata : parts.foldlM (fun buf part => setBytes buf part.1 part.2)
      (padTo (f.superblock ++ f.entries.flatMap Dirent.record) f.size) = some f.image := by
    have hlen : (f.superblock ++ f.entries.flatMap Dirent.record).length = f.bodyStart := by
      rw [List.length_append, Dirent.length_records f.nameOk]
      rfl
    have hfull : (f.superblock ++ f.entries.flatMap Dirent.record ++ f.body) = f.image :=
      List.append_assoc _ _ _
    rw [foldlM_setBytes (by rwa [hlen]) (by rw [hlen, hbody, hsize]), hbody, hfull,
      ← f.length_image, padTo_length]
  simp only [serialize, hblank, hmagic, hversion, hcount, htotal, hend, hentries, hdata,
    Option.bind_eq_bind, Option.bind_some]

/-! ## The layout of the files -/

/-- The end of the last extent. -/
lemma layExtents_snd (off : ℕ) (datas : List (List UInt8)) :
    (layExtents off datas).2 = off + datas.flatten.length := by
  induction datas generalizing off with
  | nil => rfl
  | cons data datas ih =>
    rw [layExtents, List.flatten_cons, List.length_append, ← Nat.add_assoc]
    exact ih _

variable {off : ℕ} {files : List File}

/-- Every file gets an extent. -/
lemma map_fst_place (off : ℕ) (files : List File) : (place off files).map Prod.fst = files := by
  induction files generalizing off with
  | nil => rfl
  | cons file files ih => exact congrArg (file :: ·) (ih _)

/-- Every file gets an extent, by number. -/
lemma length_place : (place off files).length = files.length := by
  rw [← List.length_map (f := Prod.fst), map_fst_place]

/-- The extents have the lengths of the data and end at or before the end of all data. -/
lemma place_bounds : ∀ p ∈ place off files, p.2.2 = p.1.data.length ∧
    p.2.1 + p.2.2 ≤ off + (files.flatMap File.data).length := by
  induction files generalizing off with
  | nil => exact fun p hp => absurd hp List.not_mem_nil
  | cons file files ih =>
    have hcons : place off (file :: files) =
        (file, off, file.data.length) :: place (off + file.data.length) files := rfl
    rw [hcons, List.forall_mem_cons, List.flatMap_cons, List.length_append]
    refine ⟨⟨rfl, by dsimp only; omega⟩, fun p hp => ?_⟩
    obtain ⟨hlen, hle⟩ := ih p hp
    exact ⟨hlen, by omega⟩

/-- Every file has its place. -/
lemma exists_mem_place {f : File} (hf : f ∈ files) (off : ℕ) : ∃ p ∈ place off files, p.1 = f := by
  rw [← map_fst_place off files, List.mem_map] at hf
  exact hf

/-- The data of the files lie one behind the other. -/
lemma consecutive_place :
    Consecutive off ((place off files).map fun p => (p.1.data, p.2.1)) := by
  induction files generalizing off with
  | nil => trivial
  | cons file files ih => exact ⟨rfl, ih⟩

/-- The data of the files in their order. -/
lemma flatMap_place :
    ((place off files).map fun p => (p.1.data, p.2.1)).flatMap Prod.fst =
      files.flatMap File.data := by
  have hmap : ((place off files).map Prod.fst).flatMap File.data = files.flatMap File.data := by
    rw [map_fst_place]
  rw [← hmap, List.flatMap_map, List.flatMap_map]

/-! ## Reading undoes writing -/

/-- A name that can be written and looked up. -/
structure File.NameOk (f : File) : Prop where
  /-- The name is not empty. -/
  ne_nil : f.name ≠ []
  /-- The name fits its field. -/
  length_le : (Text.encode f.name).length ≤ 20
  /-- The name has no NUL. -/
  nul : '\x00' ∉ f.name
  /-- The name has no separator. -/
  slash : '/' ∉ f.name

/-- The entry of a file with its extent. -/
def entryOf (p : File × ℕ × ℕ) : Dirent := ⟨p.1.name, p.2.1, p.2.2⟩

/-- The entries have the names of the files. -/
lemma names_place : ((place off files).map entryOf).map Dirent.name = files.map File.name := by
  rw [← congrArg (List.map File.name) (map_fst_place off files), List.map_map, List.map_map]
  rfl

/-- The listing of the entries shows the files. -/
lemma listed_place :
    (((place off files).map entryOf).map Dirent.listed).map (fun e => (e.name, e.length, e.isDir)) =
      files.map fun f => (f.name, f.data.length, false) := by
  have hlen : ∀ p ∈ place off files, (p.1.name, p.2.2, false) =
      (p.1.name, p.1.data.length, false) := by
    intro p hp
    rw [(place_bounds p hp).1]
  rw [← congrArg (List.map _) (map_fst_place off files), List.map_map, List.map_map, List.map_map]
  exact List.map_congr_left hlen

/-- The size of the image of the files. -/
def imageSize (files : List File) : ℕ :=
  sb + files.length * dirent + (files.flatMap File.data).length

/-- The names of the entries fit. -/
lemma nameOk_entries (h : ∀ f ∈ files, f.NameOk) :
    ∀ e ∈ (place off files).map entryOf, e.NameOk := by
  rw [List.forall_mem_map]
  intro p hp
  have hfile : p.1 ∈ files := by
    rw [← map_fst_place off files]
    exact List.mem_map_of_mem hp
  exact ⟨(h _ hfile).length_le, (h _ hfile).nul⟩

/-- There is an entry for every file. -/
lemma length_entries : ((place off files).map entryOf).length = files.length := by
  rw [List.length_map, length_place]

/-- The size of the image, part by part. -/
lemma size_entries : superblockLen + direntLen * ((place off files).map entryOf).length +
    (files.flatMap File.data).length = imageSize files := by
  rw [length_entries, Nat.mul_comm]
  rfl

/-- The extents of the entries end at or before the end of the image. -/
lemma extent_le_entries : ∀ e ∈ (place (sb + files.length * dirent) files).map entryOf,
    e.offset + e.length ≤ imageSize files := by
  rw [List.forall_mem_map]
  exact fun p hp => (place_bounds p hp).2

/-- The superblock lies in the image. -/
lemma superblockLen_le_imageSize : superblockLen ≤ imageSize files := by
  rw [imageSize, Nat.add_assoc]
  exact Nat.le_add_right _ _

/-- The image of the files by its parts. -/
def flat (files : List File) (hcount : files.length ≤ 65535) (hnames : ∀ f ∈ files, f.NameOk)
    (hsize : imageSize files < 2 ^ 32) : Flat where
  entries := (place (sb + files.length * dirent) files).map entryOf
  body := files.flatMap File.data
  dataEnd := imageSize files
  nameOk := nameOk_entries hnames
  count_lt := length_entries.trans_lt (Nat.lt_succ_of_le hcount)
  extent_le := fun e he => (extent_le_entries e he).trans size_entries.ge
  le_dataEnd := superblockLen_le_imageSize
  dataEnd_le := size_entries.ge
  size_lt := size_entries.trans_lt hsize

section Flat

variable {hcount : files.length ≤ 65535} {hnames : ∀ f ∈ files, f.NameOk}
  {hsize : imageSize files < 2 ^ 32}

/-- The size of the parts. -/
lemma size_flat : (flat files hcount hnames hsize).size = imageSize files := size_entries

/-- The data start behind the table. -/
lemma bodyStart_flat :
    (flat files hcount hnames hsize).bodyStart = sb + files.length * dirent := by
  rw [Flat.bodyStart, flat, length_entries, Nat.mul_comm]
  rfl

/-- **The reference builder without overrides** writes the flat image of the files. -/
lemma buildZranFS_eq : buildZranFS files {} = some (flat files hcount hnames hsize).image := by
  have hlen : (layExtents (sb + files.length * dirent) (files.map File.data)).2 =
      imageSize files := by
    rw [layExtents_snd, ← List.flatMap_def, imageSize]
  have hentries : (place (sb + files.length * dirent) files).mapIdx
      (fun _ p => (⟨p.1.name, p.2.1, p.2.2⟩ : Dirent)) =
      (flat files hcount hnames hsize).entries :=
    List.mapIdx_eq_iff.mpr fun i => List.getElem?_map ..
  have hparts : Consecutive (flat files hcount hnames hsize).bodyStart
      ((place (sb + files.length * dirent) files).map fun p => (p.1.data, p.2.1)) := by
    rw [bodyStart_flat]
    exact consecutive_place
  have h := serialize_eq (flat files hcount hnames hsize) hparts flatMap_place
  rw [size_flat] at h
  rw [← h, buildZranFS, hlen]
  exact congrArg (fun es => serialize _ _ _ es _) hentries

end Flat

/-- **Reading undoes writing.**  Of at most 65535 files with distinct names, none of them empty,
longer than 20 bytes or with a NUL or a `/`, and with less than `2 ^ 32` bytes in all, the reference
builder makes an image that mounts, whose root lists the files in their order, and in which every
file is read back. -/
theorem readPath_buildZranFS (files : List File) (hcount : files.length ≤ 65535)
    (hdistinct : (files.map File.name).Nodup) (hnames : ∀ f ∈ files, f.NameOk)
    (hsize : imageSize files < 2 ^ 32) :
    ∃ (img : List UInt8) (fs : Fs) (listed : List DirEntry),
      buildZranFS files {} = some img ∧ img.length = imageSize files ∧ Fs.mount img = .ok fs ∧
      fs.listDir Text.fromUtf8Lossy ['/'] = .ok listed ∧
      (listed.map fun e => (e.name, e.length, e.isDir)) =
        (files.map fun f => (f.name, f.data.length, false)) ∧
      ∀ f ∈ files, fs.readPath Text.fromUtf8Lossy ('/' :: f.name) = .ok f.data := by
  set built := flat files hcount hnames hsize
  have hplaced : built.entries = (place (sb + files.length * dirent) files).map entryOf := rfl
  have hmount : Fs.mount built.image = .ok built.fs := by
    have hext : ∀ e ∈ built.entries, e.offset + e.length ≤ built.dataEnd := extent_le_entries
    rw [Flat.mount_image, if_pos hext]
    rfl
  have hdata : Holds built.image built.bodyStart
      (((place (sb + files.length * dirent) files).map fun p => (p.1.data, p.2.1)).flatMap
        Prod.fst) := by
    rw [flatMap_place]
    exact built.holds_image.2.2.2.2.2.2
  rw [bodyStart_flat] at hdata
  refine ⟨built.image, built.fs, built.entries.map Dirent.listed, buildZranFS_eq,
    built.length_image.trans size_flat, hmount, built.listDir_root, listed_place, fun f hf => ?_⟩
  obtain ⟨p, hp, rfl⟩ := exists_mem_place hf (sb + files.length * dirent)
  have hname := hnames p.1 hf
  have hentry : entryOf p ∈ built.entries := List.mem_map_of_mem hp
  have hnodup : (built.entries.map Dirent.name).Nodup := by
    rw [hplaced, names_place]
    exact hdistinct
  have hbytes : Holds built.image p.2.1 p.1.data :=
    hdata.of_consecutive consecutive_place _ (List.mem_map_of_mem hp)
  exact (built.readPath_name hnodup hentry hname.ne_nil hname.slash).trans
    (congrArg Except.ok (bytesAt_of_holds hbytes (place_bounds p hp).1.symm))

/-- Two files, the second one empty and with a name that fills its field. -/
def sampleFiles : List File :=
  [⟨['a'], [0x68, 0x69]⟩, ⟨List.replicate 20 'b', []⟩]

/-- The image of the two files gives them back. -/
theorem readPath_buildZranFS_sampleFiles :
    ∃ (img : List UInt8) (fs : Fs), buildZranFS sampleFiles {} = some img ∧ img.length = 82 ∧
      Fs.mount img = .ok fs ∧ fs.readPath Text.fromUtf8Lossy ['/', 'a'] = .ok [0x68, 0x69] ∧
      fs.readPath Text.fromUtf8Lossy ('/' :: List.replicate 20 'b') = .ok [] := by
  have hnames : ∀ f ∈ sampleFiles, f.NameOk := by
    simp only [sampleFiles, List.forall_mem_cons]
    exact ⟨⟨by decide, by decide, by decide, by decide⟩,
      ⟨by decide, by decide, by decide, by decide⟩, fun f hf => absurd hf List.not_mem_nil⟩
  obtain ⟨img, fs, listed, hbuild, hlen, hmount, -, -, hread⟩ :=
    readPath_buildZranFS sampleFiles (by decide) (by decide) hnames (by decide)
  exact ⟨img, fs, hbuild, hlen, hmount, hread _ List.mem_cons_self,
    hread _ (List.mem_cons_of_mem _ List.mem_cons_self)⟩

end Craft

end ZiranOS
