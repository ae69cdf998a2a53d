import ZiranOS.Fs.Craft

/-!
# The presets of the capture-the-flag page

`buildImage` is the image builder of the page: two files, and behind the end of their data a secret
that no entry names.  The honest image keeps the secret to itself; the stretched one, whose first
file reaches over the secret, is rejected as long as the declared end of the data is honest, and
leaks the secret once it is forged (`buildImage_presets`).
-/

namespace ZiranOS

open ProgLib

namespace Craft

/-- The first file of the page. -/
def notes : File := ⟨"notes.txt".toList, Text.encode "nothing to see here.\n".toList⟩

/-- The second file of the page. -/
def readme : File := ⟨"readme.md".toList, Text.encode "a disk you uploaded yourself.\n".toList⟩

/-- The files of the page. -/
def pageFiles : List File := [notes, readme]

/-- The image builder of the page.  With `forgeDataEnd` the declared end of the data is the end of
the image, and with `stretch` the first file reaches to the end of the image. -/
def buildImage (forgeDataEnd stretch : Bool) (secret : List Char) : Option (List UInt8) :=
  let flag := Text.encode secret
  let dataStart := sb + pageFiles.length * dirent
  let placed := place dataStart pageFiles
  let honestDataEnd := (layExtents dataStart (pageFiles.map File.data)).2
  let secretOff := honestDataEnd
  let total := honestDataEnd + flag.length
  serialize total total (if forgeDataEnd then total else honestDataEnd)
    (placed.mapIdx fun i p =>
      ⟨p.1.name, p.2.1, if stretch && i == 0 then total - p.2.1 else p.2.2⟩)
    ((placed.map fun p => (p.1.data, p.2.1)) ++ [(flag, secretOff)])

/-! ## The image by its parts -/

/-- Where the data of the files start. -/
def dataStart : ℕ := sb + pageFiles.length * dirent

/-- The size of the image with the secret. -/
def total (secret : List Char) : ℕ := imageSize pageFiles + (Text.encode secret).length

/-- The names of the files fit. -/
lemma nameOk_pageFiles : ∀ f ∈ pageFiles, f.NameOk := by
  simp only [pageFiles, List.forall_mem_cons]
  exact ⟨⟨by decide, by decide, by decide, by decide⟩, ⟨by decide, by decide, by decide, by decide⟩,
    fun f hf => absurd hf List.not_mem_nil⟩

/-- The bytes of the image, part by part. -/
lemma imageSize_pageFiles :
    imageSize pageFiles = dataStart + notes.data.length + readme.data.length := by
  rw [imageSize, dataStart, pageFiles, List.flatMap_cons, List.flatMap_singleton,
    List.length_append, ← Nat.add_assoc]

/-- The size of the image, part by part. -/
lemma length_body (secret : List Char) :
    dataStart + (pageFiles.flatMap File.data ++ Text.encode secret).length = total secret := by
  rw [List.length_append, ← Nat.add_assoc]
  rfl

/-- The image of the page by its parts. -/
def disk (forgeDataEnd stretch : Bool) (secret : List Char) (hsize : total secret < 2 ^ 32) :
    Flat where
  entries := [⟨notes.name, dataStart,
      if stretch then total secret - dataStart else notes.data.length⟩,
    ⟨readme.name, dataStart + notes.data.length, readme.data.length⟩]
  body := pageFiles.flatMap File.data ++ Text.encode secret
  dataEnd := if forgeDataEnd then total secret else imageSize pageFiles
  nameOk := by
    have hnames := nameOk_pageFiles
    simp only [pageFiles, List.forall_mem_cons] at hnames ⊢
    exact ⟨⟨hnames.1.length_le, hnames.1.nul⟩, ⟨hnames.2.1.length_le, hnames.2.1.nul⟩,
      fun e he => absurd he List.not_mem_nil⟩
  count_lt := show 2 < 2 ^ 16 by decide
  extent_le := by
    have hbody := length_body secret
    have hfiles := imageSize_pageFiles
    simp only [List.forall_mem_cons]
    refine ⟨?_, ?_, fun e he => absurd he List.not_mem_nil⟩
    · change dataStart + (if stretch then total secret - dataStart else notes.data.length) ≤
        dataStart + (pageFiles.flatMap File.data ++ Text.encode secret).length
      rw [hbody, total, hfiles]
      split_ifs <;> omega
    · change dataStart + notes.data.length + readme.data.length ≤
        dataStart + (pageFiles.flatMap File.data ++ Text.encode secret).length
      rw [hbody, total, hfiles]
      omega
  le_dataEnd := by
    have hstart : superblockLen ≤ dataStart := by decide
    rw [total, imageSize_pageFiles]
    split_ifs <;> omega
  dataEnd_le := by
    change (if forgeDataEnd then total secret else imageSize pageFiles) ≤
      dataStart + (pageFiles.flatMap File.data ++ Text.encode secret).length
    rw [length_body, total]
    split_ifs <;> omega
  size_lt := by
    change dataStart + (pageFiles.flatMap File.data ++ Text.encode secret).length < 2 ^ 32
    rwa [length_body]

section Disk

variable {forgeDataEnd stretch : Bool} {secret : List Char} {hsize : total secret < 2 ^ 32}

/-- The declared end of the data. -/
lemma dataEnd_disk : (disk forgeDataEnd stretch secret hsize).dataEnd =
    if forgeDataEnd then total secret else imageSize pageFiles := rfl

/-- **The builder of the page** writes the flat image. -/
lemma buildImage_eq :
    buildImage forgeDataEnd stretch secret =
      some (disk forgeDataEnd stretch secret hsize).image := by
  have hend : (layExtents dataStart (pageFiles.map File.data)).2 = imageSize pageFiles := by
    rw [layExtents_snd, ← List.flatMap_def, imageSize, dataStart]
  have hparts : Consecutive dataStart (((place dataStart pageFiles).map fun p =>
      (p.1.data, p.2.1)) ++ [(Text.encode secret, imageSize pageFiles)]) := by
    refine ⟨rfl, rfl, ?_, trivial⟩
    rw [imageSize_pageFiles]
  have hbody : (((place dataStart pageFiles).map fun p => (p.1.data, p.2.1)) ++
      [(Text.encode secret, imageSize pageFiles)]).flatMap Prod.fst =
      (disk forgeDataEnd stretch secret hsize).body := by
    rw [List.flatMap_append, flatMap_place, List.flatMap_singleton]
    rfl
  have hentries : ((place dataStart pageFiles).mapIdx fun i p => (⟨p.1.name, p.2.1,
      if stretch && i == 0 then total secret - p.2.1 else p.2.2⟩ : Dirent)) =
      (disk forgeDataEnd stretch secret hsize).entries := by
    cases stretch <;> rfl
  have hlen : (disk forgeDataEnd stretch secret hsize).size = total secret := length_body secret
  have h := serialize_eq (disk forgeDataEnd stretch secret hsize) hparts hbody
  rw [← h, hlen, ← hentries]
  change serialize ((layExtents dataStart (pageFiles.map File.data)).2 + _)
    ((layExtents dataStart (pageFiles.map File.data)).2 + _)
    (if forgeDataEnd then (layExtents dataStart (pageFiles.map File.data)).2 + _
      else (layExtents dataStart (pageFiles.map File.data)).2) _ _ = _
  rw [hend]
  rfl

/-- The data of the image at their places. -/
lemma holds_disk (forgeDataEnd stretch : Bool) (hsize : total secret < 2 ^ 32) :
    Holds (disk forgeDataEnd stretch secret hsize).image dataStart notes.data ∧
      Holds (disk forgeDataEnd stretch secret hsize).image (dataStart + notes.data.length)
        readme.data ∧
      Holds (disk forgeDataEnd stretch secret hsize).image (imageSize pageFiles)
        (Text.encode secret) := by
  have hbody : Holds (disk forgeDataEnd stretch secret hsize).image dataStart
      (notes.data ++ (readme.data ++ Text.encode secret)) :=
    (disk forgeDataEnd stretch secret hsize).holds_image.2.2.2.2.2.2
  rwa [holds_append, holds_append, ← imageSize_pageFiles] at hbody

/-- A file of the page is read as the extent of its entry. -/
lemma readPath_disk {e : Dirent} (he : e ∈ (disk forgeDataEnd stretch secret hsize).entries) :
    (disk forgeDataEnd stretch secret hsize).fs.readPath Text.fromUtf8Lossy ('/' :: e.name) =
      .ok (bytesAt (disk forgeDataEnd stretch secret hsize).image e.offset e.length) := by
  have hnames : (disk forgeDataEnd stretch secret hsize).entries.map Dirent.name =
      pageFiles.map File.name := rfl
  have hfile : e.name ∈ pageFiles.map File.name := hnames ▸ List.mem_map_of_mem he
  obtain ⟨f, hf, hname⟩ := List.mem_map.mp hfile
  have hok := nameOk_pageFiles f hf
  refine Flat.readPath_name _ ?_ he (hname ▸ hok.ne_nil) (hname ▸ hok.slash)
  rw [hnames]
  decide

end Disk

/-- The honest image. -/
lemma honest_disk (secret : List Char) (hsize : total secret < 2 ^ 32) :
    Fs.mount (disk false false secret hsize).image = .ok (disk false false secret hsize).fs ∧
      ∀ path bytes,
        (disk false false secret hsize).fs.readPath Text.fromUtf8Lossy path = .ok bytes →
          ∃ o l, o + l ≤ imageSize pageFiles ∧
            (disk false false secret hsize).fs.resolve Text.fromUtf8Lossy path =
              .ok (.file o l) ∧
            bytes = bytesAt (disk false false secret hsize).image o l := by
  have hext : ∀ e ∈ (disk false false secret hsize).entries,
      e.offset + e.length ≤ imageSize pageFiles := by
    rw [imageSize_pageFiles]
    change ∀ e ∈ [(⟨notes.name, dataStart, notes.data.length⟩ : Dirent),
      ⟨readme.name, dataStart + notes.data.length, readme.data.length⟩], _
    simp only [List.forall_mem_cons]
    exact ⟨Nat.le_add_right _ _, le_rfl, fun e he => absurd he List.not_mem_nil⟩
  refine ⟨?_, fun path bytes hread => ?_⟩
  · rw [Flat.mount_image]
    exact if_pos hext
  · obtain ⟨e, he, hres, hbytes⟩ := Flat.exists_of_readPath _ hread
    exact ⟨e.offset, e.length, hext e he, hres, hbytes⟩

/-- The stretched image under the honest end of the data. -/
lemma blocked_disk {secret : List Char} (hne : Text.encode secret ≠ [])
    (hsize : total secret < 2 ^ 32) :
    Fs.mount (disk false true secret hsize).image = Exec.fail .extentEscapesData := by
  have hpos : 0 < (Text.encode secret).length := List.length_pos_iff.mpr hne
  have hfiles := imageSize_pageFiles
  rw [Flat.mount_image, if_neg]
  intro hext
  have hmem : (⟨notes.name, dataStart, total secret - dataStart⟩ : Dirent) ∈
      (disk false true secret hsize).entries := List.mem_cons_self
  have hfirst := hext _ hmem
  rw [dataEnd_disk, if_neg Bool.false_ne_true] at hfirst
  change dataStart + (imageSize pageFiles + (Text.encode secret).length - dataStart) ≤ _ at hfirst
  omega

/-- The stretched image under the forged end of the data. -/
lemma exploit_disk (secret : List Char) (hsize : total secret < 2 ^ 32) :
    Fs.mount (disk true true secret hsize).image = .ok (disk true true secret hsize).fs ∧
      (disk true true secret hsize).fs.readPath Text.fromUtf8Lossy ('/' :: notes.name) =
        .ok (notes.data ++ readme.data ++ Text.encode secret) := by
  have hfiles := imageSize_pageFiles
  have htotal : total secret = imageSize pageFiles + (Text.encode secret).length := rfl
  have hext : ∀ e ∈ (disk true true secret hsize).entries, e.offset + e.length ≤ total secret := by
    change ∀ e ∈ [(⟨notes.name, dataStart, total secret - dataStart⟩ : Dirent),
      ⟨readme.name, dataStart + notes.data.length, readme.data.length⟩], _
    simp only [List.forall_mem_cons]
    exact ⟨by omega, by omega, fun e he => absurd he List.not_mem_nil⟩
  have hbody : Holds (disk true true secret hsize).image dataStart
      (notes.data ++ readme.data ++ Text.encode secret) := by
    rw [List.append_assoc]
    exact (disk true true secret hsize).holds_image.2.2.2.2.2.2
  have hlen : (notes.data ++ readme.data ++ Text.encode secret).length =
      total secret - dataStart := by
    rw [List.length_append, List.length_append]
    omega
  refine ⟨?_, ?_⟩
  · rw [Flat.mount_image]
    exact if_pos hext
  · rw [readPath_disk List.mem_cons_self]
    exact congrArg Except.ok (bytesAt_of_holds hbody hlen)

/-- **The builder of the page and the strict reader agree**, for every secret that has a byte.  The
honest image mounts, lists the two files and gives them back, and every path that can be read is
that of a file that ends before the secret.  The stretched image is rejected under the honest end of
the data, and under the forged one its first file is read as both files and the secret. -/
theorem buildImage_presets (secret : List Char) (hne : Text.encode secret ≠ [])
    (hsize : imageSize pageFiles + (Text.encode secret).length < 2 ^ 32) :
    (∃ (img : List UInt8) (fs : Fs) (listed : List DirEntry),
      buildImage false false secret = some img ∧ Fs.mount img = .ok fs ∧
      img.length = imageSize pageFiles + (Text.encode secret).length ∧
      bytesAt img (imageSize pageFiles) (Text.encode secret).length = Text.encode secret ∧
      fs.listDir Text.fromUtf8Lossy ['/'] = .ok listed ∧
      (listed.map fun e => (e.name, e.length, e.isDir)) =
        [("notes.txt".toList, notes.data.length, false),
          ("readme.md".toList, readme.data.length, false)] ∧
      fs.readPath Text.fromUtf8Lossy "/notes.txt".toList = .ok notes.data ∧
      fs.readPath Text.fromUtf8Lossy "/readme.md".toList = .ok readme.data ∧
      ∀ path bytes, fs.readPath Text.fromUtf8Lossy path = .ok bytes →
        ∃ o l, o + l ≤ imageSize pageFiles ∧
          fs.resolve Text.fromUtf8Lossy path = .ok (.file o l) ∧ bytes = bytesAt img o l) ∧
    (∃ img, buildImage false true secret = some img ∧
      Fs.mount img = Exec.fail .extentEscapesData) ∧
    ∃ (img : List UInt8) (fs : Fs),
      buildImage true true secret = some img ∧ Fs.mount img = .ok fs ∧
      fs.readPath Text.fromUtf8Lossy "/notes.txt".toList =
        .ok (notes.data ++ readme.data ++ Text.encode secret) := by
  obtain ⟨hmount, hconfined⟩ := honest_disk secret hsize
  obtain ⟨hnotes, hreadme, hsecret⟩ := holds_disk false false hsize
  refine ⟨⟨_, _, _, buildImage_eq, hmount, ?_, bytesAt_of_holds hsecret rfl, Flat.listDir_root _,
    rfl, ?_, ?_, hconfined⟩, ⟨_, buildImage_eq, blocked_disk hne hsize⟩,
    ⟨_, _, buildImage_eq, exploit_disk secret hsize⟩⟩
  · exact (Flat.length_image _).trans (length_body secret)
  · exact (readPath_disk List.mem_cons_self).trans
      (congrArg Except.ok (bytesAt_of_holds hnotes rfl))
  · exact (readPath_disk (List.mem_cons_of_mem _ List.mem_cons_self)).trans
      (congrArg Except.ok (bytesAt_of_holds hreadme rfl))

/-- The presets for a secret of three bytes. -/
theorem buildImage_presets_abc :
    (∃ img, buildImage false true ['a', 'b', 'c'] = some img ∧
      Fs.mount img = Exec.fail .extentEscapesData) ∧
    ∃ (img : List UInt8) (fs : Fs), buildImage true true ['a', 'b', 'c'] = some img ∧
      Fs.mount img = .ok fs ∧ fs.readPath Text.fromUtf8Lossy "/notes.txt".toList =
        .ok (notes.data ++ readme.data ++ [0x61, 0x62, 0x63]) :=
  (buildImage_presets ['a', 'b', 'c'] (by decide) (by decide)).2

end Craft

end ZiranOS
