import ZiranOS.Fs.Listing
import ZiranOS.Shell.Active

/-!
# What `ls` shows and `cat` reads

`ls` prints the names of the entries, and `cat` takes a name back as the first word of its line.
The two agree on names without a space (`cat_listed_iff`): a file is read by the name that `ls`
shows.  Of a name with a space, `cat` sees the first word only.
-/

namespace ZiranOS

open ProgLib Entries

variable {flag : Option (List UInt8)} {lossy : List UInt8 → List Char}

/-! ## Lookups along the names of a path -/

/-- The directory above a directory is a directory. -/
lemma lookup_dropLast {start : TreeNode} {names : List (List Char)} {o l : ℕ} {sub : Entries}
    (hstart : ∃ o' l' sub', start = .dir o' l' sub') (hne : ∀ name ∈ names, name ≠ [])
    (h : lookup lossy start names = .ok (.dir o l sub)) :
    ∃ o' l' sub', lookup lossy start names.dropLast = .ok (.dir o' l' sub') := by
  rcases List.eq_nil_or_concat names with rfl | ⟨parents, name, rfl⟩
  · obtain ⟨o', l', sub', rfl⟩ := hstart
    exact ⟨o', l', sub', rfl⟩
  · rw [List.concat_eq_append, lookup_append] at h
    obtain ⟨parent, hparent, hlast⟩ := Exec.bind_eq_ok.mp h
    rw [List.concat_eq_append, List.dropLast_concat, hparent]
    have hname : ¬ name.isEmpty := by simpa using hne name (by simp)
    cases parent with
    | file o' l' =>
      rw [lookup_cons, if_neg hname] at hlast
      exact absurd hlast (Exec.fail_ne_ok _ _)
    | dir o' l' sub' => exact ⟨o', l', sub', rfl⟩

/-- The file that a single part of a path names, from a directory. -/
lemma lookup_pushPart_eq_file_iff {start : TreeNode} {names : List (List Char)} {o l : ℕ}
    {sub : Entries} {part : List Char} {offset length : ℕ}
    (hstart : ∃ o' l' sub', start = .dir o' l' sub') (hne : ∀ name ∈ names, name ≠ [])
    (h : lookup lossy start names = .ok (.dir o l sub)) :
    lookup lossy start (pushPart names part) = .ok (.file offset length) ↔
      IsName part ∧ sub.find lossy part = some (.file offset length) := by
  unfold pushPart IsName
  split_ifs with hstay hup
  · rw [h]
    simp only [Except.ok.injEq, reduceCtorEq, false_iff]
    tauto
  · obtain ⟨o', l', sub', hparent⟩ := lookup_dropLast hstart hne h
    rw [hparent]
    simp [hup]
  · rw [not_or] at hstay
    rw [lookup_append, h, Exec.bind_ok, lookup_cons, if_neg (by simpa using hstay.1)]
    cases hfind : sub.find lossy part with
    | none => simp [hfind]
    | some child => simp [hfind, hstay, hup, lookup]

/-! ## The listing of a directory -/

/-- The file that a name stands for, in the tree and in the listing. -/
lemma find_eq_file_iff {es : Entries} {name : List Char} {offset length : ℕ} :
    es.find lossy name = some (.file offset length) ↔
      ∃ e, (es.listing lossy).find? (fun e => e.name = name) = some e ∧ e.isDir = false ∧
        e.offset = offset ∧ e.length = length := by
  have hmap := @find_map_toNode lossy es name
  cases hfind : es.find lossy name with
  | none =>
    rw [hfind, Option.map_none, eq_comm, Option.map_eq_none_iff] at hmap
    simp [hmap]
  | some node =>
    rw [hfind, Option.map_some, eq_comm, Option.map_eq_some_iff] at hmap
    obtain ⟨e, he, hnode⟩ := hmap
    simp only [he, Option.some.injEq, exists_eq_left']
    cases node <;> cases hdir : e.isDir <;> simp_all [DirEntry.node, TreeNode.toNode]

namespace Shell

variable {sh : Shell} {ceiling : ℕ} {es : Entries}

/-- `ls` without an argument prints the listing of the current directory. -/
lemma dispatch_ls_eq_listing_iff {stream : List UInt8} {entries : List DirEntry}
    (hmount : mountActive flag sh.activeImage = .ok ⟨sh.activeImage, fileCount sh.activeImage⟩)
    (ht : TreeOk sh.activeImage ceiling es) :
    sh.dispatch flag lossy "ls".toList stream = .ok (sh, .listing entries) ↔
      ∃ o l sub, lookup lossy (rootNode es) (pathNames sh.cwd) = .ok (.dir o l sub) ∧
        entries = sub.listing lossy := by
  change sh.cmdLs flag lossy [] = _ ↔ _
  rw [cmdLs, hmount, Exec.attempt_ok, Exec.bind_ok]
  dsimp only
  rw [if_pos (by rfl), listDir_eq lossy ht, pathNames, lookup_filter, Exec.bind_eq_ok]
  constructor
  · rintro ⟨listed, hlisted, heq⟩
    cases listed with
    | error e => cases heq
    | ok listed =>
      cases heq
      obtain ⟨node, hlook, hnode⟩ := Exec.bind_eq_ok.mp (Exec.attempt_eq_ok_ok.mp hlisted)
      cases node with
      | file o l => cases hnode
      | dir o l sub => exact ⟨o, l, sub, hlook, (Except.ok.inj hnode).symm⟩
  · rintro ⟨o, l, sub, hlook, rfl⟩
    exact ⟨.ok (sub.listing lossy), by rw [hlook, Exec.bind_ok, Exec.attempt_ok], rfl⟩

/-- `cat` prints the file that the path of its argument names. -/
lemma cmdCat_eq_printed_iff {arg text : List Char}
    (hmount : mountActive flag sh.activeImage = .ok ⟨sh.activeImage, fileCount sh.activeImage⟩)
    (ht : TreeOk sh.activeImage ceiling es) (hc : ceiling ≤ sh.activeImage.length) :
    sh.cmdCat flag lossy arg = .ok (sh, .printed text) ↔ arg ≠ [] ∧
      ∃ o l, lookup lossy (rootNode es) (pathStack sh.cwd arg) = .ok (.file o l) ∧
        text = lossy (bytesAt sh.activeImage o l) := by
  unfold cmdCat
  split_ifs with hempty
  · rw [List.isEmpty_iff] at hempty
    exact iff_of_false nofun fun h => h.1 hempty
  · rw [List.isEmpty_iff] at hempty
    rw [hmount, Exec.attempt_ok, Exec.bind_ok, and_iff_right hempty]
    dsimp only
    rw [readPath_eq lossy ht hc, ← pathNames_canonicalize, pathNames, lookup_filter,
      Exec.bind_eq_ok]
    constructor
    · rintro ⟨read, hread, heq⟩
      cases read with
      | error e => cases e <;> cases heq
      | ok bytes =>
        cases heq
        obtain ⟨node, hlook, hnode⟩ := Exec.bind_eq_ok.mp (Exec.attempt_eq_ok_ok.mp hread)
        cases node with
        | file o l => exact ⟨o, l, hlook, by rw [Except.ok.inj hnode]⟩
        | dir o l sub => cases hnode
    · rintro ⟨o, l, hlook, rfl⟩
      exact ⟨.ok (bytesAt sh.activeImage o l), by rw [hlook, Exec.bind_ok, Exec.attempt_ok], rfl⟩

end Shell

/-! ## Names that are listed -/

/-- The text of the file of an entry. -/
def DirEntry.text (lossy : List UInt8 → List Char) (image : List UInt8) (e : DirEntry) :
    List Char :=
  lossy (bytesAt image e.offset e.length)

/-- A name of printable ASCII characters that stands for an entry in a path. -/
def IsPlainName (name : List Char) : Prop :=
  IsName name ∧ ∀ c ∈ name, 0x20 ≤ c.toNat ∧ c.toNat ≤ 0x7E ∧ c ≠ '/'

/-- The name has no space, or its first word is the name of a file with the same text. -/
def ReachedByFirstWord (lossy : List UInt8 → List Char) (image : List UInt8)
    (entries : List DirEntry) (e : DirEntry) : Prop :=
  ' ' ∉ e.name ∨ IsName (Text.firstWord e.name) ∧
    ∃ e', entries.find? (fun e' => e'.name = Text.firstWord e.name) = some e' ∧
      e'.isDir = false ∧ e.text lossy image = e'.text lossy image

/-- The only white space among the printable ASCII characters is the space. -/
lemma firstWord_of_isPlainName {name : List Char} (h : IsPlainName name) (hspace : ' ' ∉ name) :
    Text.firstWord name = name := by
  refine Text.firstWord_eq_self fun c hc hwhite => ?_
  obtain ⟨hlo, hhi, -⟩ := h.2 c hc
  have hne : c.toNat ≠ 0x20 := fun hval => hspace ((Char.toNat_inj.mp hval : c = ' ') ▸ hc)
  simp only [Text.isWhitespace, Bool.or_eq_true, Bool.and_eq_true, decide_eq_true_eq,
    beq_iff_eq] at hwhite
  omega

/-- **What `ls` shows, `cat` reads**, exactly if the name of the file has no space, or its first
word happens to name a file with the same text.  The file is the first entry with its name. -/
theorem cat_listed_iff (flag : Option (List UInt8)) (lossy : List UInt8 → List Char) (sh : Shell)
    (hcwd : Canonical sh.cwd) (hdir : IsDirectory none lossy sh.activeImage sh.cwd)
    (stream : List UInt8) :
    ∃ entries, sh.dispatch flag lossy "ls".toList stream = .ok (sh, .listing entries) ∧
      ∀ before e after, entries = before ++ e :: after → e.isDir = false → IsPlainName e.name →
        (∀ e' ∈ before, e'.name ≠ e.name) →
        (sh.dispatch flag lossy ("cat ".toList ++ e.name) stream =
            .ok (sh, .printed (e.text lossy sh.activeImage)) ↔
          ReachedByFirstWord lossy sh.activeImage entries e) := by
  obtain ⟨fs, o, l, hfs, hnode⟩ := hdir
  obtain ⟨rfl, ceiling, es, ht, hc⟩ := tree_of_mountActive hfs
  have hmount : mountActive flag sh.activeImage =
      .ok ⟨sh.activeImage, fileCount sh.activeImage⟩ := by
    unfold mountActive
    split_ifs
    · exact mountTier2_of_mountLoose (mountLoose_of_mount hfs)
    · exact hfs
  have hlook : ∃ sub, lookup lossy (rootNode es) (pathNames sh.cwd) = .ok (.dir o l sub) := by
    rw [resolve_eq lossy ht] at hnode
    rw [pathNames, lookup_filter]
    cases hlook : lookup lossy (rootNode es) (sh.cwd.splitOn '/') with
    | error e => rw [hlook] at hnode; cases hnode
    | ok node =>
      rw [hlook] at hnode
      cases node with
      | file o' l' => cases hnode
      | dir o' l' sub => cases hnode; exact ⟨sub, rfl⟩
  obtain ⟨sub, hlook⟩ := hlook
  refine ⟨_, (Shell.dispatch_ls_eq_listing_iff hmount ht).mpr ⟨o, l, sub, hlook, rfl⟩, ?_⟩
  intro before e after hsplit hfile hplain hfirst
  have hslash : '/' ∉ Text.firstWord e.name := fun hmem =>
    (hplain.2 '/' (Text.firstWord_subset _ hmem)).2.2 rfl
  have hnames : ∀ name ∈ pathNames sh.cwd, name ≠ [] := fun name hname => by
    simpa using (List.mem_filter.mp hname).2
  have hdispatch : sh.dispatch flag lossy ("cat ".toList ++ e.name) stream =
      sh.cmdCat flag lossy (Text.firstWord e.name) := by
    rw [Shell.dispatch, parse_cat]
  -- the file that the first word names in the listing
  rw [hdispatch, Shell.cmdCat_eq_printed_iff hmount ht hc, pathStack_of_canonical hcwd hslash]
  have hreach : ∀ o' l', lookup lossy (rootNode es)
      (pushPart (pathNames sh.cwd) (Text.firstWord e.name)) = .ok (.file o' l') ↔ _ :=
    fun o' l' => lookup_pushPart_eq_file_iff ⟨_, _, _, rfl⟩ hnames hlook
  simp only [hreach, find_eq_file_iff]
  unfold ReachedByFirstWord DirEntry.text
  constructor
  · rintro ⟨-, o', l', ⟨hname, e', he', hfile', rfl, rfl⟩, htext⟩
    exact .inr ⟨hname, e', he', hfile', htext⟩
  · rintro (hspace | ⟨hname, e', he', hfile', htext⟩)
    · rw [firstWord_of_isPlainName hplain hspace]
      refine ⟨hplain.1.1, _, _, ⟨hplain.1, e, ?_, hfile, rfl, rfl⟩, rfl⟩
      rw [hsplit, List.find?_append, List.find?_eq_none.mpr (by simpa using hfirst)]
      simp
    · exact ⟨hname.1, _, _, ⟨hname, e', he', hfile', rfl, rfl⟩, htext⟩

theorem cat_listed_sampleImage :
    Shell.dispatch none asciiName ⟨['/'], some sampleImage⟩ "cat a".toList [] =
      .ok (⟨['/'], some sampleImage⟩, .printed "hi".toList) := by
  obtain ⟨entries, hls, hcat⟩ := cat_listed_iff none asciiName ⟨['/'], some sampleImage⟩
    canonical_root ⟨⟨sampleImage, 1⟩, 16, 32, by decide, by decide⟩ []
  have hentries : Shell.dispatch none asciiName ⟨['/'], some sampleImage⟩ "ls".toList [] =
      .ok (⟨['/'], some sampleImage⟩, .listing [⟨['a'], 48, 2, false⟩]) := by decide
  obtain rfl : entries = [⟨['a'], 48, 2, false⟩] := by
    rw [hentries] at hls
    cases hls
    rfl
  have hplain : IsPlainName ['a'] := ⟨⟨by decide, by decide, by decide⟩, by simp⟩
  exact (hcat [] ⟨['a'], 48, 2, false⟩ [] rfl rfl hplain (by simp)).mpr (.inl (by decide))

/-- One file `a b` with the two bytes `hi`. -/
def spacedImage : List UInt8 :=
  [0x5A, 0x52, 0x46, 0x53, 3, 0, 1, 0, 50, 0, 0, 0, 50, 0, 0, 0] ++
    0x61 :: 0x20 :: 0x62 :: List.replicate 17 0 ++ [48, 0, 0, 0, 2, 0, 0, 0, 0, 0, 0, 0] ++
    [0x68, 0x69]

/-- `ls` shows the file `a b` with the text `hi`, and `cat a b` looks for a file `a`. -/
theorem cat_spaced_name :
    (Fs.mount spacedImage).IsOk ∧ Canonical ['/'] ∧
      IsDirectory none asciiName spacedImage ['/'] ∧ IsPlainName "a b".toList ∧
      Shell.dispatch none asciiName ⟨['/'], some spacedImage⟩ "ls".toList [] =
        .ok (⟨['/'], some spacedImage⟩, .listing [⟨"a b".toList, 48, 2, false⟩]) ∧
      DirEntry.text asciiName spacedImage ⟨"a b".toList, 48, 2, false⟩ = "hi".toList ∧
      Shell.dispatch none asciiName ⟨['/'], some spacedImage⟩ "cat a b".toList [] =
        .ok (⟨['/'], some spacedImage⟩, .noSuchFile "/a".toList) :=
  ⟨by decide, canonical_root, ⟨⟨spacedImage, 1⟩, 16, 32, by decide, by decide⟩,
    ⟨⟨by decide, by decide, by decide⟩, by simp⟩, by decide, by decide, by decide⟩

end ZiranOS
