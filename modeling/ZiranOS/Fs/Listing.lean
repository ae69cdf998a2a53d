import ZiranOS.Fs.Lookup

/-!
# Listing and resolution agree

`list_dir` and `resolve` go through the bytes of a table separately.  On the tree of the image both
are the same walk over the entries of a directory, so a path resolves to the first entry that is
listed under its last name (`resolve_child_iff`), and a listed entry that no entry before it hides
is what its name resolves to (`listing_agrees`).  Nothing is assumed about the decoding of names.
-/

namespace ZiranOS

open ProgLib Entries

variable {lossy : List UInt8 → List Char}

/-! ## Lookups in two parts -/

/-- A lookup depends on the names of the path only. -/
lemma lookup_filter (node : TreeNode) (comps : List (List Char)) :
    lookup lossy node (comps.filter fun comp => !comp.isEmpty) = lookup lossy node comps := by
  induction comps generalizing node with
  | nil => rfl
  | cons comp comps ih =>
    rw [lookup_cons]
    split_ifs with hempty
    · rw [List.filter_cons_of_neg (by simp [hempty]), ih]
    · rw [List.filter_cons_of_pos (by simp [hempty]), lookup_cons, if_neg hempty]
      simp only [ih]

/-- A lookup in two parts. -/
lemma lookup_append (node : TreeNode) (xs ys : List (List Char)) :
    lookup lossy node (xs ++ ys) = lookup lossy node xs >>= fun node => lookup lossy node ys := by
  induction xs generalizing node with
  | nil => rfl
  | cons comp xs ih =>
    rw [List.cons_append, lookup_cons, lookup_cons]
    split_ifs with hempty
    · exact ih node
    · cases node with
      | file o l => rfl
      | dir o l sub =>
        cases hfind : sub.find lossy comp with
        | none => simp only [hfind]; rfl
        | some child => simp only [hfind]; exact ih child

/-- A descent in two parts. -/
lemma resolveFrom_append (fs : Fs) (node : Node) (xs ys : List (List Char)) :
    fs.resolveFrom lossy node (xs ++ ys) =
      fs.resolveFrom lossy node xs >>= fun node => fs.resolveFrom lossy node ys := by
  induction xs generalizing node with
  | nil => rfl
  | cons comp xs ih =>
    rw [List.cons_append, resolveFrom_cons, resolveFrom_cons]
    split_ifs with hempty
    · exact ih node
    · cases node with
      | file o l => rfl
      | dir o l =>
        dsimp only
        rw [bind_assoc]
        congr 1
        funext child
        cases child with
        | none => rfl
        | some child => exact ih child

/-- What a path below another names depends on what the other names. -/
lemma resolve_append (fs : Fs) (p q : List Char) :
    fs.resolve lossy (p ++ '/' :: q) =
      fs.resolve lossy p >>= fun node => fs.resolveFrom lossy node (q.splitOn '/') := by
  rw [Fs.resolve, Fs.resolve, bind_assoc, List.splitOn_append_cons_self]
  simp only [resolveFrom_append]

/-! ## The listing of a directory -/

/-- The node of an entry that is listed. -/
def DirEntry.node (e : DirEntry) : Node :=
  if e.isDir then .dir e.offset e.length else .file e.offset e.length

/-- A name is looked up by the first entry of the listing that has it. -/
lemma find_map_toNode (es : Entries) (name : List Char) :
    (es.find lossy name).map TreeNode.toNode =
      ((es.listing lossy).find? fun e => e.name = name).map DirEntry.node := by
  induction es with
  | nil => rfl
  | file raw o l rest ih =>
    rw [Entries.find, listing, List.find?_cons]
    split_ifs with hname
    · simp [hname, TreeNode.toNode, DirEntry.node]
    · simpa [hname] using ih
  | dir raw o l sub rest _ ih =>
    rw [Entries.find, listing, List.find?_cons]
    split_ifs with hname
    · simp [hname, TreeNode.toNode, DirEntry.node]
    · simpa [hname] using ih

/-- The first entry with a name, by its index. -/
lemma find?_name_eq_some_iff {es : List DirEntry} {name : List Char} {e : DirEntry} :
    es.find? (fun e => e.name = name) = some e ↔ e.name = name ∧
      ∃ (i : ℕ) (hi : i < es.length), es[i] = e ∧ ∀ j (hj : j < i), es[j].name ≠ name := by
  simp [List.find?_eq_some_iff_getElem]

/-- A path resolves to the first entry that is listed under its last name in the directory
above. -/
lemma resolve_child_iff {image : List UInt8} {ceiling : ℕ} {tree : Entries}
    (ht : TreeOk image ceiling tree) {d name : List Char} (hne : name ≠ []) (hslash : '/' ∉ name)
    {node : Node} :
    Fs.resolve lossy ⟨image, fileCount image⟩ (d ++ '/' :: name) = .ok node ↔
      ∃ es, Fs.listDir lossy ⟨image, fileCount image⟩ d = .ok es ∧
        ∃ e, es.find? (fun e => e.name = name) = some e ∧ node = e.node := by
  have hempty : ¬ name.isEmpty := by simpa using hne
  rw [resolve_eq lossy ht, listDir_eq lossy ht, List.splitOn_append_cons_self,
    List.splitOn_eq_singleton hslash, lookup_append]
  cases hlook : lookup lossy (rootNode tree) (d.splitOn '/') with
  | error e =>
    constructor
    · intro h
      cases h
    · rintro ⟨es, hes, -⟩
      cases hes
  | ok parent =>
    rw [Exec.bind_ok, Exec.bind_ok, lookup_cons, if_neg hempty]
    cases parent with
    | file o l =>
      constructor
      · intro h
        cases h
      · rintro ⟨es, hes, -⟩
        cases hes
    | dir o l sub =>
      have hfirst := @find_map_toNode lossy sub name
      dsimp only
      simp only [Except.ok.injEq, exists_eq_left']
      cases hfind : sub.find lossy name with
      | none =>
        rw [hfind, Option.map_none, eq_comm, Option.map_eq_none_iff] at hfirst
        simp [hfirst, Except.map, Exec.fail]
      | some child =>
        rw [hfind, Option.map_some, eq_comm, Option.map_eq_some_iff] at hfirst
        obtain ⟨e, he, hchild⟩ := hfirst
        simp only [he, lookup, Except.map, Except.ok.injEq, Option.some.injEq, exists_eq_left',
          hchild]
        exact eq_comm

/-- **Listing and resolution agree.**  Whichever reader mounted the image and however names are
decoded: an entry of a listing whose name is not empty, contains no `/` and is that of no earlier
entry is what its name resolves to in the directory; whatever a name without a `/` resolves to is
the first entry that is listed under it; and what a path resolves to below another one depends on
what that one resolves to only. -/
theorem listing_agrees (lossy : List UInt8 → List Char) (r : Reader) (img : List UInt8) (fs : Fs)
    (h : r.run img = .ok fs) :
    (∀ d es, fs.listDir lossy d = .ok es → ∀ (i : ℕ) (hi : i < es.length), es[i].name ≠ [] →
      '/' ∉ es[i].name → (∀ j (hj : j < i), es[j].name ≠ es[i].name) →
        fs.resolve lossy (d ++ '/' :: es[i].name) = .ok es[i].node) ∧
    (∀ d n node, n ≠ [] → '/' ∉ n → fs.resolve lossy (d ++ '/' :: n) = .ok node →
      ∃ es, fs.listDir lossy d = .ok es ∧
        ∃ e, es.find? (fun e => e.name = n) = some e ∧ node = e.node) ∧
    ∀ p p' q, fs.resolve lossy p = fs.resolve lossy p' →
      fs.resolve lossy (p ++ '/' :: q) = fs.resolve lossy (p' ++ '/' :: q) := by
  rw [Reader.run_eq, mountInner_eq_ok_iff] at h
  obtain ⟨-, rfl, tree, ht⟩ := h
  refine ⟨fun d es hes i hi hne hslash hfirst => ?_, fun d n node hne hslash hnode => ?_,
    fun p p' q hp => ?_⟩
  · exact (resolve_child_iff ht hne hslash).mpr
      ⟨es, hes, es[i], find?_name_eq_some_iff.mpr ⟨rfl, i, hi, rfl, hfirst⟩, rfl⟩
  · exact (resolve_child_iff ht hne hslash).mp hnode
  · rw [resolve_append, resolve_append, hp]

/-- The file of the sample image is listed first, and so it is found below the root. -/
theorem listing_agrees_sampleImage :
    Fs.resolve asciiName ⟨sampleImage, 1⟩ "//a".toList = .ok (.file 48 2) :=
  (listing_agrees asciiName .mount sampleImage ⟨sampleImage, 1⟩ (by decide)).1 ['/']
    [⟨['a'], 48, 2, false⟩] (by decide) 0 (by decide) (by decide) (by decide)
    fun j hj => absurd hj (Nat.not_lt_zero j)

end ZiranOS
