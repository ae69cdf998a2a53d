import ZiranOS.Fs.Trace

/-!
# Lookups refine the directory tree

After a mount the lookups re-read the raw bytes with no check of their own.  This file states what
they mean on the directory tree of the image (`Entries.find`, `lookup`, `Entries.listing`) and
proves that `resolve`, `listDir` and `readPath` compute exactly that: `resolve_eq`, `listDir_eq`
and `readPath_eq`.  In particular they never fault, reach only tables that `validate_dir` scanned,
and under the strict reader only extents below `data_end` (`lookup_total`).
-/

namespace ZiranOS

open ProgLib Entries

variable (lossy : List UInt8 → List Char)

/-! ## Lookups in a tree -/

/-- What a path names in a directory tree: a file extent, or a table with its entries. -/
inductive TreeNode where
  | file (offset length : ℕ)
  | dir (offset length : ℕ) (sub : Entries)

/-- The region of a node. -/
def TreeNode.toNode : TreeNode → Node
  | file offset length => .file offset length
  | dir offset length _ => .dir offset length

/-- The root of the tree of an image. -/
def rootNode (es : Entries) : TreeNode := .dir superblockLen (direntLen * es.count) es

namespace Entries

/-- The first entry whose decoded name is `name`. -/
def find (name : List Char) : Entries → Option TreeNode
  | nil => none
  | file raw offset length rest =>
    if entryName lossy raw = name then some (.file offset length) else rest.find name
  | dir raw offset length sub rest =>
    if entryName lossy raw = name then some (.dir offset length sub) else rest.find name

/-- The entries of a table as `ls` renders them. -/
def listing : Entries → List DirEntry
  | nil => []
  | file raw offset length rest => ⟨entryName lossy raw, offset, length, false⟩ :: rest.listing
  | dir raw offset length _ rest => ⟨entryName lossy raw, offset, length, true⟩ :: rest.listing

/-- A table named somewhere in the tree is one of the extents of the tree. -/
lemma tables_subset_extents (es : Entries) : es.tables ⊆ es.extents := by
  induction es with
  | nil => exact List.Subset.refl _
  | file _ _ _ rest ih => exact List.Subset.trans ih (List.subset_cons_self _ _)
  | dir _ _ _ sub rest ihs ihr =>
    intro t ht
    simp only [tables, extents, List.mem_cons, List.mem_append] at ht ⊢
    rcases ht with rfl | ht | ht
    · exact Or.inl rfl
    · exact Or.inr (Or.inl (ihs ht))
    · exact Or.inr (Or.inr (ihr ht))

end Entries

/-- Descend from a node along path components; empty components are skipped. -/
def lookup : TreeNode → List (List Char) → Exec FsError TreeNode
  | node, [] => .ok node
  | node, comp :: comps =>
    if comp.isEmpty then
      lookup node comps
    else
      match node with
      | .file _ _ => Exec.fail .notADirectory
      | .dir _ _ sub =>
        match sub.find lossy comp with
        | none => Exec.fail .notFound
        | some child => lookup child comps

/-- A lookup along a first component and the rest. -/
lemma lookup_cons (node : TreeNode) (comp : List Char) (comps : List (List Char)) :
    lookup lossy node (comp :: comps) =
      if comp.isEmpty then lookup lossy node comps
      else match node with
        | .file _ _ => Exec.fail .notADirectory
        | .dir _ _ sub =>
          match sub.find lossy comp with
          | none => Exec.fail .notFound
          | some child => lookup lossy child comps := by
  cases node <;> rfl

/-- A descent along a first component and the rest. -/
lemma resolveFrom_cons (fs : Fs) (node : Node) (comp : List Char) (comps : List (List Char)) :
    Fs.resolveFrom lossy fs node (comp :: comps) =
      if comp.isEmpty then Fs.resolveFrom lossy fs node comps
      else match node with
        | .file _ _ => Exec.fail .notADirectory
        | .dir doff dlen => Fs.findChild lossy fs doff dlen comp >>= fun
          | none => Exec.fail .notFound
          | some child => Fs.resolveFrom lossy fs child comps := by
  cases node <;> rfl

/-- A lookup in a tree never faults. -/
lemma noPanic_lookup (node : TreeNode) (comps : List (List Char)) :
    (lookup lossy node comps).NoPanic := by
  induction comps generalizing node with
  | nil => exact Exec.noPanic_ok node
  | cons comp comps ih =>
    rw [lookup_cons]
    split_ifs
    · exact ih node
    · cases node with
      | file o l => exact Exec.noPanic_fail _
      | dir o l sub =>
        cases hfind : sub.find lossy comp with
        | none => simp [hfind]
        | some child => simpa only [hfind] using ih child

/-! ## Where the nodes of a tree lie -/

/-- The node is a file of the tree, or one of its tables with the entries below it. -/
def TreeNode.In (es : Entries) : TreeNode → Prop
  | .file offset length => (offset, length) ∈ es.extents
  | .dir offset length sub =>
    (offset, length) ∈ es.tables ∧ sub.tables ⊆ es.tables ∧ sub.extents ⊆ es.extents

/-- A node of a subtree is a node of the tree. -/
lemma TreeNode.In.mono {es sub : Entries} {node : TreeNode} (h : node.In sub)
    (ht : sub.tables ⊆ es.tables) (hx : sub.extents ⊆ es.extents) : node.In es := by
  cases node with
  | file o l => exact hx h
  | dir o l sub' => exact ⟨ht h.1, List.Subset.trans h.2.1 ht, List.Subset.trans h.2.2 hx⟩

/-- An entry found in a table is a node of its tree. -/
lemma find_in {name : List Char} {es : Entries} {node : TreeNode}
    (h : es.find lossy name = some node) : node.In es := by
  induction es with
  | nil => simp [find] at h
  | file raw o l rest ih =>
    simp only [find] at h
    split_ifs at h with hname
    · obtain rfl := Option.some.inj h
      exact List.mem_cons_self
    · exact (ih h).mono (List.Subset.refl _) (List.subset_cons_self _ _)
  | dir raw o l sub rest ihs ihr =>
    have hsub : sub.tables ⊆ (dir raw o l sub rest).tables ∧
        sub.extents ⊆ (dir raw o l sub rest).extents :=
      ⟨fun t ht => by simp [tables, ht], fun t ht => by simp [extents, ht]⟩
    have hrest : rest.tables ⊆ (dir raw o l sub rest).tables ∧
        rest.extents ⊆ (dir raw o l sub rest).extents :=
      ⟨fun t ht => by simp [tables, ht], fun t ht => by simp [extents, ht]⟩
    simp only [find] at h
    split_ifs at h with hname
    · obtain rfl := Option.some.inj h
      exact ⟨List.mem_cons_self, hsub⟩
    · exact (ihr h).mono hrest.1 hrest.2

/-- A lookup from the root stays at the root or ends at a node of the tree. -/
lemma lookup_in {es : Entries} (comps : List (List Char)) {start node : TreeNode}
    (hstart : start = rootNode es ∨ start.In es) (h : lookup lossy start comps = .ok node) :
    node = rootNode es ∨ node.In es := by
  induction comps generalizing start with
  | nil =>
    obtain rfl := Except.ok.inj h
    exact hstart
  | cons comp comps ih =>
    rw [lookup_cons] at h
    split_ifs at h
    · exact ih hstart h
    · cases start with
      | file o l => exact absurd h (Exec.fail_ne_ok _ _)
      | dir o l sub =>
        have hsub : sub.tables ⊆ es.tables ∧ sub.extents ⊆ es.extents := by
          rcases hstart with heq | hin
          · obtain ⟨-, -, rfl⟩ := TreeNode.dir.inj heq
            exact ⟨List.Subset.refl _, List.Subset.refl _⟩
          · exact hin.2
        cases hfind : sub.find lossy comp with
        | none => simp [hfind] at h
        | some child =>
          simp only [hfind] at h
          exact ih (Or.inr ((find_in lossy hfind).mono hsub.1 hsub.2)) h

/-! ## Reading the tables of a stored tree -/

variable {image : List UInt8}

/-- A directory node whose entries are stored in the image, at offsets the machine can add up. -/
def TreeNode.StoredIn (image : List UInt8) : TreeNode → Prop
  | .file offset length => offset + length < 2 ^ 36
  | .dir offset length sub =>
    offset + length < 2 ^ 36 ∧ length = direntLen * sub.count ∧ Stored image offset sub

/-- The entries of a stored table name stored nodes. -/
lemma find_storedIn {name : List Char} {es : Entries} {node : TreeNode} :
    ∀ {base : ℕ}, Stored image base es → es.find lossy name = some node →
      node.StoredIn image := by
  induction es with
  | nil => simp [find]
  | file raw o l rest ih =>
    rintro base ⟨-, -, rfl, rfl, -, hrest⟩ h
    simp only [find] at h
    split_ifs at h with hname
    · obtain rfl := Option.some.inj h
      have ho := u32At_lt image (base + entOffset)
      have hl := u32At_lt image (base + entLength)
      simp only [TreeNode.StoredIn]
      omega
    · exact ih hrest h
  | dir raw o l sub rest _ ihr =>
    rintro base ⟨-, -, rfl, rfl, -, hlen, hsub, hrest⟩ h
    simp only [find] at h
    split_ifs at h with hname
    · obtain rfl := Option.some.inj h
      have ho := u32At_lt image (base + entOffset)
      have hl := u32At_lt image (base + entLength)
      exact ⟨by omega, hlen, hsub⟩
    · exact ihr hrest h

/-- The name field of a record inside the image is read without a fault. -/
lemma nameAtBase_eq {base : ℕ} (h : base + direntLen ≤ image.length) (hb : base < 2 ^ 36) :
    Fs.nameAtBase lossy image base = .ok (entryName lossy (bytesAt image base nameLen)) := by
  simp only [direntLen] at h
  rw [Fs.nameAtBase, addUsize_eq (by simp only [nameLen]; omega), Exec.bind_ok,
    slice_eq (by omega) (by simp only [nameLen]; omega), Exec.bind_ok, Nat.add_sub_cancel_left]
  rfl

/-- The fields of the entry with index `i` of a table are read without a fault. -/
lemma readDirEntry_eq {off i : ℕ} (h : off + direntLen * i + direntLen ≤ image.length)
    (hb : off + direntLen * i < 2 ^ 36) :
    Fs.readDirEntry lossy image off i = .ok
      ⟨entryName lossy (bytesAt image (off + direntLen * i) nameLen),
        u32At image (off + direntLen * i + entOffset),
        u32At image (off + direntLen * i + entLength),
        u32At image (off + direntLen * i + entKind) == kindDir⟩ := by
  have hbase := recordBase_eq (ε := FsError) (lt_trans hb (by norm_num))
  unfold Fs.readDirEntry
  rw [← bind_assoc, hbase, Exec.bind_ok, nameAtBase_eq lossy h hb, Exec.bind_ok]
  simp only [direntLen] at h hb
  simp only [direntLen, entOffset, entLength, entKind]
  rw [readField_bind (by omega) (by omega), readField_bind (by omega) (by omega),
    readField_bind (by omega) (by omega), Exec.pure_eq_ok]

/-- Searching the entries of a stored table from index `i` on finds what the tree says. -/
lemma findChildIn_eq (name : List Char) : ∀ (es : Entries) (off i : ℕ),
    Stored image (off + direntLen * i) es → off + direntLen * (i + es.count) < 2 ^ 36 →
    Fs.findChildIn lossy image off name (List.range' i es.count) =
      .ok ((es.find lossy name).map TreeNode.toNode) := by
  -- one step of the search on a record inside the image
  have hstep : ∀ (off i : ℕ) (is : List ℕ), off + direntLen * i + direntLen ≤ image.length →
      off + direntLen * i < 2 ^ 36 → Fs.findChildIn lossy image off name (i :: is) =
        if entryName lossy (bytesAt image (off + direntLen * i) nameLen) = name then
          .ok (some (if u32At image (off + direntLen * i + entKind) = kindDir then
              .dir (u32At image (off + direntLen * i + entOffset))
                (u32At image (off + direntLen * i + entLength))
            else .file (u32At image (off + direntLen * i + entOffset))
                (u32At image (off + direntLen * i + entLength))))
        else Fs.findChildIn lossy image off name is := by
    intro off i is h hb
    have hbase := recordBase_eq (ε := FsError) (lt_trans hb (by norm_num))
    rw [Fs.findChildIn, ← bind_assoc, hbase, Exec.bind_ok, nameAtBase_eq lossy h hb, Exec.bind_ok]
    simp only [direntLen] at h hb
    simp only [direntLen, entOffset, entLength, entKind]
    rw [readField_bind (by omega) (by omega), readField_bind (by omega) (by omega),
      readField_bind (by omega) (by omega), Exec.pure_eq_ok]
    rfl
  intro es
  induction es with
  | nil => intro off i _ _; rfl
  | file raw o l rest ih =>
    rintro off i ⟨hin, rfl, rfl, rfl, hkind, hrest⟩ hbig
    simp only [count, direntLen] at hbig
    rw [count, List.range'_succ, hstep off i _ hin (by simp only [direntLen]; omega), find]
    split_ifs with hname hk
    · rw [hkind] at hk
      exact absurd hk (by decide)
    · rfl
    · refine ih off (i + 1) ?_ (by simp only [direntLen]; omega)
      rwa [Nat.mul_add, Nat.mul_one, ← Nat.add_assoc]
  | dir raw o l sub rest _ ihr =>
    rintro off i ⟨hin, rfl, rfl, rfl, hkind, -, -, hrest⟩ hbig
    simp only [count, direntLen] at hbig
    rw [count, List.range'_succ, hstep off i _ hin (by simp only [direntLen]; omega), find]
    split_ifs with hname
    · rfl
    · refine ihr off (i + 1) ?_ (by simp only [direntLen]; omega)
      rwa [Nat.mul_add, Nat.mul_one, ← Nat.add_assoc]

/-- Listing the entries of a stored table from index `i` on gives what the tree says. -/
lemma mapM_readDirEntry_eq : ∀ (es : Entries) (off i : ℕ),
    Stored image (off + direntLen * i) es → off + direntLen * (i + es.count) < 2 ^ 36 →
    (List.range' i es.count).mapM (Fs.readDirEntry lossy image off) = .ok (es.listing lossy) := by
  intro es
  induction es with
  | nil => intro off i _ _; rfl
  | file raw o l rest ih =>
    rintro off i ⟨hin, rfl, rfl, rfl, hkind, hrest⟩ hbig
    simp only [count, direntLen] at hbig
    have hih := ih off (i + 1) (by rwa [Nat.mul_add, Nat.mul_one, ← Nat.add_assoc])
      (by simp only [direntLen]; omega)
    rw [count, List.range'_succ, List.mapM_cons,
      readDirEntry_eq lossy hin (by simp only [direntLen]; omega), Exec.bind_ok, hih, Exec.bind_ok,
      hkind]
    rfl
  | dir raw o l sub rest _ ihr =>
    rintro off i ⟨hin, rfl, rfl, rfl, hkind, -, -, hrest⟩ hbig
    simp only [count, direntLen] at hbig
    have hih := ihr off (i + 1) (by rwa [Nat.mul_add, Nat.mul_one, ← Nat.add_assoc])
      (by simp only [direntLen]; omega)
    rw [count, List.range'_succ, List.mapM_cons,
      readDirEntry_eq lossy hin (by simp only [direntLen]; omega), Exec.bind_ok, hih, Exec.bind_ok,
      hkind]
    rfl

/-! ## The lookups of a mounted image -/

/-- Descending from a stored node computes the lookup in its tree. -/
lemma resolveFrom_eq (fc : ℕ) (comps : List (List Char)) : ∀ node : TreeNode,
    node.StoredIn image →
    Fs.resolveFrom lossy ⟨image, fc⟩ node.toNode comps =
      (lookup lossy node comps).map TreeNode.toNode := by
  induction comps with
  | nil => intro node _; rfl
  | cons comp comps ih =>
    intro node hst
    rw [resolveFrom_cons, lookup_cons]
    split_ifs with hempty
    · exact ih node hst
    · cases node with
      | file o l => rfl
      | dir o l sub =>
        obtain ⟨hbig, hlen, hsub⟩ := hst
        have hn : l / direntLen = sub.count := by
          simp only [direntLen] at hlen ⊢
          omega
        have hfc : Fs.findChild lossy ⟨image, fc⟩ o l comp =
            .ok ((sub.find lossy comp).map TreeNode.toNode) := by
          rw [Fs.findChild, hn, List.range_eq_range']
          exact findChildIn_eq lossy comp sub o 0 (by simpa using hsub)
            (by rw [Nat.zero_add, ← hlen]; exact hbig)
        simp only [TreeNode.toNode, hfc, Exec.bind_ok]
        cases hfind : sub.find lossy comp with
        | none => rfl
        | some child => exact ih child (find_storedIn lossy hsub hfind)

/-- A lookup from a stored node ends at a stored node. -/
lemma lookup_storedIn (comps : List (List Char)) {start node : TreeNode}
    (hst : start.StoredIn image) (h : lookup lossy start comps = .ok node) :
    node.StoredIn image := by
  induction comps generalizing start with
  | nil =>
    obtain rfl := Except.ok.inj h
    exact hst
  | cons comp comps ih =>
    rw [lookup_cons] at h
    split_ifs at h
    · exact ih hst h
    · cases start with
      | file o l => exact absurd h (Exec.fail_ne_ok _ _)
      | dir o l sub =>
        cases hfind : sub.find lossy comp with
        | none => simp [hfind] at h
        | some child =>
          simp only [hfind] at h
          exact ih (find_storedIn lossy hst.2.2 hfind) h

section Mounted

variable {ceiling : ℕ} {es : Entries}

/-- The root node of a mounted image is stored in it. -/
lemma TreeOk.rootNode_storedIn (ht : TreeOk image ceiling es) :
    (rootNode es).StoredIn image := by
  refine ⟨?_, rfl, ht.stored⟩
  rw [ht.count]
  exact rootEnd_lt image

/-- `resolve` on a mounted image is the lookup of the path's components in its tree. -/
theorem resolve_eq (ht : TreeOk image ceiling es) (abs : List Char) :
    Fs.resolve lossy ⟨image, fileCount image⟩ abs =
      (lookup lossy (rootNode es) (abs.splitOn '/')).map TreeNode.toNode := by
  have hbig := rootEnd_lt image
  simp only [rootEnd, direntLen, superblockLen] at hbig
  rw [Fs.resolve, mulUsize_eq (by simp only [direntLen]; omega), Exec.bind_ok, Nat.mul_comm,
    ← resolveFrom_eq lossy (fileCount image) _ _ ht.rootNode_storedIn, ← ht.count]
  rfl

/-- `list_dir` on a mounted image renders the entries of the table the path names. -/
theorem listDir_eq (ht : TreeOk image ceiling es) (abs : List Char) :
    Fs.listDir lossy ⟨image, fileCount image⟩ abs =
      (lookup lossy (rootNode es) (abs.splitOn '/') >>= fun
        | .file _ _ => Exec.fail .notADirectory
        | .dir _ _ sub => .ok (sub.listing lossy)) := by
  rw [Fs.listDir, resolve_eq lossy ht]
  cases hlook : lookup lossy (rootNode es) (abs.splitOn '/') with
  | error e => rfl
  | ok node =>
    cases node with
    | file o l => rfl
    | dir o l sub =>
      obtain ⟨hbig, hlen, hsub⟩ := lookup_storedIn lossy _ ht.rootNode_storedIn hlook
      have hn : l / direntLen = sub.count := by
        simp only [direntLen] at hlen ⊢
        omega
      simp only [Except.map, Exec.bind_ok, TreeNode.toNode]
      rw [hn, List.range_eq_range']
      exact mapM_readDirEntry_eq lossy sub o 0 (by simpa using hsub)
        (by rw [Nat.zero_add, ← hlen]; exact hbig)

/-- `read_path` on a mounted image returns the bytes of the file extent the path names. -/
theorem readPath_eq (ht : TreeOk image ceiling es) (hc : ceiling ≤ image.length)
    (abs : List Char) :
    Fs.readPath lossy ⟨image, fileCount image⟩ abs =
      (lookup lossy (rootNode es) (abs.splitOn '/') >>= fun
        | .file offset length => .ok (bytesAt image offset length)
        | .dir _ _ _ => Exec.fail .isADirectory) := by
  rw [Fs.readPath, resolve_eq lossy ht]
  cases hlook : lookup lossy (rootNode es) (abs.splitOn '/') with
  | error e => rfl
  | ok node =>
    cases node with
    | dir o l sub => rfl
    | file o l =>
      have hbig : o + l < 2 ^ 36 := lookup_storedIn lossy _ ht.rootNode_storedIn hlook
      have hin : o + l ≤ ceiling := by
        rcases lookup_in lossy _ (Or.inl rfl) hlook with h | h
        · simp [rootNode] at h
        · exact ht.extents _ h
      simp only [Except.map, Exec.bind_ok, TreeNode.toNode]
      rw [addUsize_eq (by omega), Exec.bind_ok, slice_eq (by omega) (by omega),
        Nat.add_sub_cancel_left]
      rfl

/-- Resolving a path in a mounted image never faults. -/
lemma noPanic_resolve (ht : TreeOk image ceiling es) (abs : List Char) :
    (Fs.resolve lossy ⟨image, fileCount image⟩ abs).NoPanic := by
  have hno := noPanic_lookup lossy (rootNode es) (abs.splitOn '/')
  rw [resolve_eq lossy ht]
  cases hlook : lookup lossy (rootNode es) (abs.splitOn '/') with
  | error e => exact fun f hf => hno f (by rw [hlook]; simpa [Except.map] using hf)
  | ok node => exact Exec.noPanic_ok _

/-- Listing a directory of a mounted image never faults. -/
lemma noPanic_listDir (ht : TreeOk image ceiling es) (abs : List Char) :
    (Fs.listDir lossy ⟨image, fileCount image⟩ abs).NoPanic := by
  rw [listDir_eq lossy ht]
  refine (noPanic_lookup lossy (rootNode es) (abs.splitOn '/')).bind fun node _ => ?_
  cases node <;> simp

/-- Reading a file of a mounted image never faults. -/
lemma noPanic_readPath (ht : TreeOk image ceiling es) (hc : ceiling ≤ image.length)
    (abs : List Char) : (Fs.readPath lossy ⟨image, fileCount image⟩ abs).NoPanic := by
  rw [readPath_eq lossy ht hc]
  refine (noPanic_lookup lossy (rootNode es) (abs.splitOn '/')).bind fun node _ => ?_
  cases node <;> simp

/-- A path that resolves to a directory can be listed. -/
lemma isOk_listDir_of_resolve (ht : TreeOk image ceiling es) {abs : List Char} {o l : ℕ}
    (h : Fs.resolve lossy ⟨image, fileCount image⟩ abs = .ok (.dir o l)) :
    (Fs.listDir lossy ⟨image, fileCount image⟩ abs).IsOk := by
  rw [resolve_eq lossy ht] at h
  rw [listDir_eq lossy ht]
  cases hlook : lookup lossy (rootNode es) (abs.splitOn '/') with
  | error e =>
    rw [hlook] at h
    cases h
  | ok node =>
    rw [hlook] at h
    cases node with
    | file o' l' => cases h
    | dir o' l' sub => exact ⟨_, rfl⟩

/-- A resolved region is the root table, or an extent below the ceiling. -/
lemma toNode_bounds (ht : TreeOk image ceiling es) {comps : List (List Char)} {node : TreeNode}
    (h : lookup lossy (rootNode es) comps = .ok node) :
    (∀ o l, node.toNode = .file o l → o + l ≤ ceiling) ∧
      ∀ o l, node.toNode = .dir o l → (o, l) = (superblockLen, direntLen * fileCount image) ∨
        (o, l) ∈ es.tables ∧ o + l ≤ ceiling := by
  rcases lookup_in lossy comps (Or.inl rfl) h with rfl | hin
  · refine ⟨by simp [rootNode, TreeNode.toNode], fun o l hn => Or.inl ?_⟩
    simp only [rootNode, TreeNode.toNode, Node.dir.injEq, ht.count] at hn
    rw [← hn.1, ← hn.2]
  · cases node with
    | file o l =>
      refine ⟨fun o' l' hn => ?_, by simp [TreeNode.toNode]⟩
      obtain ⟨rfl, rfl⟩ := Node.file.inj hn
      exact ht.extents _ hin
    | dir o l sub =>
      refine ⟨by simp [TreeNode.toNode], fun o' l' hn => ?_⟩
      obtain ⟨rfl, rfl⟩ := Node.dir.inj hn
      exact Or.inr ⟨hin.1, ht.extents _ (tables_subset_extents es hin.1)⟩

end Mounted

/-- **Lookups after a mount are total.**  Whichever reader accepted the image, for every path the
three lookups never fault, every directory met on the way along the path's components is a table
that `validate_dir` scanned, and under the strict reader every file, and every directory but the
root, ends at or before `data_end`. -/
theorem lookup_total (r : Reader) (img : List UInt8) (fs : Fs) (h : r.run img = .ok fs)
    (path : List Char) :
    (fs.resolve lossy path).NoPanic ∧ (fs.listDir lossy path).NoPanic ∧
      (fs.readPath lossy path).NoPanic ∧
      (∀ k o l, fs.resolveFrom lossy (.dir superblockLen (direntLen * fs.fileCount))
          ((path.splitOn '/').take k) = .ok (.dir o l) → (o, l) ∈ scans (r.runT img).log) ∧
      (∀ o l, fs.resolve lossy path = .ok (.dir o l) → (o, l) ∈ scans (r.runT img).log) ∧
      (r = .mount → ∀ o l, fs.resolve lossy path = .ok (.file o l) → o + l ≤ dataEnd img) ∧
      (r = .mount → ∀ o l, fs.resolve lossy path = .ok (.dir o l) →
        (o, l) ≠ (superblockLen, direntLen * fs.fileCount) → o + l ≤ dataEnd img) := by
  have hrun := h
  rw [Reader.run_eq, mountInner_eq_ok_iff] at h
  obtain ⟨hh, rfl, es, ht⟩ := h
  have hc := hh.extentCeiling_le r.confine
  have hscans := Reader.scans_runT hrun ht
  -- a directory met while descending is the root table or a table of the tree
  have hmeet : ∀ comps o l, Fs.resolveFrom lossy ⟨img, fileCount img⟩ (rootNode es).toNode comps =
      .ok (.dir o l) → (o, l) ∈ scans (r.runT img).log := by
    intro comps o l hres
    rw [resolveFrom_eq lossy _ _ _ ht.rootNode_storedIn] at hres
    cases hlook : lookup lossy (rootNode es) comps with
    | error e => simp [hlook, Except.map] at hres
    | ok node =>
      simp only [hlook, Except.map, Except.ok.injEq] at hres
      rw [hscans, List.mem_cons]
      exact ((toNode_bounds lossy ht hlook).2 o l hres).imp id And.left
  have hroot : (rootNode es).toNode = .dir superblockLen (direntLen * fileCount img) := by
    rw [← ht.count]
    rfl
  have hpath : Fs.resolve lossy ⟨img, fileCount img⟩ path =
      Fs.resolveFrom lossy ⟨img, fileCount img⟩ (rootNode es).toNode (path.splitOn '/') := by
    rw [resolve_eq lossy ht, resolveFrom_eq lossy _ _ _ ht.rootNode_storedIn]
  refine ⟨noPanic_resolve lossy ht path, noPanic_listDir lossy ht path,
    noPanic_readPath lossy ht hc path, fun k o l hres => ?_, fun o l hres => ?_,
    fun hr o l hres => ?_, fun hr o l hres hne => ?_⟩
  · exact hmeet _ o l (hroot ▸ hres)
  · exact hmeet _ o l (hpath ▸ hres)
  all_goals
    subst hr
    rw [resolve_eq lossy ht] at hres
    cases hlook : lookup lossy (rootNode es) (path.splitOn '/') with
    | error e => simp [hlook, Except.map] at hres
    | ok node =>
      simp only [hlook, Except.map, Except.ok.injEq] at hres
      have hb := toNode_bounds lossy ht hlook
      first
        | exact hb.1 o l hres
        | exact ((hb.2 o l hres).resolve_left hne).2

/-- Names in the sample images are ASCII, which decodes byte by byte. -/
def asciiName (bytes : List UInt8) : List Char := bytes.map fun b => Char.ofNat b.toNat

/-- One file `a` with the two bytes `hi`, the end of the data region, and two bytes after it. -/
def sampleImage : List UInt8 :=
  [0x5A, 0x52, 0x46, 0x53, 3, 0, 1, 0, 52, 0, 0, 0, 50, 0, 0, 0] ++
    0x61 :: List.replicate 19 0 ++ [48, 0, 0, 0, 2, 0, 0, 0, 0, 0, 0, 0] ++ [0x68, 0x69, 0x2A, 0x2A]

/-- The lookups of the file in the sample image. -/
theorem lookup_total_sampleImage :
    Fs.resolve asciiName ⟨sampleImage, 1⟩ ['/', 'a'] = .ok (.file 48 2) ∧
      (Fs.readPath asciiName ⟨sampleImage, 1⟩ ['/', 'a']).NoPanic ∧ 48 + 2 ≤ dataEnd sampleImage :=
  have h := lookup_total asciiName .mount sampleImage ⟨sampleImage, 1⟩ (by decide) ['/', 'a']
  ⟨by decide, h.2.2.1, h.2.2.2.2.2.1 rfl 48 2 (by decide)⟩

end ZiranOS
