import ZiranOS.Fs.Compare
import ZiranOS.Fs.Lookup
import ZiranOS.Lib.Run
import ZiranOS.Shell.Delivery

/-!
# The active disk

Every command mounts the active image afresh.  The image always mounts, with the reader of the mode
the shell runs in: the boot disk does, and `load` stores an image only after it has mounted it.
`steps_cases` says once what a command can do to the state; the invariants of the shell follow from
it.  Allocations are taken to succeed here; how many loads the heap has room for is the matter of
`Shell/LoadRoom`.
-/

namespace ZiranOS

open ProgLib

variable {flag : Option (List UInt8)} {lossy : List UInt8 → List Char}

/-! ## Mounted images -/

/-- The reader of the mode. -/
lemma mountActive_eq_run (flag : Option (List UInt8)) (image : List UInt8) :
    ∃ r : Reader, mountActive flag image = r.run image := by
  unfold mountActive
  split_ifs
  · exact ⟨.mountTier2, rfl⟩
  · exact ⟨.mount, rfl⟩

/-- An image that mounts has a directory tree. -/
lemma tree_of_mountActive {image : List UInt8} {fs : Fs} (h : mountActive flag image = .ok fs) :
    fs = ⟨image, fileCount image⟩ ∧ ∃ ceiling es, TreeOk image ceiling es ∧
      ceiling ≤ image.length := by
  obtain ⟨r, hr⟩ := mountActive_eq_run flag image
  rw [hr, Reader.run_eq] at h
  obtain ⟨hh, hfs, es, ht⟩ := mountInner_eq_ok_iff.mp h
  exact ⟨hfs, _, es, ht, hh.extentCeiling_le _⟩

/-- The boot disk mounts in both modes. -/
lemma isOk_mountActive_bootImage (flag : Option (List UInt8)) :
    (mountActive flag bootImage).IsOk := by
  obtain ⟨fs, hfs⟩ := isOk_mount_bootImage
  unfold mountActive
  split_ifs
  · exact ⟨fs, mountTier2_of_mountLoose (mountLoose_of_mount hfs)⟩
  · exact ⟨fs, hfs⟩

/-- The path resolves to a directory of the image. -/
def IsDirectory (flag : Option (List UInt8)) (lossy : List UInt8 → List Char)
    (image : List UInt8) (path : List Char) : Prop :=
  ∃ fs offset length, mountActive flag image = .ok fs ∧
    fs.resolve lossy path = .ok (.dir offset length)

/-- The root is a directory of every image that mounts. -/
lemma isDirectory_root {image : List UInt8} (h : (mountActive flag image).IsOk) :
    IsDirectory flag lossy image ['/'] := by
  obtain ⟨fs, hfs⟩ := h
  obtain ⟨rfl, ceiling, es, ht, -⟩ := tree_of_mountActive hfs
  exact ⟨_, superblockLen, direntLen * es.count, hfs, resolve_eq lossy ht ['/']⟩

namespace Shell

variable {sh sh' : Shell} {x : ShellInput × Reply}

/-! ## What a command does -/

/-- A command that keeps the state. -/
lemma eq_of_pure {reply reply' : Reply}
    (h : (pure (sh, reply) : Exec Unit (Shell × Reply)) = .ok (sh', reply')) :
    sh' = sh ∧ reply' = reply := by
  obtain ⟨rfl, rfl⟩ := Prod.mk.inj (Except.ok.inj h)
  exact ⟨rfl, rfl⟩

/-- **`cd`** moves to the root or to the directory that its argument names, or keeps the state. -/
lemma cmdCd_cases {arg : List Char} {reply : Reply}
    (hmount : (mountActive flag sh.activeImage).IsOk)
    (h : sh.cmdCd flag lossy arg = .ok (sh', reply)) :
    (∃ path, Canonical path ∧ IsDirectory flag lossy sh.activeImage path ∧
      sh' = { sh with cwd := path } ∧ reply = .silent) ∨
    sh' = sh ∧ ∀ e, reply ≠ .cannotMount e := by
  unfold cmdCd at h
  split_ifs at h with hempty
  · obtain ⟨rfl, rfl⟩ := Prod.mk.inj (Except.ok.inj h)
    exact .inl ⟨['/'], canonical_root, isDirectory_root hmount, rfl, rfl⟩
  · obtain ⟨fs, hfs⟩ := hmount
    rw [hfs, Exec.attempt_ok, Exec.bind_ok] at h
    obtain ⟨node, hnode, h⟩ := Exec.bind_eq_ok.mp h
    match node with
    | .ok (.dir offset length) =>
      obtain ⟨rfl, rfl⟩ := Prod.mk.inj (Except.ok.inj h)
      exact .inl ⟨_, canonical_canonicalize sh.cwd arg,
        ⟨fs, offset, length, hfs, Exec.attempt_eq_ok_ok.mp hnode⟩, rfl, rfl⟩
    | .ok (.file offset length) =>
      obtain ⟨rfl, rfl⟩ := eq_of_pure h
      exact .inr ⟨rfl, nofun⟩
    | .error e =>
      obtain ⟨rfl, rfl⟩ := eq_of_pure h
      exact .inr ⟨rfl, nofun⟩

/-- `ls` keeps the state, and mounts the image. -/
lemma cmdLs_cases {arg : List Char} {reply : Reply}
    (hmount : (mountActive flag sh.activeImage).IsOk)
    (h : sh.cmdLs flag lossy arg = .ok (sh', reply)) :
    sh' = sh ∧ ∀ e, reply ≠ .cannotMount e := by
  unfold cmdLs at h
  obtain ⟨fs, hfs⟩ := hmount
  rw [hfs, Exec.attempt_ok, Exec.bind_ok] at h
  obtain ⟨entries, -, h⟩ := Exec.bind_eq_ok.mp h
  cases entries with
  | error e =>
    obtain ⟨rfl, rfl⟩ := eq_of_pure h
    exact ⟨rfl, nofun⟩
  | ok entries =>
    obtain ⟨rfl, rfl⟩ := eq_of_pure h
    exact ⟨rfl, nofun⟩

/-- `cat` keeps the state, and mounts the image. -/
lemma cmdCat_cases {arg : List Char} {reply : Reply}
    (hmount : (mountActive flag sh.activeImage).IsOk)
    (h : sh.cmdCat flag lossy arg = .ok (sh', reply)) :
    sh' = sh ∧ ∀ e, reply ≠ .cannotMount e := by
  unfold cmdCat at h
  split_ifs at h with hempty
  · obtain ⟨rfl, rfl⟩ := eq_of_pure h
    exact ⟨rfl, nofun⟩
  · obtain ⟨fs, hfs⟩ := hmount
    rw [hfs, Exec.attempt_ok, Exec.bind_ok] at h
    obtain ⟨bytes, -, h⟩ := Exec.bind_eq_ok.mp h
    split at h
    all_goals
      obtain ⟨rfl, rfl⟩ := eq_of_pure h
      exact ⟨rfl, nofun⟩

/-- **What a step does**: `cd` changes the directory to one of the active image, `load` changes the
image to one that the stream uploads, and everything else keeps the state. -/
lemma steps_cases (hmount : (mountActive flag sh.activeImage).IsOk)
    (h : sh.Steps flag lossy x sh') :
    (∃ path arg, parse x.1.line = .cd arg ∧ Canonical path ∧
      IsDirectory flag lossy sh.activeImage path ∧ sh' = { sh with cwd := path } ∧
      x.2 = .silent) ∨
    (∃ image n planted, parse x.1.line = .load ∧ Uploads flag x.1.stream image ∧
      sh' = { sh with loaded := some image } ∧ x.2 = .load (.mounted n) planted) ∨
    sh' = sh ∧ (∀ e, x.2 ≠ .cannotMount e) ∧
      (parse x.1.line = .load → ∀ image, ¬ Uploads flag x.1.stream image) := by
  obtain ⟨⟨line, stream⟩, reply⟩ := x
  unfold Steps dispatch at h
  dsimp only at h ⊢
  cases hparse : parse line with
  | cd arg =>
    rw [hparse] at h
    rcases cmdCd_cases hmount h with ⟨path, hcan, hdir, hsh, hreply⟩ | ⟨hsh, hreply⟩
    · exact .inl ⟨path, arg, rfl, hcan, hdir, hsh, hreply⟩
    · exact .inr (.inr ⟨hsh, hreply, nofun⟩)
  | load =>
    rw [hparse] at h
    rcases cmdLoad_cases h with ⟨image, planted, hup, hsh, hreply⟩ | ⟨hnot, hsh, outcome, rfl, -⟩
    · exact .inr (.inl ⟨image, _, planted, rfl, hup, hsh, hreply⟩)
    · exact .inr (.inr ⟨hsh, nofun, fun _ => hnot⟩)
  | ls arg =>
    rw [hparse] at h
    obtain ⟨hsh, hreply⟩ := cmdLs_cases hmount h
    exact .inr (.inr ⟨hsh, hreply, nofun⟩)
  | cat arg =>
    rw [hparse] at h
    obtain ⟨hsh, hreply⟩ := cmdCat_cases hmount h
    exact .inr (.inr ⟨hsh, hreply, nofun⟩)
  | _ =>
    rw [hparse] at h
    obtain ⟨rfl, rfl⟩ := eq_of_pure h
    exact .inr (.inr ⟨rfl, nofun, nofun⟩)

/-! ## Every command ends -/

/-- The reader of the mode mounts the active image, and no lookup in it faults. -/
lemma noPanic_lookups (hmount : (mountActive flag sh.activeImage).IsOk) (path : List Char) :
    ∃ fs, mountActive flag sh.activeImage = .ok fs ∧ (fs.resolve lossy path).NoPanic ∧
      (fs.listDir lossy path).NoPanic ∧ (fs.readPath lossy path).NoPanic := by
  obtain ⟨fs, hfs⟩ := hmount
  obtain ⟨rfl, ceiling, es, ht, hc⟩ := tree_of_mountActive hfs
  exact ⟨_, hfs, noPanic_resolve lossy ht path, noPanic_listDir lossy ht path,
    noPanic_readPath lossy ht hc path⟩

/-- `cd` ends. -/
lemma isOk_cmdCd (hmount : (mountActive flag sh.activeImage).IsOk) (arg : List Char) :
    (sh.cmdCd flag lossy arg).IsOk := by
  obtain ⟨fs, hfs, hresolve, -, -⟩ := noPanic_lookups hmount (canonicalize sh.cwd arg)
  unfold cmdCd
  split_ifs with hempty
  · exact ⟨_, rfl⟩
  · rw [hfs, Exec.attempt_ok, Exec.bind_ok]
    refine hresolve.attempt.bind fun node => ?_
    match node with
    | .ok (.dir _ _) => exact ⟨_, rfl⟩
    | .ok (.file _ _) => exact ⟨_, rfl⟩
    | .error _ => exact ⟨_, rfl⟩

/-- `ls` ends. -/
lemma isOk_cmdLs (hmount : (mountActive flag sh.activeImage).IsOk) (arg : List Char) :
    (sh.cmdLs flag lossy arg).IsOk := by
  obtain ⟨fs, hfs, -, hlist, -⟩ :=
    noPanic_lookups hmount (if arg.isEmpty then sh.cwd else canonicalize sh.cwd arg)
  unfold cmdLs
  rw [hfs, Exec.attempt_ok, Exec.bind_ok]
  refine hlist.attempt.bind fun entries => ?_
  cases entries with
  | ok _ => exact ⟨_, rfl⟩
  | error _ => exact ⟨_, rfl⟩

/-- `cat` ends. -/
lemma isOk_cmdCat (hmount : (mountActive flag sh.activeImage).IsOk) (arg : List Char) :
    (sh.cmdCat flag lossy arg).IsOk := by
  obtain ⟨fs, hfs, -, -, hread⟩ := noPanic_lookups hmount (canonicalize sh.cwd arg)
  unfold cmdCat
  split_ifs with hempty
  · exact ⟨_, rfl⟩
  · rw [hfs, Exec.attempt_ok, Exec.bind_ok]
    refine hread.attempt.bind fun bytes => ?_
    split
    all_goals exact ⟨_, rfl⟩

/-- Every command ends if its allocations succeed, `load` when the sentinel arrives. -/
lemma isOk_dispatch (hmount : (mountActive flag sh.activeImage).IsOk) {line : List Char}
    {stream : List UInt8} (hstream : parse line = .load → sentinel ∈ stream) :
    (sh.dispatch flag lossy line stream).IsOk := by
  unfold dispatch
  cases hparse : parse line with
  | cd arg => exact isOk_cmdCd hmount arg
  | ls arg => exact isOk_cmdLs hmount arg
  | cat arg => exact isOk_cmdCat hmount arg
  | load => exact isOk_cmdLoad flag sh (hstream hparse)
  | _ => exact ⟨_, rfl⟩

/-! ## The invariant -/

/-- The active image mounts, and the current directory is a canonical path. -/
structure Ok (flag : Option (List UInt8)) (sh : Shell) : Prop where
  /-- The active image mounts. -/
  mounts : (mountActive flag sh.activeImage).IsOk
  /-- The current directory is canonical. -/
  canonical : Canonical sh.cwd

/-- The shell starts with the boot disk, at its root. -/
lemma ok_start (flag : Option (List UInt8)) : Shell.start.Ok flag :=
  ⟨isOk_mountActive_bootImage flag, canonical_root⟩

/-- A step keeps the invariant. -/
lemma Ok.step (h : sh.Ok flag) (hstep : sh.Steps flag lossy x sh') : sh'.Ok flag := by
  rcases steps_cases h.mounts hstep with ⟨path, arg, -, hcan, -, rfl, -⟩ |
    ⟨image, n, planted, -, hup, rfl, -⟩ | ⟨rfl, -⟩
  · exact ⟨h.mounts, hcan⟩
  · obtain ⟨bytes, -, -, hmount⟩ := hup
    exact ⟨hmount, h.canonical⟩
  · exact h

end Shell

/-- **The active disk always mounts.**  With any flag, after every run of commands the active image
mounts with the reader of the mode, the current directory is a canonical absolute path, and every
further command ends as long as its allocations succeed (`load` when its sentinel arrives).  No
command of a run reports that it cannot mount the image, only a successful `cd` changes the
directory, and only a successful `load` changes the image. -/
theorem active_disk_mounts (flag : Option (List UInt8)) (lossy : List UInt8 → List Char)
    {tr : List (Transition Shell (ShellInput × Reply))} {sh : Shell}
    (hrun : Run (Shell.Steps flag lossy) Shell.start tr sh) :
    (mountActive flag sh.activeImage).IsOk ∧ Canonical sh.cwd ∧
      (∀ line stream, (parse line = .load → sentinel ∈ stream) →
        ∃ sh' reply, sh.dispatch flag lossy line stream = .ok (sh', reply)) ∧
      ∀ x ∈ tr, (∀ e, x.event.2 ≠ .cannotMount e) ∧
        (x.post.cwd ≠ x.pre.cwd → (∃ arg, parse x.event.1.line = .cd arg) ∧
          x.event.2 = .silent) ∧
        (x.post.activeImage ≠ x.pre.activeImage → parse x.event.1.line = .load ∧
          ∃ n planted, x.event.2 = .load (.mounted n) planted) := by
  have hok : sh.Ok flag := hrun.invariant (fun _ _ _ h hstep => h.step hstep) (Shell.ok_start flag)
  refine ⟨hok.mounts, hok.canonical, fun line stream hstream => ?_, fun x hx => ?_⟩
  · obtain ⟨⟨sh', reply⟩, hdispatch⟩ := Shell.isOk_dispatch hok.mounts hstream
    exact ⟨sh', reply, hdispatch⟩
  obtain ⟨hstep, hreach⟩ := hrun.mem hx
  have hpre : x.pre.Ok flag :=
    hreach.invariant (fun _ _ _ h hstep => h.step hstep) (Shell.ok_start flag)
  rcases Shell.steps_cases hpre.mounts hstep with ⟨path, arg, hparse, -, -, hpost, hreply⟩ |
    ⟨image, n, planted, hparse, -, hpost, hreply⟩ | ⟨hpost, hreply, -⟩
  · rw [hpost, hreply]
    exact ⟨nofun, fun _ => ⟨⟨arg, hparse⟩, rfl⟩, fun h => absurd rfl h⟩
  · rw [hpost, hreply]
    exact ⟨nofun, fun h => absurd rfl h, fun _ => ⟨hparse, n, planted, rfl⟩⟩
  · rw [hpost]
    exact ⟨hreply, fun h => absurd rfl h, fun h => absurd rfl h⟩

/-- A move to the directory `docs` of the boot disk. -/
def moveToDocs : Transition Shell (ShellInput × Reply) :=
  ⟨Shell.start, (⟨"cd docs".toList, []⟩, .silent), ⟨"/docs".toList, none⟩⟩

/-- The move to `docs` is a step. -/
lemma steps_moveToDocs :
    Shell.Steps none asciiName moveToDocs.pre moveToDocs.event moveToDocs.post := by
  unfold Shell.Steps
  decide +kernel

/-- A load of the image with the directory `docs`. -/
def loadDocs : Transition Shell (ShellInput × Reply) :=
  ⟨⟨"/docs".toList, none⟩,
    (⟨"load".toList, docsText ++ [sentinel]⟩, .load (.mounted docsImage.length) none),
    ⟨"/docs".toList, some docsImage⟩⟩

/-- The load is a step. -/
lemma steps_loadDocs :
    Shell.Steps none asciiName loadDocs.pre loadDocs.event loadDocs.post := by
  unfold Shell.Steps
  decide +kernel

/-- The run of the move and the load. -/
lemma run_loadDocs :
    Run (Shell.Steps none asciiName) Shell.start [moveToDocs, loadDocs] loadDocs.post :=
  Run.cons steps_moveToDocs (Run.cons steps_loadDocs (Run.nil _))

/-- After the move and the load the loaded image mounts, and `ls` ends. -/
theorem active_disk_mounts_loadDocs :
    (mountActive none docsImage).IsOk ∧ Canonical loadDocs.post.cwd ∧
      (∃ sh' reply, loadDocs.post.dispatch none asciiName "ls".toList [] = .ok (sh', reply)) ∧
      ∀ x ∈ [moveToDocs, loadDocs], ∀ e, x.event.2 ≠ .cannotMount e := by
  obtain ⟨hmounts, hcanonical, hends, hall⟩ := active_disk_mounts none asciiName run_loadDocs
  exact ⟨hmounts, hcanonical, hends "ls".toList [] fun h => absurd h (by decide),
    fun x hx => (hall x hx).1⟩

end ZiranOS
