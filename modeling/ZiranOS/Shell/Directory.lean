import ZiranOS.Shell.Active
import ZiranOS.Shell.LoadRoom

/-!
# The current directory

`cd` moves to directories of the active image only.  `load` replaces the image and keeps the current
directory, which need not exist in the new image.  In a run the current directory exists all the
time exactly if every image that is loaded has it (`directory_exists_iff`).
-/

namespace ZiranOS

open ProgLib

variable {flag : Option (List UInt8)} {lossy : List UInt8 → List Char}

/-- A stream uploads one image at most. -/
lemma Uploads.unique {stream image image' : List UInt8} (h : Uploads flag stream image)
    (h' : Uploads flag stream image') : image = image' := by
  obtain ⟨bytes, hdec, rfl, -⟩ := h
  obtain ⟨bytes', hdec', rfl, -⟩ := h'
  obtain rfl := Except.ok.inj (hdec.decode.symm.trans hdec'.decode)
  rfl

namespace Shell

/-- The current directory is one of the active image, and `ls` without an argument finds it. -/
def HasDirectory (flag : Option (List UInt8)) (lossy : List UInt8 → List Char) (sh : Shell) :
    Prop :=
  IsDirectory flag lossy sh.activeImage sh.cwd ∧
    ∀ sh' reply, sh.cmdLs flag lossy [] = .ok (sh', reply) → ∀ path, reply ≠ .noSuchDirectory path

/-- If the command is a `load`, the image that it brings has the current directory. -/
def KeepsDirectory (flag : Option (List UInt8)) (lossy : List UInt8 → List Char) (sh : Shell)
    (x : ShellInput × Reply) : Prop :=
  parse x.1.line = .load → ∀ image, Uploads flag x.1.stream image →
    IsDirectory flag lossy image sh.cwd

variable {sh sh' : Shell} {x : ShellInput × Reply}

/-- `ls` finds a directory of the active image. -/
lemma hasDirectory_iff :
    sh.HasDirectory flag lossy ↔ IsDirectory flag lossy sh.activeImage sh.cwd := by
  refine and_iff_left_of_imp fun h sh' reply hrun => ?_
  obtain ⟨fs, offset, length, hfs, hnode⟩ := h
  obtain ⟨rfl, ceiling, es, ht, -⟩ := tree_of_mountActive hfs
  obtain ⟨entries, hentries⟩ := isOk_listDir_of_resolve lossy ht hnode
  unfold cmdLs at hrun
  rw [hfs, Exec.attempt_ok, Exec.bind_ok] at hrun
  dsimp only at hrun
  rw [List.isEmpty_nil, if_pos rfl, hentries, Exec.attempt_ok, Exec.bind_ok] at hrun
  obtain ⟨-, rfl⟩ := eq_of_pure hrun
  exact nofun

/-- **A step keeps the current directory in existence** exactly if the image of a load has it. -/
lemma hasDirectory_step (hok : sh.Ok flag) (h : sh.HasDirectory flag lossy)
    (hstep : sh.Steps flag lossy x sh') :
    sh'.HasDirectory flag lossy ↔ sh.KeepsDirectory flag lossy x := by
  rw [hasDirectory_iff] at h ⊢
  unfold KeepsDirectory
  rcases steps_cases hok.mounts hstep with ⟨path, arg, hparse, -, hdir, rfl, -⟩ |
    ⟨image, n, planted, hparse, hup, rfl, -⟩ | ⟨rfl, -, hnot⟩
  · refine iff_of_true hdir fun hload => ?_
    rw [hparse] at hload
    cases hload
  · rw [forall_prop_of_true hparse]
    exact ⟨fun hdir image' hup' => hup.unique hup' ▸ hdir, fun hkeeps => hkeeps image hup⟩
  · exact iff_of_true h fun hload image hup => absurd hup (hnot hload image)

end Shell

/-- **The current directory exists** in every state of a run exactly if every load of the run brings
an image that has it. -/
theorem directory_exists_iff (flag : Option (List UInt8)) (lossy : List UInt8 → List Char)
    {tr : List (Transition Shell (ShellInput × Reply))} {sh : Shell}
    (hrun : Run (Shell.Steps flag lossy) Shell.start tr sh) :
    (Shell.start.HasDirectory flag lossy ∧ ∀ x ∈ tr, x.post.HasDirectory flag lossy) ↔
      ∀ x ∈ tr, x.pre.KeepsDirectory flag lossy x.event := by
  have hstart : Shell.start.HasDirectory flag lossy :=
    Shell.hasDirectory_iff.mpr (isDirectory_root (Shell.ok_start flag).mounts)
  rw [and_iff_right hstart]
  exact hrun.forall_post_iff (I := Shell.Ok flag) (fun _ _ _ h hstep => h.step hstep)
    (fun _ _ _ hok h hstep => Shell.hasDirectory_step hok h hstep) (Shell.ok_start flag) hstart

/-- The image that is loaded after the move to `docs` has that directory, so the current directory
exists all the time. -/
theorem directory_exists_loadDocs :
    (Shell.start.HasDirectory none asciiName ∧
        ∀ x ∈ [moveToDocs, loadDocs], x.post.HasDirectory none asciiName) ∧
      ∀ x ∈ [moveToDocs, loadDocs], x.pre.KeepsDirectory none asciiName x.event := by
  have hdocs : IsDirectory none asciiName docsImage "/docs".toList :=
    ⟨⟨docsImage, 1⟩, 48, 0, by decide +kernel, by decide +kernel⟩
  have huploads : Uploads none (docsText ++ [sentinel]) docsImage :=
    ⟨docsImage, ⟨by decide, by decide +kernel, by decide, by decide⟩, rfl, by decide +kernel⟩
  have hkeeps : ∀ x ∈ [moveToDocs, loadDocs], x.pre.KeepsDirectory none asciiName x.event := by
    intro x hx
    simp only [List.mem_cons, List.not_mem_nil, or_false] at hx
    rcases hx with rfl | rfl
    · exact fun hload => absurd hload (by decide)
    · exact fun _ image himage => huploads.unique himage ▸ hdocs
  exact ⟨(directory_exists_iff none asciiName run_loadDocs).mpr hkeeps, hkeeps⟩

/-- A load of the smallest image, which has no directory but the root. -/
def loadSmallest : Transition Shell (ShellInput × Reply) :=
  ⟨⟨"/docs".toList, none⟩, (⟨"load".toList, smallestStream⟩, .load (.mounted 16) none),
    ⟨"/docs".toList, some smallestImage⟩⟩

/-- After the load the current directory is gone: `ls` does not find it. -/
theorem directory_lost : ∃ tr sh, Run (Shell.Steps none asciiName) Shell.start tr sh ∧
    ¬ sh.HasDirectory none asciiName ∧
    sh.cmdLs none asciiName [] = .ok (sh, .noSuchDirectory "/docs".toList) := by
  have hload : Shell.Steps none asciiName loadSmallest.pre loadSmallest.event
      loadSmallest.post := by
    unfold Shell.Steps
    decide +kernel
  have hls : loadSmallest.post.cmdLs none asciiName [] =
      .ok (loadSmallest.post, .noSuchDirectory "/docs".toList) := by
    decide +kernel
  exact ⟨[moveToDocs, loadSmallest], loadSmallest.post,
    Run.cons steps_moveToDocs (Run.cons hload (Run.nil _)), fun h => h.2 _ _ hls _ rfl, hls⟩

end ZiranOS
