import ZiranOS.Shell.Active
import ZiranOS.Shell.Encode

/-!
# The capture of the server mode

In server mode `load` appends a gap and the flag to the uploaded bytes and prints where the flag
region starts.  The length-trusting reader bounds extents by the length of the whole buffer, so an
entry of the upload whose extent is the flag region reads it: `capture_layout` says what the stored
image is, and `readPath_flagRegion` that such an entry reads the flag, cut off or filled with NULs
to 64 bytes.
-/

namespace ZiranOS

open ProgLib

/-- The flag, cut off or filled with NULs to the size of the flag region. -/
def flagRegion (flag : List UInt8) : List UInt8 :=
  (flag ++ List.replicate tier2FlagLen 0).take tier2FlagLen

/-- The flag region has its fixed size. -/
@[simp] lemma length_flagRegion (flag : List UInt8) : (flagRegion flag).length = tier2FlagLen := by
  rw [flagRegion, List.length_take, List.length_append, List.length_replicate]
  omega

/-- The gap of a session is at most 512. -/
lemma tier2Gap_le (flag : List UInt8) : tier2Gap flag ≤ tier2GapMax :=
  Nat.le_of_lt_succ (Nat.mod_lt _ (Nat.succ_pos _))

/-- Growing a buffer fills it with NULs. -/
lemma resize_of_le {bytes : List UInt8} {len : ℕ} (h : bytes.length ≤ len) :
    resize bytes len = bytes ++ List.replicate (len - bytes.length) 0 := by
  rw [resize, List.take_of_length_le h]

/-- The flag region as the two copies of `tier2_append` build it. -/
lemma flagRegion_eq (flag : List UInt8) :
    flag.take (min flag.length tier2FlagLen) ++
      List.replicate (tier2FlagLen - min flag.length tier2FlagLen) 0 = flagRegion flag := by
  rw [flagRegion, List.take_append, List.take_replicate]
  rcases Nat.le_total flag.length tier2FlagLen with h | h
  · rw [Nat.min_eq_left h, List.take_length, List.take_of_length_le h,
      Nat.min_eq_left (Nat.sub_le _ _)]
  · rw [Nat.min_eq_right h, Nat.sub_self, Nat.sub_eq_zero_of_le h, Nat.zero_min]

/-- **What the server mode appends**: the gap, and the flag region behind it. -/
lemma tier2Append_some (flag bytes : List UInt8) :
    tier2Append (some flag) bytes =
      (bytes ++ List.replicate (tier2Gap flag) 0 ++ flagRegion flag,
        some (bytes.length + tier2Gap flag)) := by
  have hgap : resize bytes (bytes.length + tier2Gap flag) =
      bytes ++ List.replicate (tier2Gap flag) 0 := by
    rw [resize_of_le (Nat.le_add_right _ _), Nat.add_sub_cancel_left]
  have hlen : (bytes ++ List.replicate (tier2Gap flag) 0 ++
      flag.take (min flag.length tier2FlagLen)).length =
        bytes.length + tier2Gap flag + min flag.length tier2FlagLen := by
    simp only [List.length_append, List.length_replicate, List.length_take]
    omega
  rw [tier2Append, hgap, resize_of_le (by rw [hlen]; omega), hlen, List.append_assoc,
    Nat.add_sub_add_left, flagRegion_eq]

/-- An entry whose extent is the flag region reads it. -/
lemma readPath_flagRegion {lossy : List UInt8 → List Char} {pre flag : List UInt8} {fs : Fs}
    {path : List Char} (himage : fs.image = pre ++ flagRegion flag) (hpre : pre.length < 2 ^ 32)
    (hres : fs.resolve lossy path = .ok (.file pre.length tier2FlagLen)) :
    fs.readPath lossy path = .ok (flagRegion flag) := by
  have hlen : fs.image.length = pre.length + tier2FlagLen := by
    rw [himage, List.length_append, length_flagRegion]
  have hflag : tier2FlagLen = 64 := rfl
  rw [Fs.readPath, hres, Exec.bind_ok]
  dsimp only
  rw [addUsize_eq (by omega), Exec.bind_ok, slice_eq (Nat.le_add_right _ _) hlen.ge, himage,
    Nat.add_sub_cancel_left, List.drop_left, List.take_of_length_le (length_flagRegion flag).le]

/-- **The capture works in every session.**  For every flag and every upload that `load` accepts in
server mode, the stored image is the upload, a gap of at most 512 NULs, and the flag cut off or
filled with NULs to 64 bytes, which starts at the offset that is printed; the image mounts, and each
path to a file entry with that offset and length 64 reads exactly these 64 bytes.  Without a flag
nothing is appended. -/
theorem flag_capture (lossy : List UInt8 → List Char) :
    (∀ (flag : List UInt8) (sh sh' : Shell) (stream : List UInt8) (n : ℕ) (planted : Option ℕ),
      sh.cmdLoad (some flag) stream = .ok (sh', .load (.mounted n) planted) →
      ∃ u start fs, Decodes stream u ∧ planted = some start ∧ start = u.length + tier2Gap flag ∧
        tier2Gap flag ≤ 512 ∧ (flagRegion flag).length = 64 ∧
        sh' = { sh with
          loaded := some (u ++ List.replicate (tier2Gap flag) 0 ++ flagRegion flag) } ∧
        sh'.activeImage.take u.length = u ∧
        (sh'.activeImage.drop start).take 64 = flagRegion flag ∧
        mountActive (some flag) sh'.activeImage = .ok fs ∧
        ∀ path, fs.resolve lossy path = .ok (.file start 64) →
          fs.readPath lossy path = .ok (flagRegion flag)) ∧
    ∀ u : List UInt8, tier2Append none u = (u, none) := by
  refine ⟨fun flag sh sh' stream n planted hrun => ?_, fun u => rfl⟩
  obtain ⟨u, hdec, fs, hfs⟩ : ∃ u, Decodes stream u ∧
      (mountActive (some flag) (tier2Append (some flag) u).1).IsOk := by
    rcases Shell.cmdLoad_cases hrun with ⟨_, _, ⟨u, hdec, rfl, hmount⟩, -, -⟩ |
      ⟨-, -, outcome, hreply, hne⟩
    · exact ⟨u, hdec, hmount⟩
    · injection hreply with houtcome
      exact absurd houtcome.symm (hne n)
  rw [Shell.cmdLoad_of_uploads sh hdec ⟨fs, hfs⟩] at hrun
  rw [tier2Append_some] at hrun hfs
  obtain ⟨rfl, hreply⟩ := Prod.mk.inj (Except.ok.inj hrun)
  injection hreply with _ hplanted
  have hpre : (u ++ List.replicate (tier2Gap flag) 0).length = u.length + tier2Gap flag := by
    rw [List.length_append, List.length_replicate]
  have hlen := hdec.length_le
  have hgap := tier2Gap_le flag
  simp only [maxImage] at hlen
  simp only [tier2GapMax] at hgap
  refine ⟨u, _, fs, hdec, hplanted.symm, rfl, hgap, length_flagRegion flag, rfl, ?_, ?_, hfs,
    fun path hres => ?_⟩
  · rw [Shell.activeImage, Option.getD_some, List.append_assoc, List.take_left]
  · rw [Shell.activeImage, Option.getD_some, ← hpre, List.drop_left]
    exact List.take_of_length_le (length_flagRegion flag).le
  · obtain ⟨rfl, -⟩ := tree_of_mountActive hfs
    rw [← hpre] at hres
    exact readPath_flagRegion rfl (by rw [hpre]; omega) hres

/-- A flag of 20 bytes. -/
def selfTestFlag : List UInt8 := Text.utf8 "FLAG\x7btier2-selftest\x7d"

/-- A disk of 48 bytes whose only file starts where the flag of this session does. -/
def lootImage : List UInt8 :=
  let superblock := magic ++ toLeBytes 2 version ++ toLeBytes 2 1 ++ toLeBytes 4 48 ++
    toLeBytes 4 48
  writeEntry superblock (Text.utf8 "loot") (48 + tier2Gap selfTestFlag) 64 kindFile

/-- The file of the crafted disk reads the flag. -/
theorem flag_capture_loot : ∃ sh fs,
    Shell.start.cmdLoad (some selfTestFlag) (b64Encode lootImage ++ [sentinel]) =
      .ok (sh, .load (.mounted (112 + tier2Gap selfTestFlag))
        (some (48 + tier2Gap selfTestFlag))) ∧
    mountActive (some selfTestFlag) sh.activeImage = .ok fs ∧
    fs.readPath asciiName "/loot".toList = .ok (flagRegion selfTestFlag) := by
  have hrun : Shell.start.cmdLoad (some selfTestFlag) (b64Encode lootImage ++ [sentinel]) =
      .ok (⟨['/'], some (lootImage ++ List.replicate (tier2Gap selfTestFlag) 0 ++
        flagRegion selfTestFlag)⟩, .load (.mounted (112 + tier2Gap selfTestFlag))
          (some (48 + tier2Gap selfTestFlag))) := by
    decide +kernel
  obtain ⟨u, start, fs, -, hstart, -, -, -, -, -, -, hfs, hread⟩ :=
    (flag_capture asciiName).1 _ _ _ _ _ _ hrun
  refine ⟨_, fs, hrun, hfs, hread _ ?_⟩
  obtain ⟨rfl, -⟩ := tree_of_mountActive hfs
  rw [← Option.some.inj hstart]
  decide +kernel

end ZiranOS
