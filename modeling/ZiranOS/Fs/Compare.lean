import ZiranOS.Lib.Compare
import ZiranOS.Fs.Trace

/-!
# The three readers compared

The readers share the validator and differ in its extent ceiling and in one check of the superblock.
A lower ceiling can only stop the validator with `ExtentEscapesData` where it would have gone on
(`validateDir_eqUnless`), and changes nothing where all examined entries end below it
(`validateDirT_eqIf`).
-/

namespace ZiranOS

open ProgLib

variable {image : List UInt8} {c c' : ℕ}

/-! ## A lower ceiling -/

/-- The iteration on one entry under a lower ceiling. -/
lemma validateEntry_eqUnless (hc : c ≤ c') {recurse recurse' : ℕ → ℕ → ℕ → Exec FsError ℕ}
    (h : ∀ o l w, Exec.EqUnless .extentEscapesData (recurse o l w) (recurse' o l w))
    (base hw : ℕ) :
    Exec.EqUnless .extentEscapesData (validateEntry recurse image c base hw)
      (validateEntry recurse' image c' base hw) := by
  unfold validateEntry
  apply Exec.EqUnless.bind_left
  intro _ _
  apply Exec.EqUnless.bind_left
  intro cOff _
  apply Exec.EqUnless.bind_left
  intro _ _
  apply Exec.EqUnless.bind_left
  intro cLen _
  apply Exec.EqUnless.bind_left
  intro cEnd _
  by_cases hlen : cEnd > image.length
  · rw [if_pos hlen, if_pos hlen]
    exact Exec.EqUnless.refl _
  · rw [if_neg hlen, if_neg hlen]
    by_cases hceil : cEnd > c
    · rw [if_pos hceil]
      exact Exec.EqUnless.fail_left _
    · rw [if_neg hceil, if_neg (by omega)]
      apply Exec.EqUnless.bind_left
      intro _ _
      apply Exec.EqUnless.bind_left
      intro kind _
      split_ifs
      · exact Exec.EqUnless.refl _
      · exact h cOff cLen hw
      · exact Exec.EqUnless.refl _

/-- **The validator under a lower ceiling** returns what it returns under the higher one, unless it
reports an extent that escapes. -/
lemma validateDir_eqUnless (hc : c ≤ c') : ∀ frames off len hw depth : ℕ,
    Exec.EqUnless .extentEscapesData (validateDir image c frames off len hw depth)
      (validateDir image c' frames off len hw depth)
  | 0, _, _, _, _ => Exec.EqUnless.refl _
  | frames + 1, off, len, hw, depth => by
    unfold validateDir
    split_ifs
    · exact Exec.EqUnless.refl _
    · exact Exec.EqUnless.refl _
    · exact Exec.EqUnless.refl _
    · apply Exec.EqUnless.bind_left
      intro dirEnd _
      split_ifs
      · exact Exec.EqUnless.refl _
      · refine Exec.EqUnless.foldlM (fun w i => ?_) _ _
        apply Exec.EqUnless.bind_left
        intro _ _
        apply Exec.EqUnless.bind_left
        intro base _
        exact validateEntry_eqUnless hc
          (fun o l w => validateDir_eqUnless hc frames o l w (depth + 1)) base w

/-! ## Examined entries below the lower ceiling -/

/-- A number that could be read. -/
lemma eq_of_readU32Le {off v : ℕ} (h : (readU32Le image off : Exec FsError ℕ) = .ok v) :
    v = u32At image off := by
  unfold readU32Le at h
  simp only [Exec.bind_eq_ok, Exec.pure_eq_ok, Except.ok.injEq] at h
  obtain ⟨b₀, h₀, i₁, hi₁, b₁, h₁, i₂, hi₂, b₂, h₂, i₃, hi₃, b₃, h₃, rfl⟩ := h
  obtain rfl := eq_of_addUsize hi₁
  obtain rfl := eq_of_addUsize hi₂
  obtain rfl := eq_of_addUsize hi₃
  rw [eq_of_getByte h₀, eq_of_getByte h₁, eq_of_getByte h₂, eq_of_getByte h₃]
  rfl

/-- The end of the extent of the entry at `base`. -/
def extentEnd (image : List UInt8) (base : ℕ) : ℕ :=
  u32At image (base + entOffset) + u32At image (base + entLength)

/-- An examined entry ends at or before the ceiling. -/
def EndsBy (image : List UInt8) (c : ℕ) : ValidateEvent → Prop
  | .entry base => extentEnd image base ≤ c
  | _ => True

/-- The iteration on one entry that ends at or before the lower ceiling. -/
lemma validateEntryT_eqIf (hc : c ≤ c') {recurse : ℕ → ℕ → ℕ → ValidateRun ℕ}
    {recurse' : ℕ → ℕ → ℕ → Exec FsError ℕ}
    (h : ∀ o l w, Traced.EqIf (EndsBy image c) (recurse o l w) (recurse' o l w)) (base hw : ℕ) :
    Traced.EqIf (EndsBy image c) (validateEntryT recurse image c' base hw)
      (validateEntry recurse' image c base hw) := by
  unfold validateEntryT validateEntry
  simp only [Traced.lift_bind, bind_assoc]
  apply Traced.EqIf.tell_bind
  intro hend
  apply Traced.EqIf.lift_bind
  intro a ha
  apply Traced.EqIf.lift_bind
  intro cOff hOff
  apply Traced.EqIf.lift_bind
  intro a' ha'
  apply Traced.EqIf.lift_bind
  intro cLen hLen
  apply Traced.EqIf.lift_bind
  intro cEnd hEnd
  -- the extent that was read is the one that ends below the ceiling
  have hle : cEnd ≤ c := by
    obtain rfl := eq_of_addUsize ha
    obtain rfl := eq_of_addUsize ha'
    rw [eq_of_checkedAdd hEnd, eq_of_readU32Le hOff, eq_of_readU32Le hLen]
    exact hend
  by_cases hlen : cEnd > image.length
  · rw [if_pos hlen, if_pos hlen]
    exact Traced.EqIf.lift _
  · rw [if_neg hlen, if_neg hlen, if_neg (by omega), if_neg (by omega)]
    apply Traced.EqIf.lift_bind
    intro _ _
    apply Traced.EqIf.lift_bind
    intro kind _
    split_ifs
    · exact Traced.EqIf.lift _
    · exact h cOff cLen hw
    · exact Traced.EqIf.lift _

/-- **The validator under a lower ceiling** returns what it returns under the higher one, if every
entry that is examined ends at or before the lower ceiling. -/
lemma validateDirT_eqIf (hc : c ≤ c') : ∀ frames off len hw depth : ℕ,
    Traced.EqIf (EndsBy image c) (validateDirT image c' frames off len hw depth)
      (validateDir image c frames off len hw depth)
  | 0, _, _, _, _ => Traced.EqIf.lift _
  | frames + 1, off, len, hw, depth => by
    unfold validateDirT validateDir
    apply Traced.EqIf.tell_bind
    intro _
    split_ifs
    · exact Traced.EqIf.lift _
    · exact Traced.EqIf.lift _
    · exact Traced.EqIf.lift _
    · apply Traced.EqIf.lift_bind
      intro dirEnd _
      split_ifs
      · exact Traced.EqIf.lift _
      · apply Traced.EqIf.tell_bind
        intro _
        refine Traced.EqIf.foldlM (fun w i => ?_) _ _
        simp only [Traced.lift_bind, bind_assoc]
        apply Traced.EqIf.lift_bind
        intro _ _
        apply Traced.EqIf.lift_bind
        intro base _
        exact validateEntryT_eqIf hc
          (fun o l w => validateDirT_eqIf hc frames o l w (depth + 1)) base w

/-! ## The readers -/

/-- The parse of the superblock picks the ceiling, and nothing else depends on it. -/
lemma parseSuperblock_confine (image : List UInt8) (trust : Bool) :
    parseSuperblock image true trust =
      parseSuperblock image false trust >>= fun p => pure (dataEnd image, p.2) := by
  by_cases h : superblockLen ≤ image.length
  · rw [parseSuperblock_eq h, parseSuperblock_eq h]
    split_ifs <;> rfl
  · unfold parseSuperblock
    rw [if_pos (not_le.mp h), if_pos (not_le.mp h)]
    rfl

/-- A mount without a ceiling, part by part. -/
lemma mountInner_loose (image : List UInt8) (trust : Bool) :
    mountInner image false trust = parseSuperblock image false trust >>= fun p =>
      validateDir image p.1 validateFrames superblockLen p.2.2 superblockLen 0 >>= fun _ =>
        pure ⟨image, p.2.1⟩ := rfl

/-- A mount with a ceiling, part by part. -/
lemma mountInner_confine (image : List UInt8) (trust : Bool) :
    mountInner image true trust = parseSuperblock image false trust >>= fun p =>
      validateDir image (dataEnd image) validateFrames superblockLen p.2.2 superblockLen 0 >>=
        fun _ => pure ⟨image, p.2.1⟩ := by
  unfold mountInner
  rw [parseSuperblock_confine, bind_assoc]
  congr 1

/-- The ceiling of a loose reader is the length of the image, beyond the data region. -/
lemma dataEnd_le_of_parse {trust : Bool} {p : ℕ × ℕ × ℕ}
    (h : parseSuperblock image false trust = .ok p) : dataEnd image ≤ p.1 := by
  obtain ⟨hheader, rfl⟩ := parseSuperblock_eq_ok_iff.mp h
  exact hheader.dataEnd_le

/-- The strict reader compared with the loose one. -/
lemma mount_eqUnless (image : List UInt8) :
    Exec.EqUnless .extentEscapesData (Fs.mount image) (Fs.mountLoose image) := by
  unfold Fs.mount Fs.mountLoose
  rw [mountInner_confine, mountInner_loose]
  apply Exec.EqUnless.bind_left
  intro p hp
  apply Exec.EqUnless.bind
  · exact validateDir_eqUnless (dataEnd_le_of_parse hp) _ _ _ _ _
  · exact fun _ => Exec.EqUnless.refl _

/-- The loose reader with its log compared with the strict one. -/
lemma mountLoose_eqIf (image : List UInt8) :
    Traced.EqIf (EndsBy image (dataEnd image)) (Reader.mountLoose.runT image) (Fs.mount image) := by
  unfold Fs.mount
  rw [mountInner_confine]
  apply Traced.EqIf.lift_bind
  intro p hp
  apply Traced.EqIf.bind
  · exact validateDirT_eqIf (dataEnd_le_of_parse hp) _ _ _ _ _
  · exact fun _ => Traced.EqIf.lift _

/-- The check of the declared size is the only one that trust changes. -/
lemma parseSuperblock_trust (hsize : u32At image 8 = image.length) (confine : Bool) :
    parseSuperblock image confine true = parseSuperblock image confine false := by
  by_cases h : superblockLen ≤ image.length
  · have htrust : ∀ trust, SizeOk image trust := fun trust => by
      cases trust
      · exact hsize
      · exact hsize.le
    rw [parseSuperblock_eq h, parseSuperblock_eq h, if_neg (not_not.mpr (htrust true)),
      if_neg (not_not.mpr (htrust false))]
  · unfold parseSuperblock
    rw [if_pos (not_le.mp h), if_pos (not_le.mp h)]

/-- The reader that trusts the declared size, where it is the length of the image. -/
lemma mountTier2_eq (hsize : u32At image 8 = image.length) :
    Fs.mountTier2 image = Fs.mountLoose image := by
  unfold Fs.mountTier2 Fs.mountLoose
  rw [mountInner_loose, mountInner_loose, parseSuperblock_trust hsize]

/-- An image that the strict reader mounts is mounted by the loose one. -/
lemma mountLoose_of_mount {fs : Fs} (h : Fs.mount image = .ok fs) :
    Fs.mountLoose image = .ok fs := by
  rcases mount_eqUnless image with hfail | heq
  · rw [hfail] at h
    exact absurd h (Exec.fail_ne_ok _ _)
  · rw [← heq, h]

/-- An image that the loose reader mounts is mounted by the trusting one. -/
lemma mountTier2_of_mountLoose {fs : Fs} (h : Fs.mountLoose image = .ok fs) :
    Fs.mountTier2 image = .ok fs := by
  rw [mountTier2_eq (mountInner_eq_ok_iff.mp h).1.size, h]

/-- Two mounted images answer every lookup alike. -/
def Fs.SameView (fs fs' : Fs) : Prop :=
  ∀ (lossy : List UInt8 → List Char) (abs : List Char),
    fs.resolve lossy abs = fs'.resolve lossy abs ∧ fs.listDir lossy abs = fs'.listDir lossy abs ∧
      fs.readPath lossy abs = fs'.readPath lossy abs

/-- Two mounts end alike: with the same error, or with images that answer every lookup alike. -/
def SameResult : Exec FsError Fs → Exec FsError Fs → Prop
  | .ok fs, .ok fs' => fs.SameView fs'
  | .error e, .error e' => e = e'
  | _, _ => False

/-- Equal results. -/
lemma SameResult.of_eq {x y : Exec FsError Fs} (h : x = y) : SameResult x y := by
  subst h
  cases x with
  | ok fs => exact fun _ _ => ⟨rfl, rfl, rfl⟩
  | error e => exact rfl

/-- **The three readers differ only where intended.**  The strict reader and the loose one end alike
unless the strict one reports an extent that escapes, which it does not if the loose one accepts and
all entries it examined end at or before `data_end`; the trusting reader ends like the loose one
where the declared size is the length of the image; and each of the three accepts what the one
before it accepts, with the same view. -/
theorem readers_compared (img : List UInt8) :
    (Fs.mount img ≠ Exec.fail .extentEscapesData →
      SameResult (Fs.mount img) (Fs.mountLoose img)) ∧
    ((Fs.mountLoose img).IsOk →
      (∀ base, ValidateEvent.entry base ∈ (Reader.mountLoose.runT img).log →
        u32At img (base + entOffset) + u32At img (base + entLength) ≤ dataEnd img) →
      (Fs.mount img).IsOk) ∧
    (u32At img 8 = img.length → SameResult (Fs.mountTier2 img) (Fs.mountLoose img)) ∧
    (∀ fs, Fs.mount img = .ok fs → ∃ fs', Fs.mountLoose img = .ok fs' ∧ fs.SameView fs') ∧
    ∀ fs, Fs.mountLoose img = .ok fs → ∃ fs', Fs.mountTier2 img = .ok fs' ∧ fs.SameView fs' := by
  refine ⟨fun hne => ?_, fun hok hends => ?_, fun hsize => ?_, fun fs h => ?_, fun fs h => ?_⟩
  · exact .of_eq ((mount_eqUnless img).resolve_left hne)
  · have heq : (Reader.mountLoose.runT img).out = Fs.mount img := by
      refine mountLoose_eqIf img fun t ht => ?_
      cases t with
      | entry base => exact hends base ht
      | call depth => trivial
      | scan off len => trivial
    rw [Reader.out_runT] at heq
    exact heq ▸ hok
  · exact .of_eq (mountTier2_eq hsize)
  · exact ⟨fs, mountLoose_of_mount h, fun _ _ => ⟨rfl, rfl, rfl⟩⟩
  · exact ⟨fs, mountTier2_of_mountLoose h, fun _ _ => ⟨rfl, rfl, rfl⟩⟩

end ZiranOS
