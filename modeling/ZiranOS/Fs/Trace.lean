import ZiranOS.Lib.Traced
import ZiranOS.Fs.Validate

/-!
# The work of a validation run

`validateDirT` is `validateDir` with a log: every call, every table whose entries are scanned and
every entry that is examined is recorded, also when the run ends in an error.  Its outcome is that
of `validateDir` (`out_validateDirT`), so the log is the log of the real run.

The high-water mark makes the scanned tables disjoint and increasing across the whole run, whatever
the image contains (`TraceOk`), and from this the bounds on the total work follow; an accepting run
is a walk through the directory tree (`Reader.log_runT_ok`), which scans exactly its tables, in
pre-order (`Reader.scans_runT`).
-/

namespace ZiranOS

open ProgLib Entries

/-! ## The instrumented validator -/

/-- What a validation run does, step by step. -/
inductive ValidateEvent where
  /-- `validate_dir` is called at this depth. -/
  | call (depth : ℕ)
  /-- The table `[off, off + len)` passed its checks and its entries are scanned. -/
  | scan (off len : ℕ)
  /-- The entry at `base` is examined. -/
  | entry (base : ℕ)
  deriving DecidableEq, Repr

/-- A validation run with its log. -/
abbrev ValidateRun (α : Type) := Traced ValidateEvent FsError α

/-- `validateEntry` with a log. -/
def validateEntryT (recurse : ℕ → ℕ → ℕ → ValidateRun ℕ) (image : List UInt8)
    (extentCeiling base highWater : ℕ) : ValidateRun ℕ := do
  Traced.tell (.entry base)
  let cOff ← Traced.lift (do readU32Le image (← addUsize base entOffset))
  let cLen ← Traced.lift (do readU32Le image (← addUsize base entLength))
  let cEnd ← Traced.lift (checkedAdd cOff cLen .entryOutOfBounds)
  if cEnd > image.length then
    Traced.lift (Exec.fail .entryOutOfBounds)
  else if cEnd > extentCeiling then
    Traced.lift (Exec.fail .extentEscapesData)
  else do
    let kind ← Traced.lift (do readU32Le image (← addUsize base entKind))
    if kind = kindFile then
      pure highWater
    else if kind = kindDir then
      recurse cOff cLen highWater
    else
      Traced.lift (Exec.fail .badKind)

/-- `validateDir` with a log. -/
def validateDirT (image : List UInt8) (extentCeiling : ℕ) :
    (frames off len highWater depth : ℕ) → ValidateRun ℕ
  | 0, _, _, _, _ => Traced.lift (Exec.panic .stackOverflow)
  | frames + 1, off, len, highWater, depth => do
    Traced.tell (.call depth)
    if depth > maxDepth then
      Traced.lift (Exec.fail .tooDeep)
    else if off < highWater then
      Traced.lift (Exec.fail .dirNotForward)
    else if len % direntLen ≠ 0 then
      Traced.lift (Exec.fail .badDirLength)
    else do
      let dirEnd ← Traced.lift (checkedAdd off len .entryOutOfBounds)
      if dirEnd > image.length then
        Traced.lift (Exec.fail .entryOutOfBounds)
      else do
        Traced.tell (.scan off len)
        (List.range (len / direntLen)).foldlM
          (fun hw i => do
            let base ← Traced.lift (do addUsize off (← mulUsize i direntLen))
            validateEntryT (fun o l h => validateDirT image extentCeiling frames o l h (depth + 1))
              image extentCeiling base hw)
          (max highWater dirEnd)

/-- `mountInner` with the log of its validation run. -/
def mountInnerT (image : List UInt8) (confine trustDeclaredSize : Bool) : ValidateRun Fs := do
  let (ceiling, fileCount, dirBytes) ←
    Traced.lift (parseSuperblock image confine trustDeclaredSize)
  let _ ← validateDirT image ceiling validateFrames superblockLen dirBytes superblockLen 0
  pure ⟨image, fileCount⟩

/-- A mount with the log of its validation run. -/
def Reader.runT (r : Reader) (image : List UInt8) : ValidateRun Fs :=
  mountInnerT image r.confine r.trustDeclaredSize

/-- Logging does not change the outcome of the iteration on one entry. -/
lemma out_validateEntryT {recurseT : ℕ → ℕ → ℕ → ValidateRun ℕ}
    {recurse : ℕ → ℕ → ℕ → Exec FsError ℕ} (h : ∀ o l w, (recurseT o l w).out = recurse o l w)
    (image : List UInt8) (ceiling base hw : ℕ) :
    (validateEntryT recurseT image ceiling base hw).out =
      validateEntry recurse image ceiling base hw := by
  simp only [validateEntryT, validateEntry, Traced.out_bind, Traced.out_tell, Exec.bind_ok,
    Traced.out_lift, apply_ite Traced.out, Traced.out_pure, h, bind_assoc, Exec.pure_eq_ok]

/-- Logging does not change the outcome of a validation run. -/
lemma out_validateDirT (image : List UInt8) (ceiling : ℕ) : ∀ frames off len hw depth : ℕ,
    (validateDirT image ceiling frames off len hw depth).out =
      validateDir image ceiling frames off len hw depth
  | 0, _, _, _, _ => rfl
  | frames + 1, off, len, hw, depth => by
    have hentry : ∀ base hw,
        (validateEntryT (fun o l h => validateDirT image ceiling frames o l h (depth + 1))
          image ceiling base hw).out =
        validateEntry (fun o l h => validateDir image ceiling frames o l h (depth + 1))
          image ceiling base hw :=
      out_validateEntryT (fun o l h => out_validateDirT image ceiling frames o l h (depth + 1))
        image ceiling
    simp only [validateDirT, validateDir, Traced.out_bind, Traced.out_tell, Exec.bind_ok,
      apply_ite Traced.out, Traced.out_lift, Traced.out_foldlM, hentry, bind_assoc]

/-- **The log is that of the real run**: the instrumented mount returns what the reader returns. -/
theorem Reader.out_runT (r : Reader) (image : List UInt8) : (r.runT image).out = r.run image := by
  rw [Reader.run_eq]
  simp only [Reader.runT, mountInnerT, mountInner, Traced.out_bind, Traced.out_lift,
    out_validateDirT, Traced.out_pure, Exec.pure_eq_ok]

/-! ## Reading a log -/

/-- The tables whose entries were scanned, in order. -/
def scans (log : List ValidateEvent) : List (ℕ × ℕ) :=
  log.filterMap fun
    | .scan off len => some (off, len)
    | _ => none

/-- The number of entries examined. -/
def entriesExamined (log : List ValidateEvent) : ℕ :=
  log.countP fun
    | .entry _ => true
    | _ => false

/-- The number of calls of `validate_dir`. -/
def validateCalls (log : List ValidateEvent) : ℕ :=
  log.countP fun
    | .call _ => true
    | _ => false

/-- The number of entries that fit the scanned tables. -/
def scannedRoom (log : List ValidateEvent) : ℕ := ((scans log).map fun t => t.2 / direntLen).sum

section LogLemmas

variable (l l' : List ValidateEvent) (d off len base : ℕ)

@[simp] lemma scans_append : scans (l ++ l') = scans l ++ scans l' := by simp [scans]

@[simp] lemma scans_call : scans (.call d :: l) = scans l := rfl

@[simp] lemma scans_entry : scans (.entry base :: l) = scans l := rfl

@[simp] lemma scans_scan : scans (.scan off len :: l) = (off, len) :: scans l := rfl

@[simp] lemma entriesExamined_append :
    entriesExamined (l ++ l') = entriesExamined l + entriesExamined l' := by
  simp [entriesExamined]

@[simp] lemma validateCalls_append :
    validateCalls (l ++ l') = validateCalls l + validateCalls l' := by simp [validateCalls]

@[simp] lemma scannedRoom_append : scannedRoom (l ++ l') = scannedRoom l + scannedRoom l' := by
  simp [scannedRoom]

end LogLemmas

/-! ## The invariant of a run -/

/-- What every validation run does, whatever the image holds.  The run works on an image of `len`
bytes, is entered with the mark `hw`, scans `own` entries that belong to no table of its log and
makes `calls` calls that belong to no entry of its log. -/
structure TraceOk (len hw own calls : ℕ) (run : ValidateRun ℕ) : Prop where
  /-- No read leaves the image and the stack suffices. -/
  noPanic : run.out.NoPanic
  /-- No call is made below depth `maxDepth + 1`, and scanning only happens above it. -/
  depths : ∀ d, ValidateEvent.call d ∈ run.log → d ≤ maxDepth + 1
  /-- Every scanned table starts at or after the end of each one scanned before. -/
  ordered : Ordered (scans run.log)
  /-- Every scanned table lies between the initial mark and the end of the image. -/
  bounds : ∀ t ∈ scans run.log, hw ≤ t.1 ∧ t.1 + t.2 ≤ len
  /-- An accepting run leaves the mark at or after the end of every scanned table. -/
  water : ∀ hw', run.out = .ok hw' → hw ≤ hw' ∧ ∀ t ∈ scans run.log, t.1 + t.2 ≤ hw'
  /-- Every examined entry fits one of the scanned tables. -/
  work : entriesExamined run.log ≤ own + scannedRoom run.log
  /-- Every call was made for an examined entry. -/
  callsLe : validateCalls run.log ≤ calls + entriesExamined run.log

namespace TraceOk

variable {len hw own own' calls calls' : ℕ}

/-- A run that emits nothing and moves no mark. -/
lemma silent {run : ValidateRun ℕ} (hlog : run.log = []) (hp : run.out.NoPanic)
    (hw' : ∀ h, run.out = .ok h → h = hw) : TraceOk len hw own calls run where
  noPanic := hp
  depths := by simp [hlog]
  ordered := by simp [hlog, scans, Ordered]
  bounds := by simp [hlog, scans]
  water h hh := ⟨(hw' h hh).ge, by simp [hlog, scans]⟩
  work := by simp [hlog, entriesExamined]
  callsLe := by simp [hlog, validateCalls]

/-- Two runs in sequence: the second starts from the mark the first left. -/
lemma bind {x : ValidateRun ℕ} {f : ℕ → ValidateRun ℕ} (hx : TraceOk len hw own calls x)
    (hf : ∀ hw', x.out = .ok hw' → TraceOk len hw' own' calls' (f hw')) :
    TraceOk len hw (own + own') (calls + calls') (x >>= f) := by
  cases hout : x.out with
  | error e =>
    have hlog := Traced.log_bind_error hout f
    have hres : (x >>= f).out = .error e := by rw [Traced.out_bind, hout]; rfl
    refine ⟨?_, hlog ▸ hx.depths, hlog ▸ hx.ordered, hlog ▸ hx.bounds, ?_, ?_, ?_⟩
    · rw [hres, ← hout]
      exact hx.noPanic
    · intro hw' h
      rw [hres] at h
      cases h
    · rw [hlog]
      exact hx.work.trans (by omega)
    · rw [hlog]
      exact hx.callsLe.trans (by omega)
  | ok hw₁ =>
    have hlog := Traced.log_bind_ok hout f
    have hres : (x >>= f).out = (f hw₁).out := by rw [Traced.out_bind, hout]; rfl
    have hf₁ := hf hw₁ hout
    obtain ⟨hmono, hends⟩ := hx.water hw₁ hout
    refine ⟨hres ▸ hf₁.noPanic, ?_, ?_, ?_, ?_, ?_, ?_⟩
    · intro d hd
      rw [hlog, List.mem_append] at hd
      exact hd.elim (hx.depths d) (hf₁.depths d)
    · rw [hlog, scans_append, Ordered, List.pairwise_append]
      exact ⟨hx.ordered, hf₁.ordered, fun t ht u hu => (hends t ht).trans (hf₁.bounds u hu).1⟩
    · intro t ht
      rw [hlog, scans_append, List.mem_append] at ht
      rcases ht with ht | ht
      · exact hx.bounds t ht
      · exact ⟨hmono.trans (hf₁.bounds t ht).1, (hf₁.bounds t ht).2⟩
    · intro hw' h
      rw [hres] at h
      obtain ⟨hmono', hends'⟩ := hf₁.water hw' h
      refine ⟨hmono.trans hmono', fun t ht => ?_⟩
      rw [hlog, scans_append, List.mem_append] at ht
      exact ht.elim (fun ht => (hends t ht).trans hmono') (hends' t)
    · have h1 := hx.work
      have h2 := hf₁.work
      rw [hlog, entriesExamined_append, scannedRoom_append]
      omega
    · have h1 := hx.callsLe
      have h2 := hf₁.callsLe
      rw [hlog, entriesExamined_append, validateCalls_append]
      omega

/-- The event of an entry pays for the entry itself and for the call it may lead to. -/
lemma tell_entry {run : ValidateRun ℕ} (hr : TraceOk len hw 0 1 run) (base : ℕ) :
    TraceOk len hw 1 0 (Traced.tell (.entry base) >>= fun _ => run) := by
  refine ⟨hr.noPanic, ?_, hr.ordered, hr.bounds, hr.water, ?_, ?_⟩
  · intro d hd
    simp only [Traced.log_tell_bind, List.mem_cons, reduceCtorEq, false_or] at hd
    exact hr.depths d hd
  · have := hr.work
    simp only [Traced.log_tell_bind, scannedRoom, scans_entry]
    simp only [entriesExamined, List.countP_cons, scannedRoom] at this ⊢
    simp only [if_true]
    omega
  · have := hr.callsLe
    simp only [Traced.log_tell_bind]
    simp only [entriesExamined, validateCalls, List.countP_cons] at this ⊢
    simp only [if_true, Bool.false_eq_true, if_false]
    omega

/-- The event of a call counts the call. -/
lemma tell_call {run : ValidateRun ℕ} (hr : TraceOk len hw 0 0 run) {depth : ℕ}
    (hdepth : depth ≤ maxDepth + 1) :
    TraceOk len hw 0 1 (Traced.tell (.call depth) >>= fun _ => run) := by
  refine ⟨hr.noPanic, ?_, hr.ordered, hr.bounds, hr.water, ?_, ?_⟩
  · intro d hd
    simp only [Traced.log_tell_bind, List.mem_cons, ValidateEvent.call.injEq] at hd
    rcases hd with rfl | hd
    · exact hdepth
    · exact hr.depths d hd
  · simpa [entriesExamined, scannedRoom] using hr.work
  · have := hr.callsLe
    simp only [Traced.log_tell_bind, entriesExamined, validateCalls, List.countP_cons] at this ⊢
    simp only [if_true, Bool.false_eq_true, if_false]
    omega

/-- The event of a scan makes room for the entries of the table, and moves the mark behind it. -/
lemma tell_scan {run : ValidateRun ℕ} {off tableLen : ℕ}
    (hr : TraceOk len (off + tableLen) (tableLen / direntLen) 0 run) (hlow : hw ≤ off)
    (hend : off + tableLen ≤ len) :
    TraceOk len hw 0 0 (Traced.tell (.scan off tableLen) >>= fun _ => run) := by
  refine ⟨hr.noPanic, ?_, ?_, ?_, ?_, ?_, ?_⟩
  · intro d hd
    simp only [Traced.log_tell_bind, List.mem_cons, reduceCtorEq, false_or] at hd
    exact hr.depths d hd
  · rw [Traced.log_tell_bind, scans_scan, Ordered, List.pairwise_cons]
    exact ⟨fun t ht => (hr.bounds t ht).1, hr.ordered⟩
  · intro t ht
    rw [Traced.log_tell_bind, scans_scan, List.mem_cons] at ht
    rcases ht with rfl | ht
    · exact ⟨hlow, hend⟩
    · exact ⟨le_trans (by omega) (hr.bounds t ht).1, (hr.bounds t ht).2⟩
  · intro hw' hw''
    obtain ⟨hmono, hends⟩ := hr.water hw' hw''
    refine ⟨by omega, fun t ht => ?_⟩
    rw [Traced.log_tell_bind, scans_scan, List.mem_cons] at ht
    rcases ht with rfl | ht
    · exact hmono
    · exact hends t ht
  · have := hr.work
    simp only [Traced.log_tell_bind, entriesExamined, List.countP_cons, Bool.false_eq_true,
      if_false, scannedRoom, scans_scan, List.map_cons, List.sum_cons] at this ⊢
    omega
  · simpa [entriesExamined, validateCalls] using hr.callsLe

/-- A loop of iterations that examine one entry each. -/
lemma foldlM {step : ℕ → ℕ → ValidateRun ℕ} :
    ∀ (l : List ℕ) (hw : ℕ), (∀ i ∈ l, ∀ hw, TraceOk len hw 1 0 (step hw i)) →
      TraceOk len hw l.length 0 (l.foldlM step hw)
  | [], hw, _ => silent rfl (by simp) (by simp [eq_comm])
  | i :: l, hw, h => by
    rw [List.foldlM_cons, List.length_cons, Nat.add_comm]
    exact (h i (by simp) hw).bind fun hw' _ => foldlM l hw' fun j hj => h j (by simp [hj])

end TraceOk

variable {image : List UInt8} {ceiling : ℕ}

/-- Inside the image the instrumented iteration emits its entry and branches on the fields. -/
lemma validateEntryT_eq (recurse : ℕ → ℕ → ℕ → ValidateRun ℕ) {base hw : ℕ}
    (h : base + direntLen ≤ image.length) (hb : base < 2 ^ 36) :
    validateEntryT recurse image ceiling base hw = (do
      Traced.tell (.entry base)
      if u32At image (base + entOffset) + u32At image (base + entLength) > image.length then
        Traced.lift (Exec.fail .entryOutOfBounds)
      else if u32At image (base + entOffset) + u32At image (base + entLength) > ceiling then
        Traced.lift (Exec.fail .extentEscapesData)
      else if u32At image (base + entKind) = kindFile then pure hw
      else if u32At image (base + entKind) = kindDir then
        recurse (u32At image (base + entOffset)) (u32At image (base + entLength)) hw
      else Traced.lift (Exec.fail .badKind)) := by
  have ho := u32At_lt image (base + entOffset)
  have hl := u32At_lt image (base + entLength)
  simp only [direntLen, entOffset, entLength, entKind] at h ho hl ⊢
  simp only [validateEntryT, entOffset, entLength, entKind,
    addUsize_eq (show base + 0x14 < 2 ^ 64 by omega),
    addUsize_eq (show base + 0x18 < 2 ^ 64 by omega),
    addUsize_eq (show base + 0x1C < 2 ^ 64 by omega), Exec.bind_ok,
    readU32Le_eq (show base + 0x14 + 4 ≤ image.length by omega) (by omega),
    readU32Le_eq (show base + 0x18 + 4 ≤ image.length by omega) (by omega),
    readU32Le_eq (show base + 0x1C + 4 ≤ image.length by omega) (by omega),
    checkedAdd_eq (show u32At image (base + 0x14) + u32At image (base + 0x18) < 2 ^ 64 by omega),
    Traced.lift_ok_bind]
  rfl

/-- One iteration keeps the invariant of a run when the nested calls do. -/
lemma traceOk_validateEntryT {recurse : ℕ → ℕ → ℕ → ValidateRun ℕ} {base hw : ℕ}
    (h : base + direntLen ≤ image.length) (hb : base < 2 ^ 36)
    (hrec : ∀ o l hw, o < 2 ^ 32 → l < 2 ^ 32 → TraceOk image.length hw 0 1 (recurse o l hw)) :
    TraceOk image.length hw 1 0 (validateEntryT recurse image ceiling base hw) := by
  rw [validateEntryT_eq recurse h hb]
  refine TraceOk.tell_entry ?_ base
  split_ifs with h1 h2 h3 h4
  · exact .silent rfl (by simp) (by simp)
  · exact .silent rfl (by simp) (by simp)
  · exact .silent rfl (by simp) (by simp [eq_comm])
  · exact hrec _ _ _ (u32At_lt _ _) (u32At_lt _ _)
  · exact .silent rfl (by simp) (by simp)

/-- **Every validation run** is bounded, stays inside the image and scans disjoint tables in
increasing order, whatever bytes it is given. -/
theorem traceOk_validateDirT (image : List UInt8) (ceiling : ℕ) :
    ∀ frames off len hw depth : ℕ, maxDepth + 2 ≤ frames + depth → depth ≤ maxDepth + 1 →
      off + len < 2 ^ 36 →
      TraceOk image.length hw 0 1 (validateDirT image ceiling frames off len hw depth) := by
  intro frames
  induction frames with
  | zero =>
    intro off len hw depth hframes hdepth _
    simp only [maxDepth] at hframes hdepth
    omega
  | succ frames ih =>
    intro off len hw depth hframes hdepth hbig
    rw [validateDirT]
    refine TraceOk.tell_call ?_ hdepth
    split_ifs with hd hfw hlen
    · exact .silent rfl (by simp) (by simp)
    · exact .silent rfl (by simp) (by simp)
    · exact .silent rfl (by simp) (by simp)
    · rw [checkedAdd_eq (by omega), Traced.lift_ok_bind]
      split_ifs with hin
      · exact .silent rfl (by simp) (by simp)
      · have hmark : max hw (off + len) = off + len := by omega
        have hloop : TraceOk image.length (off + len) (List.range (len / direntLen)).length 0
            ((List.range (len / direntLen)).foldlM (fun hw i => do
              let base ← Traced.lift (do addUsize off (← mulUsize i direntLen))
              validateEntryT (fun o l h => validateDirT image ceiling frames o l h (depth + 1))
                image ceiling base hw) (off + len)) := by
          refine TraceOk.foldlM _ _ fun i hi hw => ?_
          rw [List.mem_range] at hi
          simp only [direntLen] at hi hlen
          rw [recordBase_eq (by simp only [direntLen]; omega), Traced.lift_ok_bind]
          refine traceOk_validateEntryT (by simp only [direntLen]; omega)
            (by simp only [direntLen]; omega) fun o l w ho hl => ?_
          exact ih o l w (depth + 1) (by omega) (by omega) (by omega)
        rw [List.length_range] at hloop
        rw [hmark]
        exact hloop.tell_scan (by omega) (by omega)

/-! ## The run of a reader -/

/-- The superblock parse never faults. -/
lemma noPanic_parseSuperblock (image : List UInt8) (confine trust : Bool) :
    (parseSuperblock image confine trust).NoPanic := by
  by_cases h : superblockLen ≤ image.length
  · rw [parseSuperblock_eq h]
    split_ifs <;> simp
  · have : parseSuperblock image confine trust = Exec.fail .truncated := if_pos (by omega)
    simp [this]

/-- The log of a mount is that of the validation of its root table, or empty when the superblock
is rejected. -/
lemma Reader.log_runT (r : Reader) (image : List UInt8) :
    (¬ HeaderOk image r.trustDeclaredSize ∧ (r.runT image).log = []) ∨
      HeaderOk image r.trustDeclaredSize ∧
        (r.runT image).log = (validateDirT image (extentCeiling image r.confine)
          validateFrames superblockLen (direntLen * fileCount image) superblockLen 0).log := by
  cases hparse : parseSuperblock image r.confine r.trustDeclaredSize with
  | error e =>
    refine Or.inl ⟨fun h => ?_, Traced.log_bind_error hparse _⟩
    have hok : parseSuperblock image r.confine r.trustDeclaredSize = .ok _ :=
      parseSuperblock_eq_ok_iff.mpr ⟨h, rfl⟩
    rw [hparse] at hok
    cases hok
  | ok p =>
    obtain ⟨hh, rfl⟩ := parseSuperblock_eq_ok_iff.mp hparse
    refine Or.inr ⟨hh, (Traced.log_bind_ok hparse _).trans ?_⟩
    rw [Traced.log_lift, List.nil_append]
    cases hrun : (validateDirT image (extentCeiling image r.confine) validateFrames
        superblockLen (direntLen * fileCount image) superblockLen 0).out with
    | error e => exact Traced.log_bind_error hrun _
    | ok hw =>
      rw [Traced.log_bind_ok hrun, Traced.log_pure, List.append_nil]

/-- The invariant of a validation run holds of the log of every mount. -/
lemma Reader.traceOk (r : Reader) (image : List UInt8) :
    TraceOk image.length superblockLen 0 1 (validateDirT image (extentCeiling image r.confine)
      validateFrames superblockLen (direntLen * fileCount image) superblockLen 0) :=
  traceOk_validateDirT image _ _ _ _ _ 0 le_rfl (by omega) (rootEnd_lt image)

/-- No reader faults on any image. -/
lemma Reader.noPanic_run (r : Reader) (image : List UInt8) : (r.run image).NoPanic := by
  rw [Reader.run_eq]
  refine (noPanic_parseSuperblock _ _ _).bind fun p hp => ?_
  obtain ⟨-, rfl⟩ := parseSuperblock_eq_ok_iff.mp hp
  have := (r.traceOk image).noPanic
  rw [out_validateDirT] at this
  exact this.bind fun _ _ => by simp

/-- **Bounded validation on hostile input.**  Whatever the bytes of the image, the run of each
reader ends without a fault (no read outside the image, no overflow, stack sufficient), never calls
`validate_dir` below depth 33 where the call only returns `TooDeep`, scans tables that are pairwise
disjoint and in increasing order, examines at most `(len - 16) / 32` entries in all, and makes at
most one more call than it examines entries. -/
theorem reader_run_bounded (r : Reader) (img : List UInt8) :
    (r.runT img).out = r.run img ∧ (r.run img).NoPanic ∧
      (∀ d, ValidateEvent.call d ∈ (r.runT img).log → d ≤ 33) ∧
      (∀ ceiling frames off len hw,
        validateDirT img ceiling (frames + 1) off len hw 33 =
          ⟨[.call 33], Exec.fail .tooDeep⟩) ∧
      (scans (r.runT img).log).Pairwise (fun t u => t.1 ≤ u.1 ∧
        Disjoint (Set.Ico t.1 (t.1 + t.2)) (Set.Ico u.1 (u.1 + u.2))) ∧
      entriesExamined (r.runT img).log ≤ (img.length - 16) / 32 ∧
      validateCalls (r.runT img).log ≤ entriesExamined (r.runT img).log + 1 := by
  have hrun := r.traceOk img
  refine ⟨r.out_runT img, r.noPanic_run img, ?_, fun _ _ _ _ _ => rfl, ?_, ?_, ?_⟩ <;>
    rcases r.log_runT img with ⟨-, hlog⟩ | ⟨hh, hlog⟩ <;> rw [hlog]
  · simp
  · exact hrun.depths
  · exact List.Pairwise.nil
  · exact hrun.ordered.disjoint
  · exact Nat.zero_le _
  · have hwork := hrun.work
    rw [Nat.zero_add] at hwork
    exact hwork.trans (hrun.ordered.room_le hrun.bounds)
  · exact Nat.zero_le _
  · have := hrun.callsLe
    omega

/-! ## What an accepting run does -/

variable {image : List UInt8} {ceiling : ℕ}

/-- What an accepting run does with the entries of a table, whose first record is at the given
address, when the table is validated at the given depth. -/
def Entries.events : ℕ → ℕ → Entries → List ValidateEvent
  | _, _, nil => []
  | depth, base, file _ _ _ rest => .entry base :: rest.events depth (base + direntLen)
  | depth, base, dir _ offset length sub rest =>
    .entry base :: .call (depth + 1) :: .scan offset length ::
      (sub.events (depth + 1) offset ++ rest.events depth (base + direntLen))

/-- The tables scanned below a table are the tables of the tree, in pre-order. -/
lemma scans_events (es : Entries) : ∀ depth base : ℕ, scans (es.events depth base) = es.tables := by
  induction es with
  | nil => exact fun _ _ => rfl
  | file _ _ _ rest ih => exact fun depth base => ih depth (base + direntLen)
  | dir _ o l sub rest ihs ihr =>
    intro depth base
    simp only [Entries.events, scans_entry, scans_call, scans_scan, scans_append, ihs, ihr, tables]

/-- The iteration on the record with index `i` of the table at `off`. -/
def validateRecordT (recurse : ℕ → ℕ → ℕ → ValidateRun ℕ) (image : List UInt8)
    (ceiling off hw i : ℕ) : ValidateRun ℕ := do
  let base ← Traced.lift (do addUsize off (← mulUsize i direntLen))
  validateEntryT recurse image ceiling base hw

/-- An accepting run of the loop does what its first iteration does, and then what the rest of the
loop does. -/
lemma log_foldlM_validateRecordT {recurse : ℕ → ℕ → ℕ → ValidateRun ℕ} {off i n hw : ℕ}
    {rest : List ValidateEvent} (first : List ValidateEvent) (hbig : off + direntLen * i < 2 ^ 36)
    (hone : ∀ hw', (validateEntryT recurse image ceiling (off + direntLen * i) hw).out = .ok hw' →
      (validateEntryT recurse image ceiling (off + direntLen * i) hw).log = first)
    (hrest : ∀ hw',
      ((List.range' (i + 1) n).foldlM (validateRecordT recurse image ceiling off) hw').out.IsOk →
      ((List.range' (i + 1) n).foldlM (validateRecordT recurse image ceiling off) hw').log = rest)
    (hok : ((List.range' i (n + 1)).foldlM
      (validateRecordT recurse image ceiling off) hw).out.IsOk) :
    ((List.range' i (n + 1)).foldlM (validateRecordT recurse image ceiling off) hw).log =
      first ++ rest := by
  have hrecord : validateRecordT recurse image ceiling off hw i =
      validateEntryT recurse image ceiling (off + direntLen * i) hw := by
    rw [validateRecordT, recordBase_eq (lt_trans hbig (by norm_num)), Traced.lift_ok_bind]
  rw [List.range'_succ, List.foldlM_cons, hrecord] at hok ⊢
  obtain ⟨hw'', hok⟩ := hok
  rw [Traced.out_bind, Exec.bind_eq_ok] at hok
  obtain ⟨hw', hstep, hok⟩ := hok
  rw [Traced.log_bind_ok hstep, hone hw' hstep, hrest hw' ⟨hw'', hok⟩]

/-- An accepting run of the loop over a stored tree goes through the entries of the tree, provided
that every nested call scans its own table and goes through the entries below it. -/
lemma log_validateLoopT {recurse : ℕ → ℕ → ℕ → ValidateRun ℕ} {off depth : ℕ}
    (hrec : ∀ o l hw (sub : Entries), o < 2 ^ 32 → l < 2 ^ 32 → l = direntLen * sub.count →
      Stored image o sub → (recurse o l hw).out.IsOk →
      (recurse o l hw).log = .call (depth + 1) :: .scan o l :: sub.events (depth + 1) o) :
    ∀ (es : Entries) (i hw : ℕ), Stored image (off + direntLen * i) es →
      off + direntLen * (i + es.count) < 2 ^ 36 →
      ((List.range' i es.count).foldlM (validateRecordT recurse image ceiling off) hw).out.IsOk →
      ((List.range' i es.count).foldlM (validateRecordT recurse image ceiling off) hw).log =
        es.events depth (off + direntLen * i) := by
  intro es
  induction es with
  | nil => intro i hw _ _ _; rfl
  | file name o l rest ih =>
    rintro i hw ⟨hin, -, rfl, rfl, hkind, hst⟩ hbig hok
    simp only [count, direntLen] at hbig
    have hbase : off + direntLen * i < 2 ^ 36 := by simp only [direntLen]; omega
    -- a file is examined and nothing else happens
    have hfirst : ∀ hw',
        (validateEntryT recurse image ceiling (off + direntLen * i) hw).out = .ok hw' →
        (validateEntryT recurse image ceiling (off + direntLen * i) hw).log =
          [.entry (off + direntLen * i)] := by
      intro hw' hout
      rw [validateEntryT_eq recurse hin hbase] at hout ⊢
      simp only [hkind, if_true] at hout ⊢
      simp only [Traced.log_tell_bind]
      split_ifs <;> rfl
    rw [count, log_foldlM_validateRecordT _ hbase hfirst
      (fun hw' => ih (i + 1) hw' (record_succ off i ▸ hst) (by simp only [direntLen]; omega)) hok,
      record_succ]
    rfl
  | dir name o l sub rest ihs ihr =>
    rintro i hw ⟨hin, -, rfl, rfl, hkind, hl, hsub, hst⟩ hbig hok
    simp only [count, direntLen] at hbig
    have hbase : off + direntLen * i < 2 ^ 36 := by simp only [direntLen]; omega
    -- the entry is examined and the nested call does the rest
    have hfirst : ∀ hw',
        (validateEntryT recurse image ceiling (off + direntLen * i) hw).out = .ok hw' →
        (validateEntryT recurse image ceiling (off + direntLen * i) hw).log =
          .entry (off + direntLen * i) :: .call (depth + 1) ::
            .scan (u32At image (off + direntLen * i + entOffset))
              (u32At image (off + direntLen * i + entLength)) ::
            sub.events (depth + 1) (u32At image (off + direntLen * i + entOffset)) := by
      intro hw' hout
      rw [validateEntryT_eq recurse hin hbase] at hout ⊢
      have hne : ¬ (kindDir = kindFile) := by decide
      simp only [hkind, hne, if_true, if_false] at hout ⊢
      simp only [Traced.log_tell_bind]
      simp only [Traced.out_bind, Traced.out_tell, Exec.bind_ok] at hout
      split_ifs at hout ⊢ with h1 h2
      · cases hout
      · cases hout
      · exact congrArg (List.cons _)
          (hrec _ _ hw sub (u32At_lt _ _) (u32At_lt _ _) hl hsub ⟨hw', hout⟩)
    rw [count, log_foldlM_validateRecordT _ hbase hfirst
      (fun hw' => ihr (i + 1) hw' (record_succ off i ▸ hst) (by simp only [direntLen]; omega)) hok,
      record_succ]
    rfl

/-- An accepting run on a stored table scans that table and goes through its entries. -/
lemma log_validateDirT (image : List UInt8) (ceiling : ℕ) :
    ∀ (frames off len hw depth : ℕ) (es : Entries), off + len < 2 ^ 36 →
      len = direntLen * es.count → Stored image off es →
      (validateDirT image ceiling frames off len hw depth).out.IsOk →
      (validateDirT image ceiling frames off len hw depth).log =
        .call depth :: .scan off len :: es.events depth off := by
  intro frames
  induction frames with
  | zero =>
    rintro off len hw depth es - - - ⟨_, h⟩
    cases h
  | succ frames ih =>
    intro off len hw depth es hbig hlen hst hok
    rw [validateDirT] at hok ⊢
    obtain ⟨hw', hok⟩ := hok
    simp only [Traced.out_bind, Traced.out_tell, Exec.bind_ok] at hok
    simp only [Traced.log_tell_bind]
    rw [checkedAdd_eq (by omega)] at hok ⊢
    simp only [Traced.lift_ok_bind] at hok ⊢
    split_ifs at hok ⊢ with hd hfw hmod hin
    · cases hok
    · cases hok
    · cases hok
    · cases hok
    · have hn : len / direntLen = es.count := by
        simp only [direntLen] at hlen ⊢
        omega
      simp only [Traced.log_tell_bind]
      simp only [Traced.out_bind, Traced.out_tell, Exec.bind_ok] at hok
      rw [hn, List.range_eq_range'] at hok ⊢
      have hloop := log_validateLoopT (fun o l hw sub ho hl hlen' hst' hok' =>
        ih o l hw (depth + 1) sub (by omega) hlen' hst' hok') es 0 _ (by simpa using hst)
        (by rw [Nat.zero_add, ← hlen]; exact hbig) ⟨hw', hok⟩
      rw [Nat.mul_zero, Nat.add_zero] at hloop
      exact congrArg (fun events => .call depth :: .scan off len :: events) hloop

/-- **The log of an accepting mount**: the root table is scanned, and then its directory tree is
gone through. -/
theorem Reader.log_runT_ok {r : Reader} {fs : Fs} {es : Entries} (h : r.run image = .ok fs)
    (hes : TreeOk image (extentCeiling image r.confine) es) :
    (r.runT image).log = .call 0 :: .scan superblockLen (direntLen * fileCount image) ::
      es.events 0 superblockLen := by
  have hok := r.out_runT image
  rw [h] at hok
  simp only [Reader.runT, mountInnerT, Traced.out_bind, Traced.out_lift, Exec.bind_eq_ok] at hok
  obtain ⟨p, hp, hw, hrun, -⟩ := hok
  obtain ⟨hh, rfl⟩ := parseSuperblock_eq_ok_iff.mp hp
  rcases r.log_runT image with ⟨hno, -⟩ | ⟨-, hlog⟩
  · exact absurd hh hno
  · rw [hlog]
    exact log_validateDirT image _ _ _ _ _ _ es (rootEnd_lt image) (by rw [hes.count])
      hes.stored ⟨hw, hrun⟩

/-- **An accepting mount scans exactly the tables of its directory tree**, the root table first. -/
theorem Reader.scans_runT {r : Reader} {fs : Fs} {es : Entries} (h : r.run image = .ok fs)
    (hes : TreeOk image (extentCeiling image r.confine) es) :
    scans (r.runT image).log = (superblockLen, direntLen * fileCount image) :: es.tables := by
  rw [Reader.log_runT_ok h hes, scans_call, scans_scan, scans_events]

end ZiranOS
