import ZiranOS.Fs.Trace
import ZiranOS.Shell.Command
import ZiranOS.Shell.Encode
import ZiranOS.Shell.Growth

/-!
# What `load` delivers

`Uploads flag stream image` says that the stream brings an image that `load` accepts.  A load whose
stream uploads an image stores it, and any other load leaves the state as it was (`cmdLoad_cases`).
The caps of the encoded and of the decoded bytes fit together: an image of the largest size has an
encoding of exactly the largest payload.

`cmdLoad_refines` connects the command to the one that keeps its bytes in blocks of the heap: where
no allocation fails, both report the same and store the same bytes.
-/

namespace ZiranOS

open ProgLib

/-! ## The payload -/

/-- The bytes that are kept. -/
def keptBytes (bytes : List UInt8) : List UInt8 := bytes.filter fun b => !isAsciiWhitespace b

/-- The size of the largest payload. -/
lemma b64Cap_eq : b64Cap = 87384 := by decide

namespace Payload

/-- Reading bytes before the sentinel. -/
lemma read_append {pre : List UInt8} (hpre : sentinel ∉ pre) (p : Payload) (stream : List UInt8) :
    p.read (pre ++ stream) = (pre.foldl add p).read stream := by
  induction pre generalizing p with
  | nil => rfl
  | cons b pre ih =>
    rw [List.mem_cons, not_or] at hpre
    rw [List.cons_append, read, if_neg (Ne.symm hpre.1), ih hpre.2, List.foldl_cons]

/-- A stream without the sentinel is read to its end. -/
lemma read_of_notMem {stream : List UInt8} (h : sentinel ∉ stream) (p : Payload) :
    p.read stream = Exec.fail () := by
  rw [← List.append_nil stream, read_append h]
  rfl

/-- A stream is read up to its first sentinel. -/
lemma read_of_mem {stream : List UInt8} (h : sentinel ∈ stream) (p : Payload) :
    p.read stream = .ok ((stream.takeWhile (· != sentinel)).foldl add p) := by
  obtain ⟨pre, rest, rfl, hpre⟩ := List.eq_append_cons_of_mem h
  rw [read_append hpre, read, if_pos rfl, takeWhile_sentinel hpre]
  rfl

/-- **The cap of the payload** holds after every byte. -/
lemma length_foldl_add (bytes : List UInt8) {p : Payload} (hp : p.bytes.length ≤ b64Cap) :
    (bytes.foldl add p).bytes.length ≤ b64Cap := by
  induction bytes generalizing p with
  | nil => exact hp
  | cons b bytes ih =>
    refine ih ?_
    unfold add
    split_ifs with hws hfull
    · exact hp
    · exact hp
    · rw [List.length_append, List.length_singleton]
      omega

/-- A payload that has overflowed remains so. -/
lemma overflowed_foldl_add (bytes : List UInt8) {p : Payload} (hp : p.overflowed = true) :
    (bytes.foldl add p).overflowed = true := by
  induction bytes generalizing p with
  | nil => exact hp
  | cons b bytes ih =>
    refine ih ?_
    unfold add
    split_ifs
    · exact hp
    · rfl
    · exact hp

/-- White space is not kept. -/
lemma keptBytes_cons_of_pos {b : UInt8} (hb : isAsciiWhitespace b = true) (bytes : List UInt8) :
    keptBytes (b :: bytes) = keptBytes bytes := by
  simp [keptBytes, hb]

/-- Other bytes are kept. -/
lemma keptBytes_cons_of_neg {b : UInt8} (hb : ¬ isAsciiWhitespace b = true) (bytes : List UInt8) :
    keptBytes (b :: bytes) = b :: keptBytes bytes := by
  simp [keptBytes, hb]

/-- **A payload that fits** is what is kept of the bytes. -/
lemma foldl_add_of_le (bytes : List UInt8) {p : Payload}
    (h : p.bytes.length + (keptBytes bytes).length ≤ b64Cap) :
    bytes.foldl add p = ⟨p.bytes ++ keptBytes bytes, p.overflowed⟩ := by
  induction bytes generalizing p with
  | nil => rw [keptBytes, List.filter_nil, List.append_nil, List.foldl_nil]
  | cons b bytes ih =>
    rw [List.foldl_cons, add]
    by_cases hws : isAsciiWhitespace b = true
    · rw [keptBytes_cons_of_pos hws] at h ⊢
      rw [if_pos hws, ih h]
    · rw [keptBytes_cons_of_neg hws, List.length_cons] at h
      have hnext : (p.bytes ++ [b]).length + (keptBytes bytes).length ≤ b64Cap := by
        rw [List.length_append, List.length_singleton]
        omega
      rw [if_neg hws, if_neg (by omega), ih hnext, keptBytes_cons_of_neg hws, List.append_assoc,
        List.singleton_append]

/-- A payload that does not fit overflows. -/
lemma overflowed_of_lt (bytes : List UInt8) {p : Payload} (hp : p.bytes.length ≤ b64Cap)
    (h : b64Cap < p.bytes.length + (keptBytes bytes).length) :
    (bytes.foldl add p).overflowed = true := by
  induction bytes generalizing p with
  | nil =>
    rw [keptBytes, List.filter_nil, List.length_nil] at h
    omega
  | cons b bytes ih =>
    rw [List.foldl_cons, add]
    by_cases hws : isAsciiWhitespace b = true
    · rw [keptBytes_cons_of_pos hws] at h
      rw [if_pos hws]
      exact ih hp h
    · rw [keptBytes_cons_of_neg hws, List.length_cons] at h
      rw [if_neg hws]
      split_ifs with hfull
      · exact overflowed_foldl_add bytes rfl
      · refine ih ?_ ?_
        · rw [List.length_append, List.length_singleton]
          omega
        · rw [List.length_append, List.length_singleton]
          omega

end Payload

/-- What `load` has read when the sentinel arrives. -/
def received (stream : List UInt8) : Payload :=
  (stream.takeWhile (· != sentinel)).foldl Payload.add ⟨[], false⟩

/-- Reading a stream. -/
lemma read_eq_received {stream : List UInt8} (h : sentinel ∈ stream) :
    Payload.read ⟨[], false⟩ stream = .ok (received stream) :=
  Payload.read_of_mem h _

/-- A payload that fits is received as a whole. -/
lemma received_of_le {stream : List UInt8} (h : (payloadOf stream).length ≤ b64Cap) :
    received stream = ⟨payloadOf stream, false⟩ :=
  Payload.foldl_add_of_le _ (p := ⟨[], false⟩) (by rw [List.length_nil, Nat.zero_add]; exact h)

/-- A payload that does not fit is reported as such. -/
lemma overflowed_received {stream : List UInt8} (h : b64Cap < (payloadOf stream).length) :
    (received stream).overflowed = true :=
  Payload.overflowed_of_lt _ (p := ⟨[], false⟩) (Nat.zero_le _)
    (by rw [List.length_nil, Nat.zero_add]; exact h)

/-! ## The command -/

/-- The bytes that the payload of a stream decodes to. -/
structure Decodes (stream bytes : List UInt8) : Prop where
  /-- The stream brings the sentinel. -/
  sentinel_mem : sentinel ∈ stream
  /-- The payload decodes to the bytes. -/
  decode : b64Decode (payloadOf stream) = .ok bytes
  /-- There are some bytes. -/
  pos : 1 ≤ bytes.length
  /-- There are not too many. -/
  length_le : bytes.length ≤ maxImage

/-- The stream brings an image that `load` accepts: the bytes of the payload with what the server
mode appends to them. -/
def Uploads (flag : Option (List UInt8)) (stream image : List UInt8) : Prop :=
  ∃ bytes, Decodes stream bytes ∧ image = (tier2Append flag bytes).1 ∧
    (mountActive flag image).IsOk

/-- The payload of bytes that are not too many fits. -/
lemma Decodes.payload_le {stream bytes : List UInt8} (h : Decodes stream bytes) :
    (payloadOf stream).length ≤ b64Cap := by
  have hdecode := h.decode
  rw [b64Decode] at hdecode
  split_ifs at hdecode with hmod
  obtain ⟨hlow, -⟩ := b64Groups_length hdecode
  have hle := h.length_le
  have hmax : maxImage = 65536 := rfl
  rw [b64Cap_eq]
  omega

/-- A reader does not fault. -/
lemma noPanic_mountActive (flag : Option (List UInt8)) (image : List UInt8) :
    (mountActive flag image).NoPanic := by
  unfold mountActive
  split_ifs
  · exact Reader.noPanic_run .mountTier2 image
  · exact Reader.noPanic_run .mount image

namespace Shell

variable {flag : Option (List UInt8)} {sh sh' : Shell} {stream : List UInt8}

/-- **A stream that uploads an image** replaces the active image by it. -/
lemma cmdLoad_of_uploads {bytes : List UInt8} (sh : Shell) (h : Decodes stream bytes)
    (hmount : (mountActive flag (tier2Append flag bytes).1).IsOk) :
    sh.cmdLoad flag stream = .ok ({ sh with loaded := some (tier2Append flag bytes).1 },
      .load (.mounted (tier2Append flag bytes).1.length) (tier2Append flag bytes).2) := by
  obtain ⟨fs, hfs⟩ := hmount
  have hempty : bytes.isEmpty = false := by
    cases bytes with
    | nil => exact absurd h.pos (by simp)
    | cons b bytes => rfl
  unfold cmdLoad
  rw [read_eq_received h.sentinel_mem, received_of_le h.payload_le, Exec.bind_ok]
  dsimp only
  rw [if_neg Bool.false_ne_true, h.decode]
  dsimp only
  rw [hempty, if_neg Bool.false_ne_true, if_neg (not_lt.mpr h.length_le), hfs, Exec.attempt_ok,
    Exec.bind_ok]
  rfl

/-- **Any other stream** is refused, and the state remains. -/
lemma cmdLoad_of_not_uploads (sh : Shell) (hmem : sentinel ∈ stream)
    (h : ∀ image, ¬ Uploads flag stream image) :
    ∃ outcome, sh.cmdLoad flag stream = .ok (sh, .load outcome none) ∧
      ∀ n, outcome ≠ .mounted n := by
  unfold cmdLoad
  rw [read_eq_received hmem, Exec.bind_ok]
  by_cases hle : (payloadOf stream).length ≤ b64Cap
  · rw [received_of_le hle, if_neg Bool.false_ne_true]
    cases hdecode : b64Decode (payloadOf stream) with
    | error e => exact ⟨_, rfl, nofun⟩
    | ok bytes =>
      dsimp only
      split_ifs with hempty hlarge
      · exact ⟨_, rfl, nofun⟩
      · exact ⟨_, rfl, nofun⟩
      · have hdec : Decodes stream bytes := by
          refine ⟨hmem, hdecode, ?_, not_lt.mp hlarge⟩
          cases bytes with
          | nil => exact absurd rfl hempty
          | cons b bytes => simp
        -- the bytes decode, so that it is the reader that refuses them
        obtain ⟨result, hresult⟩ :=
          (noPanic_mountActive flag (tier2Append flag bytes).1).attempt (δ := Unit)
        rw [hresult, Exec.bind_ok]
        cases result with
        | error e => exact ⟨_, rfl, nofun⟩
        | ok fs => exact absurd ⟨bytes, hdec, rfl, fs, Exec.attempt_eq_ok_ok.mp hresult⟩ (h _)
  · rw [if_pos (overflowed_received (not_le.mp hle))]
    exact ⟨_, rfl, nofun⟩

/-- A load ends when the sentinel arrives. -/
lemma isOk_cmdLoad (flag : Option (List UInt8)) (sh : Shell) (hmem : sentinel ∈ stream) :
    (sh.cmdLoad flag stream).IsOk := by
  by_cases h : ∃ image, Uploads flag stream image
  · obtain ⟨image, bytes, hdec, rfl, hmount⟩ := h
    exact ⟨_, cmdLoad_of_uploads sh hdec hmount⟩
  · obtain ⟨outcome, hrun, -⟩ := cmdLoad_of_not_uploads sh hmem (not_exists.mp h)
    exact ⟨_, hrun⟩

/-- **What a load does**: it stores the image that the stream uploads, or it keeps the state. -/
lemma cmdLoad_cases {reply : Reply} (hrun : sh.cmdLoad flag stream = .ok (sh', reply)) :
    (∃ image planted, Uploads flag stream image ∧ sh' = { sh with loaded := some image } ∧
      reply = .load (.mounted image.length) planted) ∨
    (∀ image, ¬ Uploads flag stream image) ∧ sh' = sh ∧
      ∃ outcome, reply = .load outcome none ∧ ∀ n, outcome ≠ .mounted n := by
  have hmem : sentinel ∈ stream := by
    by_contra hmem
    unfold cmdLoad at hrun
    rw [Payload.read_of_notMem hmem, Exec.bind_fail] at hrun
    exact absurd hrun (Exec.fail_ne_ok _ _)
  by_cases h : ∃ image, Uploads flag stream image
  · obtain ⟨image, bytes, hdec, rfl, hmount⟩ := h
    rw [cmdLoad_of_uploads sh hdec hmount] at hrun
    obtain ⟨rfl, rfl⟩ := Prod.mk.inj (Except.ok.inj hrun)
    exact .inl ⟨_, _, ⟨bytes, hdec, rfl, hmount⟩, rfl, rfl⟩
  · obtain ⟨outcome, hrefused, hne⟩ := cmdLoad_of_not_uploads sh hmem (not_exists.mp h)
    obtain ⟨rfl, rfl⟩ := Prod.mk.inj (Except.ok.inj (hrefused.symm.trans hrun))
    exact .inr ⟨not_exists.mp h, rfl, outcome, rfl, hne⟩

end Shell

/-! ## The command on the heap -/

/-- Moving a vector keeps its bytes. -/
lemma ByteVec.bytes_realloc {h h' : FreeListHeap} {v v' : ByteVec} {cap : ℕ}
    (hrun : v.realloc h cap = .ok (h', v')) : v'.bytes = v.bytes := by
  unfold ByteVec.realloc at hrun
  obtain ⟨x, -, hrun⟩ := Exec.bind_eq_ok.mp hrun
  dsimp only at hrun
  split_ifs at hrun
  · obtain ⟨-, rfl⟩ := Prod.mk.inj (Except.ok.inj hrun)
    rfl
  · obtain ⟨h₁, -, hrun⟩ := Exec.bind_eq_ok.mp hrun
    obtain ⟨-, rfl⟩ := Prod.mk.inj (Except.ok.inj hrun)
    rfl

/-- Appending a byte to a vector. -/
lemma ByteVec.bytes_push {h h' : FreeListHeap} {v v' : ByteVec} {b : UInt8}
    (hrun : v.push h b = .ok (h', v')) : v'.bytes = v.bytes ++ [b] := by
  unfold ByteVec.push at hrun
  dsimp only at hrun
  split_ifs at hrun
  · obtain ⟨x, hgrow, hrun⟩ := Exec.bind_eq_ok.mp hrun
    obtain ⟨-, rfl⟩ := Prod.mk.inj (Except.ok.inj hrun)
    rw [ByteVec.bytes_realloc hgrow]
  · obtain ⟨-, rfl⟩ := Prod.mk.inj (Except.ok.inj hrun)
    rfl

/-- The payload on the heap has the same bytes. -/
lemma readPayload_refines {stream : List UInt8} {h h' : FreeListHeap} {v v' : ByteVec}
    {overflowed overflowed' : Bool}
    (hrun : readPayload h v overflowed stream = .ok (h', v', overflowed')) :
    Payload.read ⟨v.bytes, overflowed⟩ stream = .ok ⟨v'.bytes, overflowed'⟩ := by
  induction stream generalizing h v overflowed with
  | nil => exact absurd hrun (Exec.fail_ne_ok _ _)
  | cons b stream ih =>
    rw [readPayload] at hrun
    rw [Payload.read, Payload.add]
    dsimp only
    split_ifs at hrun ⊢ with hsentinel hws hfull
    · obtain ⟨-, hrest⟩ := Prod.mk.inj (Except.ok.inj hrun)
      obtain ⟨rfl, rfl⟩ := Prod.mk.inj hrest
      rfl
    · exact ih hrun
    · exact ih hrun
    · obtain ⟨x, hpush, hrest⟩ := Exec.bind_eq_ok.mp hrun
      rw [← ByteVec.bytes_push hpush]
      exact ih hrest

/-- The decoded vector has the decoded bytes. -/
lemma b64DecodeVec_refines {input : List UInt8} {h h' : FreeListHeap}
    {result : Except B64Error ByteVec} (hrun : b64DecodeVec h input = .ok (h', result)) :
    b64Decode input = result.map ByteVec.bytes := by
  unfold b64DecodeVec at hrun
  unfold b64Decode
  split_ifs at hrun ⊢ with hmod
  · obtain ⟨-, rfl⟩ := Prod.mk.inj (Except.ok.inj hrun)
    rfl
  · obtain ⟨x, -, hgroups⟩ := Exec.bind_eq_ok.mp hrun
    cases hdecode : b64Groups input with
    | error e =>
      rw [hdecode] at hgroups
      obtain ⟨h₁, -, hresult⟩ := Exec.bind_eq_ok.mp hgroups
      obtain ⟨-, rfl⟩ := Prod.mk.inj (Except.ok.inj hresult)
      rfl
    | ok bytes =>
      rw [hdecode] at hgroups
      obtain ⟨-, rfl⟩ := Prod.mk.inj (Except.ok.inj hgroups)
      rfl

/-- The shell that a state of the command on the heap stands for. -/
def LoadState.toShell (s : LoadState) (cwd : List Char) : Shell :=
  ⟨cwd, s.loaded.map ByteVec.bytes⟩

/-- A command on the heap that gives blocks back and keeps its image. -/
lemma reject_refines {s s' : LoadState} {outcome outcome' : LoadOutcome} {ε : Type}
    {x : Exec LoadStop FreeListHeap} {cwd : List Char}
    (hrun : (x >>= fun heap => pure ({ s with heap := heap }, outcome)) = .ok (s', outcome')) :
    (pure (s.toShell cwd, .load outcome none) : Exec ε (Shell × Reply)) =
      .ok (s'.toShell cwd, .load outcome' none) := by
  obtain ⟨heap, -, hrun⟩ := Exec.bind_eq_ok.mp hrun
  obtain ⟨rfl, rfl⟩ := Prod.mk.inj (Except.ok.inj hrun)
  rfl

/-- **The command on the heap** stores and reports what the command of the shell does. -/
lemma cmdLoad_refines {s s' : LoadState} {stream : List UInt8} {outcome : LoadOutcome}
    (hrun : cmdLoad s stream = .ok (s', outcome)) (cwd : List Char) :
    (s.toShell cwd).cmdLoad none stream = .ok (s'.toShell cwd, .load outcome none) := by
  unfold cmdLoad at hrun
  obtain ⟨x, hread, hrun⟩ := Exec.bind_eq_ok.mp hrun
  have hpayload : Payload.read ⟨[], false⟩ stream = .ok ⟨x.2.1.bytes, x.2.2⟩ :=
    readPayload_refines (v := ByteVec.empty) hread
  unfold Shell.cmdLoad
  rw [hpayload, Exec.bind_ok]
  dsimp only at hrun ⊢
  split_ifs at hrun ⊢ with hover
  · exact reject_refines hrun
  · obtain ⟨y, hvec, hrun⟩ := Exec.bind_eq_ok.mp hrun
    rw [b64DecodeVec_refines hvec]
    obtain ⟨heap, result⟩ := y
    cases result with
    | error e => exact reject_refines hrun
    | ok image =>
      dsimp only [Except.map] at hrun ⊢
      simp only [← bind_assoc] at hrun
      split_ifs at hrun ⊢ with hempty hlarge
      · exact reject_refines hrun
      · exact reject_refines hrun
      · have hmount : mountActive none (tier2Append none image.bytes).1 = Fs.mount image.bytes :=
          rfl
        rw [hmount]
        cases hresult : Fs.mount image.bytes with
        | error a =>
          rw [hresult] at hrun
          cases a with
          | panic f => exact absurd hrun (Exec.panic_ne_ok _ _)
          | fail e => exact reject_refines hrun
        | ok fs =>
          rw [hresult] at hrun
          dsimp only at hrun
          cases hloaded : s.loaded with
          | none =>
            rw [hloaded] at hrun
            obtain ⟨h₁, -, hrun⟩ := Exec.bind_eq_ok.mp hrun
            obtain ⟨rfl, rfl⟩ := Prod.mk.inj (Except.ok.inj hrun)
            rfl
          | some old =>
            rw [hloaded] at hrun
            obtain ⟨h₁, -, hrun⟩ := Exec.bind_eq_ok.mp hrun
            obtain ⟨rfl, rfl⟩ := Prod.mk.inj (Except.ok.inj hrun)
            rfl

/-! ## Exact delivery -/

/-- A symbol is neither the sentinel nor white space. -/
lemma b64Symbol_kept : ∀ v < 64,
    b64Symbol v ≠ sentinel ∧ isAsciiWhitespace (b64Symbol v) = false := by
  decide +kernel

/-- The symbols of encoded bytes are kept and do not end the payload. -/
lemma b64Encode_kept (x : List UInt8) :
    ∀ b ∈ b64Encode x, b ≠ sentinel ∧ isAsciiWhitespace b = false := by
  have hgroup : ∀ chunk, ∀ b ∈ encodeGroup chunk, b ≠ sentinel ∧ isAsciiWhitespace b = false := by
    intro chunk
    have hsextet : ∀ n k, b64Symbol (n >>> k &&& 63) ≠ sentinel ∧
        isAsciiWhitespace (b64Symbol (n >>> k &&& 63)) = false := fun n k => by
      rw [sextet_eq]
      exact b64Symbol_kept _ (Nat.mod_lt _ (by norm_num))
    have hpad : b64Pad ≠ sentinel ∧ isAsciiWhitespace b64Pad = false := by decide
    rw [encodeGroup_eq]
    simp only [List.forall_mem_cons]
    refine ⟨hsextet _ _, hsextet _ _, ?_, ?_, fun b hb => absurd hb List.not_mem_nil⟩
    · split_ifs
      · exact hsextet _ _
      · exact hpad
    · split_ifs
      · exact hsextet _ _
      · exact hpad
  induction x using b64Encode.induct with
  | case1 => exact fun b hb => absurd hb List.not_mem_nil
  | case2 b₀ => exact hgroup [b₀]
  | case3 b₀ b₁ => exact hgroup [b₀, b₁]
  | case4 b₀ b₁ b₂ rest ih =>
    rw [b64Encode, List.forall_mem_append]
    exact ⟨hgroup _, ih⟩

/-- The payload of an encoding with white space in it. -/
lemma payloadOf_interleaved {spaced img rest : List UInt8} (h : keptBytes spaced = b64Encode img) :
    payloadOf (spaced ++ sentinel :: rest) = b64Encode img := by
  have hpre : sentinel ∉ spaced := by
    intro hmem
    have hkept : sentinel ∈ keptBytes spaced := List.mem_filter.mpr ⟨hmem, by decide⟩
    rw [h] at hkept
    exact (b64Encode_kept img _ hkept).1 rfl
  rw [payloadOf, takeWhile_sentinel hpre]
  exact h

/-- **`load` delivers images exactly and atomically.**  In strict mode the encoding of an image of
up to 65536 bytes that mounts, with white space anywhere in it and the sentinel behind it, stores
that image.  For every stream at most 87384 bytes are buffered before the sentinel, and the load
ends when it arrives; a load that does not report a mounted image leaves the state as it was; and an
image that is stored in strict mode has at most 65536 bytes and mounts. -/
theorem load_exact :
    (∀ (sh : Shell) (img spaced rest : List UInt8), 1 ≤ img.length → img.length ≤ 65536 →
      (Fs.mount img).IsOk → (spaced.filter fun b => !isAsciiWhitespace b) = b64Encode img →
      sh.cmdLoad none (spaced ++ sentinel :: rest) =
        .ok ({ sh with loaded := some img }, .load (.mounted img.length) none)) ∧
    (∀ pre rest : List UInt8, sentinel ∉ pre →
      Payload.read ⟨[], false⟩ (pre ++ rest) =
        Payload.read (pre.foldl Payload.add ⟨[], false⟩) rest ∧
      (pre.foldl Payload.add ⟨[], false⟩).bytes.length ≤ 87384) ∧
    (∀ flag (sh : Shell) stream, sentinel ∈ stream →
      ∃ sh' reply, sh.cmdLoad flag stream = .ok (sh', reply)) ∧
    (∀ flag (sh sh' : Shell) stream reply, sh.cmdLoad flag stream = .ok (sh', reply) →
      (∀ n planted, reply ≠ .load (.mounted n) planted) → sh' = sh) ∧
    ∀ (sh sh' : Shell) stream n planted,
      sh.cmdLoad none stream = .ok (sh', .load (.mounted n) planted) →
      ∃ img, sh' = { sh with loaded := some img } ∧ img.length ≤ 65536 ∧
        (Fs.mount img).IsOk := by
  refine ⟨fun sh img spaced rest hpos hle hmount hspaced => ?_, fun pre rest hpre => ⟨?_, ?_⟩,
    fun flag sh stream hmem => ?_, fun flag sh sh' stream reply hrun hreply => ?_,
    fun sh sh' stream n planted hrun => ?_⟩
  · have hdec : Decodes (spaced ++ sentinel :: rest) img := by
      refine ⟨List.mem_append_right _ List.mem_cons_self, ?_, hpos, hle⟩
      rw [payloadOf_interleaved hspaced, b64Decode_b64Encode]
    exact sh.cmdLoad_of_uploads hdec hmount
  · exact Payload.read_append hpre _ rest
  · rw [← b64Cap_eq]
    exact Payload.length_foldl_add pre (Nat.zero_le _)
  · obtain ⟨⟨sh', reply⟩, hrun⟩ := Shell.isOk_cmdLoad flag sh hmem
    exact ⟨sh', reply, hrun⟩
  · rcases Shell.cmdLoad_cases hrun with ⟨image, planted, -, -, rfl⟩ | ⟨-, hkept, -⟩
    · exact absurd rfl (hreply _ _)
    · exact hkept
  · rcases Shell.cmdLoad_cases hrun with ⟨image, planted, hup, rfl, -⟩ |
      ⟨-, -, outcome, hreply, hne⟩
    · obtain ⟨bytes, hdec, rfl, hmount⟩ := hup
      exact ⟨image, rfl, hdec.length_le, hmount⟩
    · injection hreply with houtcome
      exact absurd houtcome.symm (hne n)

/-- An image with one directory, `docs`, that is empty. -/
def docsImage : List UInt8 :=
  [0x5A, 0x52, 0x46, 0x53, 3, 0, 1, 0, 48, 0, 0, 0, 48, 0, 0, 0, 0x64, 0x6F, 0x63, 0x73] ++
    List.replicate 16 0 ++ [48, 0, 0, 0, 0, 0, 0, 0, 1, 0, 0, 0]

/-- Its encoding in two lines, and a blank in the first of them. -/
def docsText : List UInt8 :=
  [0x57, 0x6C, 0x20, 0x4A, 0x47, 0x55, 0x77, 0x4D, 0x41, 0x41, 0x51, 0x41, 0x77, 0x41, 0x41, 0x41,
    0x41, 0x4D, 0x41, 0x41, 0x41, 0x41, 0x47, 0x52, 0x76, 0x59, 0x33, 0x4D, 0x41, 0x41, 0x41, 0x41,
    0x41, 0x0D, 0x0A, 0x41, 0x41, 0x41, 0x41, 0x41, 0x41, 0x41, 0x41, 0x41, 0x41, 0x41, 0x41, 0x41,
    0x41, 0x41, 0x41, 0x4D, 0x41, 0x41, 0x41, 0x41, 0x41, 0x41, 0x41, 0x41, 0x41, 0x41, 0x42, 0x41,
    0x41, 0x41, 0x41, 0x0A]

/-- The text loads the image, and the letter behind the sentinel is not looked at. -/
theorem load_exact_docsText :
    Shell.start.cmdLoad none (docsText ++ sentinel :: [0x78]) =
      .ok ({ Shell.start with loaded := some docsImage }, .load (.mounted 48) none) :=
  load_exact.1 Shell.start docsImage docsText [0x78] (by decide) (by decide) (by decide +kernel)
    (by decide +kernel)

end ZiranOS
