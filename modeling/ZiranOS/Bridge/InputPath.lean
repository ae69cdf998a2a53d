import ZiranOS.Lib.Utf8
import ZiranOS.Bridge.Accounting

/-!
# From the client to the guest

Every message of a client is counted.  The one that takes the count over the cap, and everything
after it, is dropped although the socket goes on delivering; what was received before goes to the
control channel or to the guest, whichever the first four bytes say.

`withinCap`, `forwarded` and `examined` say which messages those are, as functions of the list of
all messages received so far.  `Traffic` relates them to the fields of the session, and
`input_path` reads it off at the end of any run of the bridge, with whatever happens to the other
connections in between.
-/

namespace ZiranOS

open ProgLib

/-! ## Messages -/

/-- A message as it crosses the socket. -/
inductive ClientMessage where
  | text (s : List Char)
  | binary (data : List UInt8)
  deriving DecidableEq, Repr

/-- The bytes on the wire. -/
def ClientMessage.data : ClientMessage → List UInt8
  | .text s => Text.encode s
  | .binary data => data

/-- The bytes the handler works on: text is decoded and encoded again. -/
def ClientMessage.buf : ClientMessage → List UInt8
  | .text s => Text.encode (Text.fromUtf8Lossy (Text.encode s))
  | .binary data => data

/-- The handler works on the bytes on the wire. -/
lemma ClientMessage.buf_eq (m : ClientMessage) : m.buf = m.data := by
  cases m with
  | text s => exact congrArg Text.encode (Text.fromUtf8Lossy_encode s)
  | binary data => rfl

/-- The messages before the one that takes the number of bytes over `cap`. -/
def withinCap (cap : ℕ) : List (List UInt8) → List (List UInt8)
  | [] => []
  | m :: ms => if m.length > cap then [] else m :: withinCap (cap - m.length) ms

/-- The messages that are meant for the guest. -/
def forwarded (config : Config) (ms : List (List UInt8)) : List (List UInt8) :=
  (withinCap config.maxInBytes ms).filter fun m => !ctl.isPrefixOf m

/-- What follows the prefix in the control frames that are looked at. -/
def examined (config : Config) (ms : List (List UInt8)) : List (List UInt8) :=
  (((withinCap config.maxInBytes ms).filter ctl.isPrefixOf).take config.submitMax).map
    (List.drop ctl.length)

/-- One more message is within the cap if all of them together are. -/
lemma withinCap_concat (cap : ℕ) (ms : List (List UInt8)) (m : List UInt8) :
    withinCap cap (ms ++ [m]) =
      withinCap cap ms ++ if ms.flatten.length + m.length ≤ cap then [m] else [] := by
  induction ms generalizing cap with
  | nil =>
    rw [List.nil_append, withinCap, withinCap, withinCap]
    by_cases hm : m.length > cap
    · simp [hm]
    · simp [hm, not_lt.mp hm]
  | cons x ms ih =>
    rw [List.cons_append, withinCap, withinCap, List.flatten_cons, List.length_append]
    by_cases hx : x.length > cap
    · rw [if_pos hx, if_pos hx, if_neg (by omega), List.append_nil]
    · rw [if_neg hx, if_neg hx, ih, List.cons_append]
      congr 3
      exact propext (by omega)

/-- One more message is forwarded if it is within the cap and no control frame. -/
lemma forwarded_concat (config : Config) (ms : List (List UInt8)) (m : List UInt8) :
    forwarded config (ms ++ [m]) = forwarded config ms ++
      if ms.flatten.length + m.length ≤ config.maxInBytes ∧ ctl.isPrefixOf m = false then [m]
      else [] := by
  rw [forwarded, withinCap_concat, List.filter_append]
  congr 1
  by_cases hcap : ms.flatten.length + m.length ≤ config.maxInBytes
  · cases hctl : ctl.isPrefixOf m <;> simp only [hcap, hctl, if_true, and_true, Bool.true_eq_false,
      and_false, if_false, List.filter_cons, List.filter_nil, Bool.not_true, Bool.not_false,
      Bool.false_eq_true]
  · rw [if_neg hcap, if_neg (fun hc => hcap hc.1), List.filter_nil]

/-- One more control frame is looked at if it is within both caps. -/
lemma examined_concat (config : Config) (ms : List (List UInt8)) (m : List UInt8) :
    examined config (ms ++ [m]) = examined config ms ++
      if ms.flatten.length + m.length ≤ config.maxInBytes ∧ ctl.isPrefixOf m = true ∧
        (examined config ms).length < config.submitMax then [m.drop ctl.length] else [] := by
  unfold examined
  rw [withinCap_concat, List.filter_append, List.take_append, List.map_append, List.length_map,
    List.length_take]
  congr 1
  by_cases hcap : ms.flatten.length + m.length ≤ config.maxInBytes
  · rw [if_pos hcap]
    by_cases hctl : ctl.isPrefixOf m = true
    · rw [List.filter_cons_of_pos hctl, List.filter_nil]
      by_cases hlt : ((withinCap config.maxInBytes ms).filter ctl.isPrefixOf).length <
          config.submitMax
      · rw [if_pos ⟨hcap, hctl, by omega⟩, List.take_of_length_le
          (by rw [List.length_singleton]; omega)]
        rfl
      · rw [if_neg (by omega), Nat.sub_eq_zero_of_le (not_lt.mp hlt)]
        rfl
    · rw [List.filter_cons_of_neg hctl, if_neg (fun hc => hctl hc.2.1)]
      simp
  · rw [if_neg hcap, if_neg (fun hc => hcap hc.1)]
    simp

/-- The answer that a submission gets. -/
def verdict (host : Host) (config : Config) (flagHash : List UInt8) (json : List UInt8) :
    Option Verdict :=
  (host.parseSubmit json).map fun flag =>
    if host.sha256 (host.trim flag) = flagHash then .correct
    else if config.honeytoken ≠ [] ∧
        host.sha256 (host.trim flag) = host.sha256 config.honeytoken then .honeytoken
    else .incorrect

/-- Only the flag of the session is correct. -/
lemma verdict_eq_correct {host : Host} {config : Config} {flagHash json : List UInt8}
    (h : verdict host config flagHash json = some .correct) :
    ∃ flag, host.parseSubmit json = some flag ∧ host.sha256 (host.trim flag) = flagHash := by
  obtain ⟨flag, hparse, hverdict⟩ := Option.map_eq_some_iff.mp h
  refine ⟨flag, hparse, ?_⟩
  split_ifs at hverdict with hhash
  exact hhash

/-! ## What a message does to the session -/

namespace Session

variable {host : Host} {config : Config} {s s' : Session} {ws : ReadyState}

/-- What looking at a control frame changes. -/
structure Examines (host : Host) (config : Config) (json : List UInt8) (s s' : Session) : Prop where
  flagHash : s'.flagHash = s.flagHash
  guest : s'.guest = s.guest
  stdin : s'.stdin = s.stdin
  inBytes : s'.inBytes = s.inBytes
  submits : s'.submits = s.submits + 1
  /-- The answer is given unless the socket is closing. -/
  replies : s'.replies = s.replies ∨
    ∃ v, verdict host config s.flagHash json = some v ∧ s'.replies = s.replies ++ [v]

/-- Below the cap on submissions, a control frame is looked at. -/
lemma handleControl_examines {json : List UInt8} (h : s.submits < config.submitMax) :
    Examines host config json s (s.handleControl host config ws json) := by
  rw [handleControl, if_neg (not_le.mpr h)]
  cases hparse : host.parseSubmit json with
  | none => exact ⟨rfl, rfl, rfl, rfl, rfl, .inl rfl⟩
  | some flag =>
    have hsend : ∀ v, verdict host config s.flagHash json = some v →
        Examines host config json s (({ s with submits := s.submits + 1 }).sendCtl ws v) := by
      intro v hv
      unfold sendCtl
      split_ifs
      · exact ⟨rfl, rfl, rfl, rfl, rfl, .inr ⟨v, hv, rfl⟩⟩
      · exact ⟨rfl, rfl, rfl, rfl, rfl, .inl rfl⟩
    simp only [verdict, hparse, Option.map_some, Option.some.injEq] at hsend
    dsimp only
    split_ifs with hhash htoken
    · exact hsend _ (if_pos hhash)
    · exact hsend _ (by rw [if_neg hhash, if_pos htoken])
    · exact hsend _ (by rw [if_neg hhash, if_neg htoken])

/-- A control frame that is answered with `correct` submits the flag of the session. -/
lemma correct_of_handleControl {json : List UInt8}
    (h : s.replies.count .correct <
      (s.handleControl host config ws json).replies.count .correct) :
    ∃ flag, host.parseSubmit json = some flag ∧
      host.sha256 (host.trim flag) = s.flagHash := by
  by_cases hsubmits : s.submits < config.submitMax
  · have hexamines : Examines host config json s (s.handleControl host config ws json) :=
      handleControl_examines hsubmits
    rcases hexamines.replies with hnone | ⟨v, hv, hsome⟩
    · exact absurd h (by rw [hnone]; exact lt_irrefl _)
    · rw [hsome, List.count_append] at h
      obtain rfl : v = .correct := by
        by_contra hne
        rw [List.count_singleton, if_neg (by simpa using hne)] at h
        exact absurd h (lt_irrefl _)
      exact verdict_eq_correct hv
  · rw [handleControl, if_pos (not_lt.mp hsubmits)] at h
    exact absurd h (lt_irrefl _)

/-- A message that is answered with `correct` submits the flag of the session. -/
lemma correct_of_message {m : List UInt8}
    (h : s.replies.count .correct < (s.message host config ws m).1.replies.count .correct) :
    ∃ json flag, m = ctl ++ json ∧ host.parseSubmit json = some flag ∧
      host.sha256 (host.trim flag) = s.flagHash := by
  unfold message at h
  dsimp only at h
  split_ifs at h with hcap hctl
  · exact absurd h (lt_irrefl _)
  · obtain ⟨json, rfl⟩ := List.isPrefixOf_iff_prefix.mp hctl
    rw [List.drop_left] at h
    obtain ⟨flag, hparse, hhash⟩ := correct_of_handleControl
      (s := { s with idleTimer := true, inBytes := s.inBytes + (ctl ++ json).length }) h
    exact ⟨json, flag, rfl, hparse, hhash⟩
  · unfold writeStdin at h
    split_ifs at h
    · exact absurd h (lt_irrefl _)
    · exact absurd h (lt_irrefl _)

/-- The session agrees with the list of all messages received so far. -/
structure Traffic (host : Host) (config : Config) (flag : List Char) (s : Session)
    (ms : List (List UInt8)) : Prop where
  flagHash : s.flagHash = host.sha256 flag
  inBytes : s.inBytes = ms.flatten.length
  stdin : s.guest.writable = true → s.stdin = (forwarded config ms).flatten
  submits : s.submits = (examined config ms).length
  replies : s.replies.Sublist
    ((examined config ms).filterMap (verdict host config (host.sha256 flag)))

variable {flag : List Char} {ms : List (List UInt8)}

/-- Nothing was received at the start of a session. -/
lemma traffic_start (host : Host) (config : Config) (flag : List Char) :
    Traffic host config flag (start host flag) [] where
  flagHash := rfl
  inBytes := rfl
  stdin _ := rfl
  submits := by simp [start, examined, withinCap]
  replies := List.nil_sublist _

/-- What is not traffic keeps the agreement. -/
lemma Traffic.sameTraffic (h : Traffic host config flag s ms) (hsame : s.SameTraffic s') :
    Traffic host config flag s' ms where
  flagHash := hsame.flagHash.trans h.flagHash
  inBytes := hsame.inBytes.trans h.inBytes
  stdin hw := hsame.stdin.trans (h.stdin (hsame.writable hw))
  submits := hsame.submits.trans h.submits
  replies := hsame.replies ▸ h.replies

/-- A message that is neither looked at nor forwarded keeps the agreement. -/
lemma Traffic.skip (h : Traffic host config flag s ms) {m : List UInt8}
    (hforwarded : forwarded config (ms ++ [m]) = forwarded config ms)
    (hexamined : examined config (ms ++ [m]) = examined config ms)
    (hflag : s'.flagHash = s.flagHash) (hguest : s'.guest = s.guest) (hstdin : s'.stdin = s.stdin)
    (hin : s'.inBytes = s.inBytes + m.length) (hsub : s'.submits = s.submits)
    (hreplies : s'.replies = s.replies) : Traffic host config flag s' (ms ++ [m]) where
  flagHash := hflag.trans h.flagHash
  inBytes := by
    rw [hin, h.inBytes, List.flatten_append, List.length_append, List.flatten_singleton]
  stdin hw := by
    rw [hstdin, hforwarded]
    exact h.stdin (hguest ▸ hw)
  submits := by rw [hsub, hexamined, h.submits]
  replies := by
    rw [hreplies, hexamined]
    exact h.replies

/-- A control frame that is looked at keeps the agreement. -/
lemma Traffic.control (h : Traffic host config flag s ms) {m : List UInt8} {s₁ : Session}
    (hforwarded : forwarded config (ms ++ [m]) = forwarded config ms)
    (hexamined : examined config (ms ++ [m]) = examined config ms ++ [m.drop ctl.length])
    (hs₁ : s₁ = { s with idleTimer := true, inBytes := s.inBytes + m.length })
    (hs' : Examines host config (m.drop ctl.length) s₁ s') :
    Traffic host config flag s' (ms ++ [m]) := by
  subst hs₁
  refine ⟨hs'.flagHash.trans h.flagHash, ?_, fun hw => ?_, ?_, ?_⟩
  · rw [hs'.inBytes, h.inBytes, List.flatten_append, List.length_append, List.flatten_singleton]
  · rw [hs'.stdin, hforwarded]
    exact h.stdin (hs'.guest ▸ hw)
  · rw [hs'.submits, hexamined, List.length_append, ← h.submits]
    rfl
  · rw [hexamined, List.filterMap_append]
    rcases hs'.replies with hnone | ⟨v, hv, hsome⟩
    · rw [hnone]
      exact h.replies.trans (List.sublist_append_left _ _)
    · rw [hsome]
      refine h.replies.append ?_
      rw [List.filterMap_cons_some (h.flagHash ▸ hv)]
      exact List.Sublist.refl _

/-- A message for the guest keeps the agreement. -/
lemma Traffic.write (h : Traffic host config flag s ms) {m : List UInt8} {s₁ : Session}
    (hforwarded : forwarded config (ms ++ [m]) = forwarded config ms ++ [m])
    (hexamined : examined config (ms ++ [m]) = examined config ms)
    (hs₁ : s₁ = { s with idleTimer := true, inBytes := s.inBytes + m.length }) :
    Traffic host config flag (s₁.writeStdin m) (ms ++ [m]) := by
  have hbytes : s.inBytes + m.length = (ms ++ [m]).flatten.length := by
    rw [h.inBytes, List.flatten_append, List.length_append, List.flatten_singleton]
  subst hs₁
  unfold writeStdin
  split_ifs with hw
  · refine ⟨h.flagHash, hbytes, fun _ => ?_, hexamined ▸ h.submits, hexamined ▸ h.replies⟩
    rw [hforwarded, List.flatten_append, List.flatten_singleton, ← h.stdin hw]
  · exact ⟨h.flagHash, hbytes, fun hw' => absurd hw' hw, hexamined ▸ h.submits,
      hexamined ▸ h.replies⟩

/-- **A message keeps the agreement.** -/
lemma Traffic.message (h : Traffic host config flag s ms) (ws : ReadyState) (m : List UInt8) :
    Traffic host config flag (s.message host config ws m).1 (ms ++ [m]) := by
  have hforwarded := forwarded_concat config ms m
  have hexamined := examined_concat config ms m
  rw [← h.inBytes] at hforwarded hexamined
  unfold Session.message
  dsimp only
  split_ifs with hcap hctl
  · -- the count is over the cap: nothing more is taken
    rw [if_neg (fun hc => absurd hc.1 (not_le.mpr hcap)), List.append_nil] at hforwarded hexamined
    exact h.skip hforwarded hexamined rfl rfl rfl rfl rfl rfl
  · rw [if_neg (fun hc => absurd hctl (Bool.eq_false_iff.mp hc.2)), List.append_nil] at hforwarded
    by_cases hsubmits : s.submits < config.submitMax
    · rw [if_pos ⟨not_lt.mp hcap, hctl, h.submits ▸ hsubmits⟩] at hexamined
      exact h.control hforwarded hexamined rfl (handleControl_examines hsubmits)
    · rw [if_neg (fun hc => hsubmits (h.submits ▸ hc.2.2)), List.append_nil] at hexamined
      rw [handleControl, if_pos (not_lt.mp hsubmits)]
      exact h.skip hforwarded hexamined rfl rfl rfl rfl rfl rfl
  · rw [if_pos ⟨not_lt.mp hcap, Bool.eq_false_iff.mpr hctl⟩] at hforwarded
    rw [if_neg (fun hc => hctl hc.2.1), List.append_nil] at hexamined
    exact h.write hforwarded hexamined rfl

end Session

/-! ## Runs of the bridge -/

/-- The session of a connection, if a slot was reserved. -/
def Phase.session : Phase → Option Session
  | .reserved s => some s
  | _ => none

variable {Ip : Type} [DecidableEq Ip]

/-- The session of the connection with index `i`. -/
def Bridge.sessionOf (b : Bridge Ip) (i : ℕ) : Option Session :=
  b.conns[i]?.bind fun c => c.phase.session

/-- The message that the event delivers to the connection with index `i`. -/
def BridgeEvent.received (i : ℕ) : BridgeEvent Ip → Option (List UInt8)
  | .message j buf => if j = i then some buf else none
  | _ => none

/-- All messages that a run delivers to the connection with index `i`. -/
def receivedBy (i : ℕ) (tr : List (Transition (Bridge Ip) (BridgeEvent Ip))) :
    List (List UInt8) :=
  (tr.map Transition.event).filterMap (BridgeEvent.received i)

namespace Bridge

variable {host : Host} {config : Config} {b b' : Bridge Ip} {e : BridgeEvent Ip} {i : ℕ}
  {s : Session}

omit [DecidableEq Ip] in
/-- A connection has a session if its slot was reserved. -/
lemma sessionOf_eq_some : b.sessionOf i = some s ↔
    ∃ c, b.conns[i]? = some c ∧ c.phase = .reserved s := by
  have hphase : ∀ phase : Phase, phase.session = some s ↔ phase = .reserved s := by
    intro phase
    cases phase <;> simp [Phase.session]
  simp only [sessionOf, Option.bind_eq_some_iff, hphase]

omit [DecidableEq Ip] in
/-- Only the event of a message delivers it. -/
lemma eq_message_of_received {buf : List UInt8} (h : e.received i = some buf) :
    e = .message i buf := by
  cases e with
  | message j m =>
    simp only [BridgeEvent.received] at h
    split_ifs at h with hj
    rw [hj, Option.some.inj h]
  | _ => cases h

/-- The end of a session is not traffic. -/
lemma sessionOf_cleanup {c : Conn Ip} {s' : Session} (hlt : i < b.conns.length)
    (hsame : s.SameTraffic s') :
    ∃ s₁, (b.cleanup i c s').sessionOf i = some s₁ ∧ s.SameTraffic s₁ := by
  have hset : ∀ (b₁ : Bridge Ip) (s₁ : Session), b₁.conns = b.conns →
      (b₁.setConn i { c with phase := .reserved s₁ }).sessionOf i = some s₁ := by
    intro b₁ s₁ hconns
    simp [sessionOf, setConn, hconns, hlt, Phase.session]
  obtain ⟨hflag, hstdin, hin, hsub, hreplies, hw⟩ := hsame
  unfold cleanup
  split_ifs
  · exact ⟨s', hset b s' rfl, hflag, hstdin, hin, hsub, hreplies, hw⟩
  · exact ⟨_, hset _ _ rfl, hflag, hstdin, hin, hsub, hreplies, hw⟩

/-- **What an event does to a session.**  It delivers a message, or it is no traffic. -/
lemma step_session (h : Steps host config b e b') (hs : b.sessionOf i = some s) :
    ∃ s', b'.sessionOf i = some s' ∧
      ((∃ buf ws, e.received i = some buf ∧ s' = (s.message host config ws buf).1) ∨
        (e.received i = none ∧ s.SameTraffic s')) := by
  have hkept : s.SameTraffic s := ⟨rfl, rfl, rfl, rfl, rfl, id⟩
  obtain ⟨c, hget, hphase⟩ := sessionOf_eq_some.mp hs
  obtain ⟨hlt, -⟩ := List.getElem?_eq_some_iff.mp hget
  have hset : ∀ (b₁ : Bridge Ip) (ws : ReadyState) (s₁ : Session),
      b₁.conns = b.conns.set i { c with ws := ws, phase := .reserved s₁ } →
        b₁.sessionOf i = some s₁ := by
    intro b₁ ws s₁ hconns
    exact sessionOf_eq_some.mpr ⟨_, by rw [hconns, List.getElem?_set_self hlt], rfl⟩
  obtain ⟨-, ⟨ip, url, paused, t₁, t₂, rfl, -, -, rfl⟩ | ⟨c₀, hget₀, hon⟩⟩ := step_cases h
  · obtain ⟨l, hconns, -⟩ := connect_conns host config b ip url paused t₁ t₂
    refine ⟨s, sessionOf_eq_some.mpr ⟨c, ?_, hphase⟩, .inr ⟨rfl, hkept⟩⟩
    rw [hconns, List.getElem?_append_left hlt, hget]
  by_cases hi : e.target b = i
  · -- the event belongs to the session
    have hreceived : e.plain = true → e.received i = none := by
      intro hplain
      cases e <;> first | rfl | cases hplain
    subst hi
    obtain rfl := Option.some.inj (hget.symm.trans hget₀)
    cases onConn_cases hget hon with
    | verified _ hawaiting _ => exact absurd (hawaiting.symm.trans hphase) (by simp)
    | @message buf s₀ he hphase₀ =>
      obtain rfl := Phase.reserved.inj (hphase.symm.trans hphase₀)
      have hbuf : e.received (e.target b) = some buf := by
        generalize e.target b = j at he
        simp [he, BridgeEvent.received]
      exact ⟨_, hset _ _ _ rfl, .inl ⟨buf, c.ws, hbuf, rfl⟩⟩
    | dropped _ hnone => simp [hphase, Phase.isReserved] at hnone
    | socket hplain _ =>
      refine ⟨s, sessionOf_eq_some.mpr ⟨_, List.getElem?_set_self hlt, hphase⟩, .inr ?_⟩
      exact ⟨hreceived hplain, hkept⟩
    | session hplain _ hphase₀ hsame _ =>
      obtain rfl := Phase.reserved.inj (hphase.symm.trans hphase₀)
      exact ⟨_, hset _ _ _ rfl, .inr ⟨hreceived hplain, hsame⟩⟩
    | ended hplain _ hphase₀ hsame _ =>
      obtain rfl := Phase.reserved.inj (hphase.symm.trans hphase₀)
      obtain ⟨s₁, hs₁, hsame₁⟩ := sessionOf_cleanup hlt hsame
      exact ⟨s₁, hs₁, .inr ⟨hreceived hplain, hsame₁⟩⟩
    | crash hplain _ _ => exact ⟨s, hs, .inr ⟨hreceived hplain, hkept⟩⟩
  · -- the event belongs to another connection
    obtain ⟨c', hconns, -⟩ := onConn_session hget₀ hon
    refine ⟨s, sessionOf_eq_some.mpr ⟨c, ?_, hphase⟩, .inr ⟨?_, hkept⟩⟩
    · rw [hconns, List.getElem?_set_ne hi, hget]
    · refine Option.eq_none_iff_forall_ne_some.mpr fun buf hbuf => hi ?_
      rw [eq_message_of_received hbuf]
      rfl

/-- Along a run the session agrees with the messages that are delivered to it. -/
lemma traffic_run {flag : List Char} {tr : List (Transition (Bridge Ip) (BridgeEvent Ip))}
    (h : Run (Steps host config) b tr b') (hs : b.sessionOf i = some (Session.start host flag)) :
    ∃ s', b'.sessionOf i = some s' ∧ s'.Traffic host config flag (receivedBy i tr) := by
  have hnext : ∀ (b₁ : Bridge Ip) e b₂ (ms : List (List UInt8)),
      (∃ s, b₁.sessionOf i = some s ∧ s.Traffic host config flag ms) →
        Steps host config b₁ e b₂ → ∃ s, b₂.sessionOf i = some s ∧
          s.Traffic host config flag (ms ++ (e.received i).toList) := by
    rintro b₁ e b₂ ms ⟨s, hs, htraffic⟩ hstep
    obtain ⟨s', hs', ⟨buf, ws, hbuf, rfl⟩ | ⟨hnone, hsame⟩⟩ := step_session hstep hs
    · rw [hbuf]
      exact ⟨_, hs', htraffic.message ws buf⟩
    · rw [hnone, Option.toList_none, List.append_nil]
      exact ⟨s', hs', htraffic.sameTraffic hsame⟩
  have hrun := h.simulates hnext ⟨_, hs, Session.traffic_start host config flag⟩
  rwa [List.foldl_append_eq_append, List.nil_append, ← List.flatMap_def,
    ← List.filterMap_eq_flatMap_toList] at hrun

end Bridge

/-- **The input path.**  At the end of a run from the start of a session, the guest got exactly the
messages before the one over the cap that are no control frames, in their order; at most
`submitMax` control frames were looked at, and nothing else was answered.  A submission is answered
with `correct` only if its flag has the hash of the session's. -/
theorem input_path (host : Host) (config : Config) {b b' : Bridge Ip} {i : ℕ} {flag : List Char}
    {tr : List (Transition (Bridge Ip) (BridgeEvent Ip))} {s : Session}
    (msgs : List ClientMessage) (h : Run (Bridge.Steps host config) b tr b')
    (hstart : b.sessionOf i = some (Session.start host flag)) (hend : b'.sessionOf i = some s)
    (hwritable : s.guest.writable = true) (hmsgs : receivedBy i tr = msgs.map ClientMessage.buf) :
    s.stdin = (((withinCap config.maxInBytes (msgs.map ClientMessage.data)).filter
        fun m => !ctl.isPrefixOf m)).flatten ∧
      s.submits = (examined config (msgs.map ClientMessage.data)).length ∧
      s.submits ≤ config.submitMax ∧
      s.replies.Sublist ((examined config (msgs.map ClientMessage.data)).filterMap
        (verdict host config (host.sha256 flag))) ∧
      ∀ x ∈ tr, ∀ s₁ s₂, x.pre.sessionOf i = some s₁ → x.post.sessionOf i = some s₂ →
        s₁.replies.count .correct < s₂.replies.count .correct →
        ∃ json f, x.event = .message i (ctl ++ json) ∧ host.parseSubmit json = some f ∧
          host.sha256 (host.trim f) = host.sha256 flag := by
  obtain ⟨s', hs', htraffic⟩ := Bridge.traffic_run h hstart
  obtain rfl := Option.some.inj (hend.symm.trans hs')
  have hdata : receivedBy i tr = msgs.map ClientMessage.data := by
    rw [hmsgs]
    exact List.map_congr_left fun m _ => m.buf_eq
  rw [hdata] at htraffic
  refine ⟨htraffic.stdin hwritable, htraffic.submits, ?_, htraffic.replies, ?_⟩
  · rw [htraffic.submits, examined, List.length_map, List.length_take]
    exact min_le_left _ _
  · intro x hx s₁ s₂ hs₁ hs₂ hmore
    obtain ⟨hstep, tr₁, hrun⟩ := h.mem hx
    obtain ⟨s₀, hs₀, hbefore⟩ := Bridge.traffic_run hrun hstart
    obtain rfl := Option.some.inj (hs₁.symm.trans hs₀)
    obtain ⟨s₃, hs₃, ⟨buf, ws, hbuf, rfl⟩ | ⟨-, hsame⟩⟩ := Bridge.step_session hstep hs₁
    · obtain rfl := Option.some.inj (hs₂.symm.trans hs₃)
      obtain ⟨json, f, rfl, hparse, hhash⟩ := Session.correct_of_message hmore
      exact ⟨json, f, Bridge.eq_message_of_received hbuf, hparse, hhash.trans hbefore.flagHash⟩
    · obtain rfl := Option.some.inj (hs₂.symm.trans hs₃)
      exact absurd hmore (by rw [hsame.replies]; exact lt_irrefl _)

/-- A host on which a flag is submitted as it is and is its own hash. -/
def plainHost : Host where
  searchToken := fun _ => some (some ['x'])
  parseSubmit := fun json => some (json.map fun b => Char.ofNat b.toNat)
  trim := id
  sha256 := Text.encode

/-- Room for eight bytes from the client. -/
def eightBytes : Config := { sampleConfig with maxInBytes := 8 }

/-- The bridge with one session, whose flag is `f`. -/
def oneSession : Bridge ℕ :=
  (execTrace (Bridge.step plainHost eightBytes) Bridge.init
    [.connect 0 [] false 1000 1000, .verified 0 true ['f'] 1200]).2

/-- A command, the right flag, and two messages that come too late. -/
def lateMessages : List ClientMessage :=
  [.text ['l', 's'], .binary (ctl ++ [0x66]), .text ['p', 'w', 'd'], .binary [0x0A]]

/-- The guest gets the command only. -/
theorem input_path_late :
    ((execTrace (Bridge.step plainHost eightBytes) oneSession
        (lateMessages.map fun m => .message 0 m.buf)).2.sessionOf 0).map Session.stdin =
      some [0x6C, 0x73] := by
  have hbufs : (lateMessages.map fun m => BridgeEvent.message 0 m.buf) =
      (lateMessages.map fun m => (BridgeEvent.message 0 m.data : BridgeEvent ℕ)) :=
    List.map_congr_left fun m _ => by rw [m.buf_eq]
  rw [hbufs]
  have hrun := run_execTrace (Bridge.step plainHost eightBytes) oneSession
    (lateMessages.map fun m => .message 0 m.data)
  have hreceived : receivedBy 0 (execTrace (Bridge.step plainHost eightBytes) oneSession
      (lateMessages.map fun m => .message 0 m.data)).1 = lateMessages.map ClientMessage.buf :=
    (by decide : _ = lateMessages.map ClientMessage.data).trans
      (List.map_congr_left fun m _ => m.buf_eq.symm)
  obtain ⟨s, hs, hwritable⟩ : ∃ s, (execTrace (Bridge.step plainHost eightBytes) oneSession
      (lateMessages.map fun m => .message 0 m.data)).2.sessionOf 0 = some s ∧
        s.guest.writable = true := ⟨_, rfl, rfl⟩
  have hpath := input_path plainHost eightBytes lateMessages hrun
    (by decide : oneSession.sessionOf 0 = some (Session.start plainHost ['f'])) hs hwritable
    hreceived
  rw [hs, Option.map_some, hpath.1]
  decide

end ZiranOS
