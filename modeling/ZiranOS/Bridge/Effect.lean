import ZiranOS.Bridge.Step

/-!
# What one event does to the slots

A slot is counted from its reservation to the cleanup of its session.  Whatever an event does in
detail, its effect on the slots is one of five: the process terminates, a connection without a
slot is added, one connection changes without gaining or losing a slot, one connection gains a
slot, or one connection loses it (`SlotEffect`).  `step_effect` derives this from the code once;
the invariants of the bridge are proved from it.
-/

namespace ZiranOS

open ProgLib

variable {Ip : Type} [DecidableEq Ip]

/-- The connection holds a slot: it was reserved and has not been cleaned. -/
def Conn.counted (c : Conn Ip) : Bool :=
  match c.phase with
  | .reserved s => !s.cleaned
  | _ => false

/-- The session that the event ends. -/
def BridgeEvent.ends : BridgeEvent Ip → Option ℕ
  | .wsClose i | .wsError i | .exit i => some i
  | _ => none

/-- The event is neither a new client, nor the answer of a human check, nor a message. -/
def BridgeEvent.plain : BridgeEvent Ip → Bool
  | .connect .. | .verified .. | .message .. => false
  | _ => true

namespace Bridge

/-! ## Errors without a listener -/

/-- A new client passes every admission check. -/
def Admits (config : Config) (b : Bridge Ip) (ip : Ip) (paused : Bool) (t₁ t₂ : ℕ) : Prop :=
  paused = false ∧ (b.overHourlyBudget config t₁).2 = false ∧
    (b.rateLimited config ip t₂).2 = false ∧ b.live < config.maxConcurrent ∧
    b.liveOf ip < config.maxPerIp

instance (config : Config) (b : Bridge Ip) (ip : Ip) (paused : Bool) (t₁ t₂ : ℕ) :
    Decidable (b.Admits config ip paused t₁ t₂) :=
  inferInstanceAs (Decidable (_ ∧ _ ∧ _ ∧ _ ∧ _))

/-- The event is an error that nobody handles: an `error` of a socket without a slot, of a guest
or of its stdin, or the request target of an admitted client on which `new URL` throws. -/
def Unheard (host : Host) (config : Config) (b : Bridge Ip) : BridgeEvent Ip → Prop
  | .connect ip url paused t₁ t₂ =>
    b.Admits config ip paused t₁ t₂ ∧ host.searchToken url = none
  | .wsError i => b.conns[i]?.map (fun c => c.phase.isReserved) ≠ some true
  | .childError _ | .stdinError _ => True
  | _ => False

instance (host : Host) (config : Config) (b : Bridge Ip) :
    (e : BridgeEvent Ip) → Decidable (b.Unheard host config e)
  | .connect ip url paused t₁ t₂ => inferInstanceAs (Decidable
      (b.Admits config ip paused t₁ t₂ ∧ host.searchToken url = none))
  | .wsError i => inferInstanceAs (Decidable
      (b.conns[i]?.map (fun c => c.phase.isReserved) ≠ some true))
  | .childError _ | .stdinError _ => .isTrue trivial
  | .verified .. | .wsClosing _ | .wsClose _ | .message .. | .hardTimeout _ | .idleTimeout _
  | .stdout .. | .guestStarts _ | .guestDies _ | .exit _ => .isFalse id

/-! ## The effects -/

/-- The slot that an event reserves: the address and the time of the spawn. -/
def reservation (config : Config) (b : Bridge Ip) : BridgeEvent Ip → Option (Ip × ℕ)
  | .verified i success _ t =>
    match b.conns[i]? with
    | some c =>
      if verifyTurnstile config c.token success ∧ c.ws = .open then some (c.ip, t) else none
    | none => none
  | _ => none

/-- Nothing about the slots has changed, except that old spawn times may have been pruned. -/
structure SameSlots (b b' : Bridge Ip) : Prop where
  live : b'.live = b.live
  livePerIp : b'.livePerIp = b.livePerIp
  spawnLog : b'.spawnLog = b.spawnLog
  clock : b.clock ≤ b'.clock
  times : b'.spawnTimes = b.spawnTimes ∨
    ∃ now, b.clock ≤ now ∧ now ≤ b'.clock ∧ b'.spawnTimes = prune hourMs now b.spawnTimes

/-- The effect of an event on the process, the connections and the slots. -/
inductive SlotEffect (host : Host) (config : Config) (b : Bridge Ip) (e : BridgeEvent Ip)
    (b' : Bridge Ip) : Prop where
  /-- The process terminates. -/
  | crash (hunheard : b.Unheard host config e) (hnone : b.reservation config e = none)
      (hslots : SameSlots b b') (halive : b'.alive = false) (hconns : b'.conns = b.conns)
  /-- A connection without a slot is added. -/
  | add (c : Conn Ip) (hnone : b.reservation config e = none) (hslots : SameSlots b b')
      (halive : b'.alive = true) (htarget : e.target b = b.conns.length)
      (hconns : b'.conns = b.conns ++ [c]) (hc : c.counted = false)
  /-- A connection changes and neither gains nor loses a slot. -/
  | update (c c' : Conn Ip) (hnone : b.reservation config e = none) (hslots : SameSlots b b')
      (halive : b'.alive = true) (hget : b.conns[e.target b]? = some c)
      (hconns : b'.conns = b.conns.set (e.target b) c') (hip : c'.ip = c.ip)
      (hc : c'.counted = c.counted)
  /-- A connection gains a slot. -/
  | reserve (c c' : Conn Ip) (t : ℕ) (hsome : b.reservation config e = some (c.ip, t))
      (halive : b'.alive = true) (hget : b.conns[e.target b]? = some c)
      (hconns : b'.conns = b.conns.set (e.target b) c') (hip : c'.ip = c.ip)
      (hc : c.counted = false) (hc' : c'.counted = true) (hlive : b'.live = b.live + 1)
      (hper : b'.livePerIp = Function.update b.livePerIp c.ip (some (b.liveOf c.ip + 1)))
      (hlog : b'.spawnLog = b.spawnLog ++ [t]) (htimes : b'.spawnTimes = b.spawnTimes ++ [t])
      (hclock : b.clock ≤ t) (hclock' : b'.clock = t)
  /-- A connection loses its slot. -/
  | release (c c' : Conn Ip) (hnone : b.reservation config e = none)
      (halive : b'.alive = true) (hget : b.conns[e.target b]? = some c)
      (hconns : b'.conns = b.conns.set (e.target b) c') (hip : c'.ip = c.ip)
      (hc : c.counted = true) (hc' : c'.counted = false) (hlive : b'.live = b.live - 1)
      (hper : b'.livePerIp =
        Function.update b.livePerIp c.ip (some ((b.livePerIp c.ip).getD 1 - 1)))
      (hlog : b'.spawnLog = b.spawnLog) (htimes : b'.spawnTimes = b.spawnTimes)
      (hclock : b'.clock = b.clock)

variable {host : Host} {config : Config} {b b' : Bridge Ip} {e : BridgeEvent Ip}

/-- Changing a connection that keeps its slot, or has none, is an update. -/
lemma setConn_effect {c c' : Conn Ip} (halive : b.alive = true)
    (hnone : b.reservation config e = none) (hget : b.conns[e.target b]? = some c)
    (hip : c'.ip = c.ip) (hc : c'.counted = c.counted) :
    SlotEffect host config b e (b.setConn (e.target b) c') :=
  .update c c' hnone ⟨rfl, rfl, rfl, le_rfl, Or.inl rfl⟩ halive hget rfl hip hc

/-- Changing the session of a connection without cleaning it is an update. -/
lemma setSession_effect {c : Conn Ip} {s s' : Session} {ws : ReadyState} (halive : b.alive = true)
    (hnone : b.reservation config e = none) (hget : b.conns[e.target b]? = some c)
    (hphase : c.phase = .reserved s) (hs : s'.cleaned = s.cleaned) :
    SlotEffect host config b e
      (b.setConn (e.target b) { c with ws := ws, phase := .reserved s' }) :=
  setConn_effect halive hnone hget rfl (by simp only [Conn.counted, hphase, hs])

/-- Cleaning a session releases its slot, or changes nothing about the slots. -/
lemma cleanup_effect {c c' : Conn Ip} {s s' : Session} (halive : b.alive = true)
    (hnone : b.reservation config e = none) (hget : b.conns[e.target b]? = some c)
    (hphase : c.phase = .reserved s) (hip : c'.ip = c.ip) (hs : s'.cleaned = s.cleaned) :
    SlotEffect host config b e (b.cleanup (e.target b) c' s') := by
  unfold cleanup
  split_ifs with hcleaned
  · refine setConn_effect halive hnone hget hip ?_
    simp only [Conn.counted, hphase, hs]
  · have hc : c.counted = true := by
      simp only [Conn.counted, hphase, ← hs, hcleaned, Bool.not_false]
    exact .release c _ hnone halive hget rfl hip hc rfl rfl (by rw [hip]; rfl) rfl rfl rfl

/-- The effect of a new connection. -/
lemma connect_effect {ip : Ip} {url : List Char} {paused : Bool} {t₁ t₂ : ℕ}
    (halive : b.alive = true) (h₁ : b.clock ≤ t₁) (h₂ : t₁ ≤ t₂) :
    SlotEffect host config b (.connect ip url paused t₁ t₂)
      { b.connect host config ip url paused t₁ t₂ with clock := t₂ } := by
  have hpruned : ∀ b₁ : Bridge Ip, b₁.live = b.live → b₁.livePerIp = b.livePerIp →
      b₁.spawnLog = b.spawnLog → b₁.spawnTimes = prune hourMs t₁ b.spawnTimes →
      SameSlots b { b₁ with clock := t₂ } := by
    intro b₁ hl hp hlog htimes
    exact ⟨hl, hp, hlog, h₁.trans h₂, Or.inr ⟨t₁, h₁, h₂, htimes⟩⟩
  simp only [connect]
  split_ifs with hp hb hr hl hper
  · exact .add _ rfl ⟨rfl, rfl, rfl, h₁.trans h₂, Or.inl rfl⟩ halive rfl rfl rfl
  · exact .add _ rfl (hpruned _ rfl rfl rfl rfl) halive rfl rfl rfl
  · exact .add _ rfl (hpruned _ rfl rfl rfl rfl) halive rfl rfl rfl
  · exact .add _ rfl (hpruned _ rfl rfl rfl rfl) halive rfl rfl rfl
  · exact .add _ rfl (hpruned _ rfl rfl rfl rfl) halive rfl rfl rfl
  · cases htoken : host.searchToken url with
    | none =>
      refine .crash ⟨⟨?_, ?_, ?_, not_le.mp hl, not_le.mp hper⟩, htoken⟩ rfl
        (hpruned _ rfl rfl rfl rfl) rfl rfl
      · simpa using hp
      · simpa using hb
      · exact Bool.eq_false_iff.mpr hr
    | some token => exact .add _ rfl (hpruned _ rfl rfl rfl rfl) halive rfl rfl rfl

/-- The effect of the answer of a human check. -/
lemma verified_effect {i : ℕ} {c : Conn Ip} {success : Bool} {flag : List Char} {t : ℕ}
    (halive : b.alive = true) (hget : b.conns[i]? = some c) (hphase : c.phase = .awaiting)
    (ht : b.clock ≤ t) :
    SlotEffect host config b (.verified i success flag t)
      { b.verified host config i c success flag t with clock := t } := by
  have hcounted : c.counted = false := by simp only [Conn.counted, hphase]
  have hslots : ∀ b₁ : Bridge Ip, b₁.live = b.live → b₁.livePerIp = b.livePerIp →
      b₁.spawnLog = b.spawnLog → b₁.spawnTimes = b.spawnTimes →
      SameSlots b { b₁ with clock := t } :=
    fun b₁ hl hp hlog htimes => ⟨hl, hp, hlog, ht, Or.inl htimes⟩
  simp only [verified]
  split_ifs with hv hws
  · refine .update c _ ?_ (hslots _ rfl rfl rfl rfl) halive hget rfl rfl hcounted.symm
    simp only [Bool.not_eq_true'] at hv
    simp [reservation, hget, hv]
  · refine .update c _ ?_ (hslots _ rfl rfl rfl rfl) halive hget rfl rfl hcounted.symm
    simp [reservation, hget, hws]
  · refine .reserve c _ t ?_ halive hget rfl rfl hcounted rfl rfl rfl rfl rfl ht rfl
    simp only [Bool.not_eq_true', Bool.not_eq_false] at hv
    simp only [not_not] at hws
    simp [reservation, hget, hv, hws]

/-- The error of a socket without a slot has no listener. -/
lemma unheard_wsError {i : ℕ} {c : Conn Ip} (hget : b.conns[i]? = some c)
    (hphase : ∀ s, c.phase ≠ .reserved s) : b.Unheard host config (.wsError i) := by
  simp only [Unheard, hget, Option.map_some, ne_eq, Option.some.injEq]
  intro hres
  cases hp : c.phase with
  | reserved s => exact hphase s hp
  | _ => simp [hp, Phase.isReserved] at hres

/-! ## What an event does to its connection -/

/-- What an event comes to for the connection `c` with index `i` that it belongs to. -/
inductive ConnEffect (host : Host) (config : Config) (b : Bridge Ip) (i : ℕ) (c : Conn Ip)
    (e : BridgeEvent Ip) : Bridge Ip → Prop
  /-- The human check is answered. -/
  | verified {success : Bool} {flag : List Char} {t : ℕ} (he : e = .verified i success flag t)
      (hphase : c.phase = .awaiting) (ht : b.clock ≤ t) :
      ConnEffect host config b i c e
        { b.verified host config i c success flag t with clock := t }
  /-- The session handles a message. -/
  | message {buf : List UInt8} {s : Session} (he : e = .message i buf)
      (hphase : c.phase = .reserved s) :
      ConnEffect host config b i c e
        (b.setConn i { c with ws := (s.message host config c.ws buf).2,
                              phase := .reserved (s.message host config c.ws buf).1 })
  /-- There is no session yet, and the message is dropped. -/
  | dropped {buf : List UInt8} (he : e = .message i buf) (hphase : c.phase.isReserved = false) :
      ConnEffect host config b i c e b
  /-- The ready state of the socket changes. -/
  | socket {ws : ReadyState} (hplain : e.plain = true)
      (he : e.ends = none ∨ c.phase.isReserved = false) :
      ConnEffect host config b i c e (b.setConn i { c with ws := ws })
  /-- The session goes on, and the socket may be closed. -/
  | session {s s' : Session} {ws : ReadyState} (hplain : e.plain = true)
      (he : e.ends = none) (hphase : c.phase = .reserved s) (hsame : s.SameTraffic s')
      (hcleaned : s'.cleaned = s.cleaned) :
      ConnEffect host config b i c e (b.setConn i { c with ws := ws, phase := .reserved s' })
  /-- The session ends. -/
  | ended {s s' : Session} {ws : ReadyState} (hplain : e.plain = true)
      (he : e.ends = some i) (hphase : c.phase = .reserved s) (hsame : s.SameTraffic s')
      (hcleaned : s'.cleaned = s.cleaned) :
      ConnEffect host config b i c e (b.cleanup i { c with ws := ws } s')
  /-- Nobody handles the error. -/
  | crash (hplain : e.plain = true) (he : e.ends = none ∨ c.phase.isReserved = false)
      (hunheard : b.Unheard host config e) :
      ConnEffect host config b i c e { b with alive := false }

omit [DecidableEq Ip] in
/-- A phase without a session. -/
lemma isReserved_eq_false {phase : Phase} (h : ∀ s, phase = .reserved s → False) :
    phase.isReserved = false := by
  cases phase with
  | reserved s => exact (h s rfl).elim
  | _ => rfl

/-- **What an event does to its connection.** -/
lemma onConn_cases {c : Conn Ip} (hget : b.conns[e.target b]? = some c)
    (h : b.onConn host config (e.target b) c e = some b') :
    ConnEffect host config b (e.target b) c e b' := by
  cases e with
  | connect ip url paused t₁ t₂ => cases h
  | verified i success flag t =>
    simp only [onConn] at h
    split_ifs at h with hcond
    obtain rfl := Option.some.inj h
    exact .verified rfl hcond.1 hcond.2
  | wsClosing i =>
    simp only [onConn] at h
    split_ifs at h
    obtain rfl := Option.some.inj h
    exact .socket rfl (.inl rfl)
  | wsClose i =>
    simp only [onConn] at h
    split_ifs at h
    split at h
    · next s hphase =>
      obtain rfl := Option.some.inj h
      exact .ended rfl rfl hphase ⟨rfl, rfl, rfl, rfl, rfl, id⟩ rfl
    · next hphase =>
      obtain rfl := Option.some.inj h
      exact .socket rfl (.inr (isReserved_eq_false hphase))
  | wsError i =>
    simp only [onConn] at h
    split_ifs at h
    split at h
    · next s hphase =>
      obtain rfl := Option.some.inj h
      exact .ended rfl rfl hphase ⟨rfl, rfl, rfl, rfl, rfl, id⟩ rfl
    · next hphase =>
      obtain rfl := Option.some.inj h
      exact .crash rfl (.inr (isReserved_eq_false hphase)) (unheard_wsError hget hphase)
  | message i buf =>
    simp only [onConn] at h
    split_ifs at h
    split at h
    · next s hphase =>
      obtain rfl := Option.some.inj h
      exact .message rfl hphase
    · next hphase =>
      obtain rfl := Option.some.inj h
      exact .dropped rfl (isReserved_eq_false hphase)
  | hardTimeout i =>
    simp only [onConn] at h
    split at h
    · next s hphase =>
      split_ifs at h
      obtain rfl := Option.some.inj h
      exact .session rfl rfl hphase ⟨rfl, rfl, rfl, rfl, rfl, id⟩ rfl
    · cases h
  | idleTimeout i =>
    simp only [onConn] at h
    split at h
    · next s hphase =>
      split_ifs at h
      obtain rfl := Option.some.inj h
      exact .session rfl rfl hphase ⟨rfl, rfl, rfl, rfl, rfl, id⟩ rfl
    · cases h
  | stdout i backlog =>
    simp only [onConn] at h
    split at h
    · next s hphase =>
      split_ifs at h
      obtain rfl := Option.some.inj h
      exact .session rfl rfl hphase (s.sameTraffic_stdout config c.ws backlog)
        (s.stdout_cleaned config c.ws backlog)
    · cases h
  | guestStarts i =>
    simp only [onConn] at h
    split at h
    · next s hphase =>
      split_ifs at h with hguest
      obtain rfl := Option.some.inj h
      exact .session rfl rfl hphase ⟨rfl, rfl, rfl, rfl, rfl, fun _ => by rw [hguest]; rfl⟩ rfl
    · cases h
  | guestDies i =>
    simp only [onConn] at h
    split at h
    · next s hphase =>
      split_ifs at h with hguest
      obtain rfl := Option.some.inj h
      exact .session rfl rfl hphase ⟨rfl, rfl, rfl, rfl, rfl, fun _ => by rw [hguest]; rfl⟩ rfl
    · cases h
  | exit i =>
    simp only [onConn] at h
    split at h
    · next s hphase =>
      split_ifs at h
      obtain rfl := Option.some.inj h
      exact .ended rfl rfl hphase ⟨rfl, rfl, rfl, rfl, rfl, fun h => nomatch h⟩ rfl
    · cases h
  | childError i =>
    simp only [onConn] at h
    split at h
    · split_ifs at h
      obtain rfl := Option.some.inj h
      exact .crash rfl (.inl rfl) trivial
    · cases h
  | stdinError i =>
    simp only [onConn] at h
    split at h
    · split_ifs at h
      obtain rfl := Option.some.inj h
      exact .crash rfl (.inl rfl) trivial
    · cases h

omit [DecidableEq Ip] in
/-- Only the answer of a human check reserves a slot. -/
lemma reservation_of_plain (hplain : e.plain = true) : b.reservation config e = none := by
  cases e with
  | verified => cases hplain
  | _ => rfl

omit [DecidableEq Ip] in
/-- A connection that is replaced by itself. -/
lemma conns_set_self {i : ℕ} {c : Conn Ip} (hget : b.conns[i]? = some c) :
    b.conns.set i c = b.conns := by
  obtain ⟨hlt, rfl⟩ := List.getElem?_eq_some_iff.mp hget
  exact List.set_getElem_self hlt

/-- The effect of an event of a connection. -/
lemma onConn_effect {c : Conn Ip} (halive : b.alive = true) (hget : b.conns[e.target b]? = some c)
    (h : b.onConn host config (e.target b) c e = some b') : SlotEffect host config b e b' := by
  have heffect := onConn_cases hget h
  generalize hi : e.target b = i at hget heffect
  cases heffect with
  | verified he hphase ht =>
    subst he
    exact verified_effect halive hget hphase ht
  | @message buf s he hphase =>
    subst he
    exact setSession_effect halive rfl hget hphase (s.message_cleaned host config c.ws buf)
  | dropped he _ =>
    subst he
    exact .update c c rfl ⟨rfl, rfl, rfl, le_rfl, Or.inl rfl⟩ halive hget
      (conns_set_self hget).symm rfl rfl
  | socket hplain _ =>
    subst hi
    exact setConn_effect halive (reservation_of_plain hplain) hget rfl rfl
  | session hplain _ hphase _ hcleaned =>
    subst hi
    exact setSession_effect halive (reservation_of_plain hplain) hget hphase hcleaned
  | ended hplain _ hphase _ hcleaned =>
    subst hi
    exact cleanup_effect halive (reservation_of_plain hplain) hget hphase rfl hcleaned
  | crash hplain _ hunheard =>
    exact .crash hunheard (reservation_of_plain hplain) ⟨rfl, rfl, rfl, le_rfl, Or.inl rfl⟩ rfl rfl

/-- A possible event finds the process running; it is a new connection, or an event of one of the
connections. -/
lemma step_cases (h : Steps host config b e b') : b.alive = true ∧
    ((∃ ip url paused t₁ t₂, e = .connect ip url paused t₁ t₂ ∧ b.clock ≤ t₁ ∧ t₁ ≤ t₂ ∧
      b' = { b.connect host config ip url paused t₁ t₂ with clock := t₂ }) ∨
    ∃ c, b.conns[e.target b]? = some c ∧ b.onConn host config (e.target b) c e = some b') := by
  unfold Steps step at h
  split_ifs at h with halive
  rw [Bool.not_eq_true', Bool.not_eq_false] at halive
  refine ⟨halive, ?_⟩
  cases e with
  | connect ip url paused t₁ t₂ =>
    simp only at h
    split_ifs at h with ht
    exact Or.inl ⟨ip, url, paused, t₁, t₂, rfl, ht.1, ht.2, (Option.some.inj h).symm⟩
  | _ =>
    simp only at h
    split at h
    · cases h
    · next c hget => exact Or.inr ⟨c, hget, h⟩

/-- **The effect of an event.**  A possible event finds the process running and has one of the
effects of `SlotEffect`. -/
theorem step_effect (h : Steps host config b e b') :
    b.alive = true ∧ SlotEffect host config b e b' := by
  obtain ⟨halive, ⟨ip, url, paused, t₁, t₂, rfl, h₁, h₂, rfl⟩ | ⟨c, hget, hon⟩⟩ := step_cases h
  · exact ⟨halive, connect_effect halive h₁ h₂⟩
  · exact ⟨halive, onConn_effect halive hget hon⟩

end Bridge

end ZiranOS
