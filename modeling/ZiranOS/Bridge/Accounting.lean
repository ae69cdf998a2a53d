import ZiranOS.Bridge.Isolation

/-!
# The accounting of sessions

Three events end a session: `close` and `error` of its socket and `exit` of its guest.  They come in
any order and may come again; the flag `cleaned` lets the first of them through.  `Handled` is the
bridge with these three repeated at will.

`accounting_exact` says that the counters are the numbers of sessions that were reserved and not yet
cleaned, that every session is released by the first event that ends it and by no other, and that
the clamps of `cleanup` never act.
-/

namespace ZiranOS

open ProgLib

variable {Ip : Type} [DecidableEq Ip]

/-- The connection has a session that was cleaned. -/
def Conn.cleaned (c : Conn Ip) : Bool := c.phase.isReserved && !c.counted

namespace Bridge

variable {host : Host} {config : Config} {b b' : Bridge Ip} {e : BridgeEvent Ip}

/-- One event of the bridge, where the events that end a session may come at any time and again. -/
inductive Handled (host : Host) (config : Config) (b : Bridge Ip) :
    BridgeEvent Ip → Bridge Ip → Prop
  | step {e : BridgeEvent Ip} {b' : Bridge Ip} (h : Steps host config b e b') :
      Handled host config b e b'
  | wsClose {i : ℕ} {c : Conn Ip} {s : Session} (halive : b.alive = true)
      (hget : b.conns[i]? = some c) (hphase : c.phase = .reserved s) :
      Handled host config b (.wsClose i) (b.cleanup i { c with ws := .closed } s)
  | wsError {i : ℕ} {c : Conn Ip} {s : Session} (halive : b.alive = true)
      (hget : b.conns[i]? = some c) (hphase : c.phase = .reserved s) :
      Handled host config b (.wsError i) (b.cleanup i { c with ws := c.ws.close } s)
  | exit {i : ℕ} {c : Conn Ip} {s : Session} (halive : b.alive = true)
      (hget : b.conns[i]? = some c) (hphase : c.phase = .reserved s) :
      Handled host config b (.exit i)
        (b.cleanup i { c with ws := c.ws.close } { s with guest := .exited })

/-- The effect of an event on the slots. -/
lemma Handled.effect (h : Handled host config b e b') : SlotEffect host config b e b' := by
  cases h with
  | step h => exact (step_effect h).2
  | wsClose halive hget hphase => exact cleanup_effect halive rfl hget hphase rfl rfl
  | wsError halive hget hphase => exact cleanup_effect halive rfl hget hphase rfl rfl
  | exit halive hget hphase => exact cleanup_effect halive rfl hget hphase rfl rfl

/-! ## What an event does to its session -/

/-- What an event may do to the connection it belongs to: a session stays a session; it starts with
a slot, which an event that ends it takes and no other event does. -/
structure SessionEffect (e : BridgeEvent Ip) (c c' : Conn Ip) : Prop where
  stays : c.phase.isReserved = true → c'.phase.isReserved = true
  starts : c.phase.isReserved = false → c'.phase.isReserved = true → c'.counted = true
  ended : e.ends ≠ none → c.phase.isReserved = true → c'.counted = false
  other : e.ends = none → c.phase.isReserved = true → c'.counted = c.counted

/-- The cleaned session has no slot. -/
lemma cleanup_conns (b : Bridge Ip) (i : ℕ) (c : Conn Ip) (s : Session) :
    ∃ c', (b.cleanup i c s).conns = b.conns.set i c' ∧ c'.phase.isReserved = true ∧
      c'.counted = false := by
  unfold cleanup
  split_ifs with hcleaned
  · exact ⟨_, rfl, rfl, by simp [Conn.counted, hcleaned]⟩
  · exact ⟨_, rfl, rfl, rfl⟩

omit [DecidableEq Ip] in
/-- An event that does not touch the phase. -/
lemma SessionEffect.of_phase_eq {c c' : Conn Ip} (hphase : c'.phase = c.phase)
    (he : e.ends = none ∨ c.phase.isReserved = false) : SessionEffect e c c' where
  stays h := hphase ▸ h
  starts h h' := by simp_all
  ended h h' := by simp_all
  other _ _ := by simp only [Conn.counted, hphase]

omit [DecidableEq Ip] in
/-- An event that ends the session. -/
lemma SessionEffect.of_cleaned {c c' : Conn Ip} (hc : c.phase.isReserved = true)
    (hc' : c'.phase.isReserved = true) (hslot : c'.counted = false) (he : e.ends ≠ none) :
    SessionEffect e c c' where
  stays _ := hc'
  starts h _ := absurd hc (by simp [h])
  ended _ _ := hslot
  other h _ := absurd h he

omit [DecidableEq Ip] in
/-- An event that changes the session and does not end it. -/
lemma SessionEffect.of_session {c : Conn Ip} {s s' : Session} {ws : ReadyState}
    (hphase : c.phase = .reserved s) (hs : s'.cleaned = s.cleaned) (he : e.ends = none) :
    SessionEffect e c { c with ws := ws, phase := .reserved s' } where
  stays _ := rfl
  starts h _ := absurd h (by simp [hphase, Phase.isReserved])
  ended h _ := absurd he h
  other _ _ := by simp only [Conn.counted, hphase, hs]

omit [DecidableEq Ip] in
/-- An event before there is a session. -/
lemma SessionEffect.of_awaiting {c c' : Conn Ip} (hc : c.phase.isReserved = false)
    (he : e.ends = none) (hc' : c'.phase.isReserved = true → c'.counted = true) :
    SessionEffect e c c' where
  stays h := absurd h (by simp [hc])
  starts _ := hc'
  ended h _ := absurd he h
  other _ h := absurd h (by simp [hc])

/-- What an event does to the connection it belongs to. -/
lemma onConn_session {c : Conn Ip} (hget : b.conns[e.target b]? = some c)
    (h : b.onConn host config (e.target b) c e = some b') :
    ∃ c', b'.conns = b.conns.set (e.target b) c' ∧ SessionEffect e c c' := by
  have heffect := onConn_cases hget h
  generalize hi : e.target b = i at hget heffect
  cases heffect with
  | verified he hphase _ =>
    have hnot : c.phase.isReserved = false := by
      rw [hphase]
      rfl
    subst he
    simp only [verified]
    split_ifs
    · exact ⟨_, rfl, .of_awaiting hnot rfl fun h => absurd h Bool.false_ne_true⟩
    · exact ⟨_, rfl, .of_awaiting hnot rfl fun h => absurd h Bool.false_ne_true⟩
    · exact ⟨_, rfl, .of_awaiting hnot rfl fun _ => rfl⟩
  | @message buf s he hphase =>
    subst he
    exact ⟨_, rfl, .of_session hphase (s.message_cleaned host config c.ws buf) rfl⟩
  | dropped => exact ⟨c, (conns_set_self hget).symm, .of_phase_eq rfl (.inr (by assumption))⟩
  | socket _ he => exact ⟨_, rfl, .of_phase_eq rfl he⟩
  | session _ he hphase _ hcleaned => exact ⟨_, rfl, .of_session hphase hcleaned he⟩
  | @ended s s' ws _ he hphase _ _ =>
    obtain ⟨c', hconns, hres, hslot⟩ := cleanup_conns b i { c with ws := ws } s'
    refine ⟨c', hconns, .of_cleaned (by simp [hphase, Phase.isReserved]) hres hslot ?_⟩
    simp [he]
  | crash _ he _ => exact ⟨c, (conns_set_self hget).symm, .of_phase_eq rfl he⟩

/-- A new client has no session yet. -/
lemma connect_conns (host : Host) (config : Config) (b : Bridge Ip) (ip : Ip) (url : List Char)
    (paused : Bool) (t₁ t₂ : ℕ) : ∃ l, (b.connect host config ip url paused t₁ t₂).conns =
      b.conns ++ l ∧ ∀ c ∈ l, c.phase.isReserved = false := by
  have hreject : ∀ b₁ : Bridge Ip, b₁.conns = b.conns → ∃ l, (b₁.rejectNew ip).conns =
      b.conns ++ l ∧ ∀ c ∈ l, c.phase.isReserved = false :=
    fun b₁ hconns => ⟨_, congrArg (· ++ _) hconns, by simp [Phase.isReserved]⟩
  simp only [connect]
  split_ifs
  · exact hreject _ rfl
  · exact hreject _ rfl
  · exact hreject _ rfl
  · exact hreject _ rfl
  · exact hreject _ rfl
  · cases host.searchToken url with
    | none => exact ⟨[], (List.append_nil _).symm, by simp⟩
    | some token => exact ⟨_, rfl, by simp [Phase.isReserved]⟩

/-- An event is a new client, or it changes one connection and its session. -/
lemma Handled.session (h : Handled host config b e b') :
    (e.ends = none ∧ ∃ l, b'.conns = b.conns ++ l ∧ ∀ c ∈ l, c.phase.isReserved = false) ∨
      ∃ c c', b.conns[e.target b]? = some c ∧ b'.conns = b.conns.set (e.target b) c' ∧
        SessionEffect e c c' := by
  have hend : ∀ {i : ℕ} {c : Conn Ip} {ws : ReadyState} {s s' : Session},
      b.conns[i]? = some c → c.phase = .reserved s → e.target b = i → e.ends = some i →
      ∃ c₀ c', b.conns[e.target b]? = some c₀ ∧
        (b.cleanup i { c with ws := ws } s').conns = b.conns.set (e.target b) c' ∧
        SessionEffect e c₀ c' := by
    intro i c ws s s' hget hphase htarget he
    obtain ⟨c', hconns, hres, hslot⟩ := cleanup_conns b i { c with ws := ws } s'
    refine ⟨c, c', htarget ▸ hget, htarget ▸ hconns, ?_⟩
    exact .of_cleaned (by simp [hphase, Phase.isReserved]) hres hslot (by simp [he])
  cases h with
  | step h =>
    obtain ⟨-, ⟨ip, url, paused, t₁, t₂, rfl, -, -, rfl⟩ | ⟨c, hget, hon⟩⟩ := step_cases h
    · exact .inl ⟨rfl, connect_conns host config b ip url paused t₁ t₂⟩
    · obtain ⟨c', hconns, heffect⟩ := onConn_session hget hon
      exact .inr ⟨c, c', hget, hconns, heffect⟩
  | wsClose _ hget hphase => exact .inr (hend hget hphase rfl rfl)
  | wsError _ hget hphase => exact .inr (hend hget hphase rfl rfl)
  | exit _ hget hphase => exact .inr (hend hget hphase rfl rfl)

/-! ## Releases -/

/-- The event releases the slot of the connection with index `i`. -/
def releases (b : Bridge Ip) (e : BridgeEvent Ip) (i : ℕ) : Bool :=
  decide (e.ends = some i) && b.conns[i]?.any Conn.counted

/-- The number of times the session of the connection with index `i` was cleaned. -/
def timesCleaned (b : Bridge Ip) (i : ℕ) : ℕ := (b.conns[i]?.any Conn.cleaned).toNat

omit [DecidableEq Ip] in
lemma target_eq_of_ends {i : ℕ} (h : e.ends = some i) : e.target b = i := by
  cases e <;> simp_all [BridgeEvent.ends, BridgeEvent.target]

omit [DecidableEq Ip] in
lemma isReserved_of_counted {c : Conn Ip} (h : c.counted = true) : c.phase.isReserved = true := by
  cases hphase : c.phase with
  | reserved s => rfl
  | _ => simp [Conn.counted, hphase] at h

omit [DecidableEq Ip] in
/-- An event cleans its session if the session has a slot and the event ends it. -/
lemma SessionEffect.cleaned_eq {c c' : Conn Ip} (h : SessionEffect e c c') :
    c'.cleaned.toNat = (decide (e.ends ≠ none) && c.counted).toNat + c.cleaned.toNat := by
  cases hres : c.phase.isReserved with
  | false =>
    have hcounted : c.counted = false := by
      rw [Bool.eq_false_iff]
      exact fun hc => absurd (isReserved_of_counted hc) (by simp [hres])
    cases hres' : c'.phase.isReserved with
    | false => simp [Conn.cleaned, hres, hres', hcounted]
    | true => simp [Conn.cleaned, hres, hcounted, h.starts hres hres']
  | true =>
    by_cases he : e.ends = none
    · simp [Conn.cleaned, hres, h.stays hres, he, h.other he hres]
    · have hsplit : ∀ x : Bool, x.toNat + (!x).toNat = 1 := by decide
      simp [Conn.cleaned, hres, h.stays hres, he, h.ended he hres, hsplit]

/-- A session is cleaned by the event that releases its slot. -/
lemma Handled.timesCleaned_eq (h : Handled host config b e b') (i : ℕ) :
    b'.timesCleaned i = (b.releases e i).toNat + b.timesCleaned i := by
  rcases h.session with ⟨he, l, hconns, hl⟩ | ⟨c, c', hget, hconns, heffect⟩
  · have hnew : l[i - b.conns.length]?.any Conn.cleaned = false := by
      cases hc : l[i - b.conns.length]? with
      | none => rfl
      | some c => simp [Conn.cleaned, hl c (List.mem_of_getElem? hc)]
    rw [timesCleaned, timesCleaned, releases, he, hconns]
    rcases Nat.lt_or_ge i b.conns.length with hi | hi
    · simp [List.getElem?_append_left hi]
    · simp [List.getElem?_append_right hi, hnew, List.getElem?_eq_none hi]
  · by_cases hi : e.target b = i
    · have hends : decide (e.ends = some i) = decide (e.ends ≠ none) := by
        cases he : e.ends with
        | none => simp
        | some j => simp [(target_eq_of_ends he).symm.trans hi]
      obtain ⟨hlt, -⟩ := List.getElem?_eq_some_iff.mp hget
      rw [timesCleaned, timesCleaned, releases, hconns, ← hi, List.getElem?_set_self hlt, hget,
        Option.any_some, Option.any_some, Option.any_some, hi, hends]
      exact heffect.cleaned_eq
    · have hends : e.ends ≠ some i := fun he => hi (target_eq_of_ends he)
      rw [timesCleaned, timesCleaned, releases, hconns, List.getElem?_set_ne hi]
      simp [hends]

/-- Along a run a session is cleaned as often as its slot is released. -/
lemma timesCleaned_run {tr : List (Transition (Bridge Ip) (BridgeEvent Ip))}
    (h : Run (Handled host config) b tr b') (i : ℕ) :
    b'.timesCleaned i = tr.countP (fun x => x.pre.releases x.event i) + b.timesCleaned i := by
  induction h with
  | nil => simp
  | @cons b b₁ _ e _ hstep _ ih =>
    rw [ih, hstep.timesCleaned_eq, List.countP_cons, Nat.add_comm (Bool.toNat _),
      Nat.add_right_comm]
    cases b.releases e i <;> rfl

/-- A release finds its session counted. -/
lemma Counts.pos_of_releases (hcounts : Counts b) {i : ℕ} {c : Conn Ip}
    (hget : b.conns[i]? = some c) (h : b.releases e i = true) :
    0 < b.live ∧ ∃ n, b.livePerIp c.ip = some n ∧ 0 < n := by
  have hc : c.counted = true := by
    simp only [releases, hget, Option.any_some, Bool.and_eq_true] at h
    exact h.2
  have hmem : c ∈ b.conns := List.mem_of_getElem? hget
  have hpos : 0 < b.conns.countP (Conn.countedFor c.ip) :=
    List.countP_pos_iff.mpr ⟨c, hmem, countedFor_eq.mpr ⟨hc, rfl⟩⟩
  refine ⟨hcounts.live ▸ List.countP_pos_iff.mpr ⟨c, hmem, hc⟩, ?_⟩
  have hper := hcounts.perIp c.ip
  rw [liveOf] at hper
  cases hvalue : b.livePerIp c.ip with
  | none =>
    rw [hvalue, Option.getD_none] at hper
    omega
  | some n =>
    rw [hvalue, Option.getD_some] at hper
    exact ⟨n, rfl, hper ▸ hpos⟩

end Bridge

/-- **The accounting of sessions is exact.**  In every state the counters are the numbers of
sessions that were reserved and not yet cleaned.  A session is released once if it was cleaned and
not at all before, and any event that ends it leaves it cleaned.  A release finds both of its
counters positive, so no clamp acts. -/
theorem accounting_exact (host : Host) (config : Config)
    (tr : List (Transition (Bridge Ip) (BridgeEvent Ip))) (b : Bridge Ip)
    (h : Run (Bridge.Handled host config) Bridge.init tr b) :
    (b.live = b.conns.countP Conn.counted ∧
        ∀ ip, b.liveOf ip = b.conns.countP (Conn.countedFor ip)) ∧
      (∀ i c, b.conns[i]? = some c →
        tr.countP (fun x => x.pre.releases x.event i) = if c.cleaned then 1 else 0) ∧
      ∀ x ∈ tr, ∀ i c, x.event.ends = some i → x.pre.conns[i]? = some c →
        c.phase.isReserved = true →
        (∃ c', x.post.conns[i]? = some c' ∧ c'.cleaned = true) ∧
        (x.pre.releases x.event i = true →
          0 < x.pre.live ∧ ∃ n, x.pre.livePerIp c.ip = some n ∧ 0 < n) := by
  have hcounts : ∀ {b' : Bridge Ip}, Reachable (Bridge.Handled host config) Bridge.init b' →
      Bridge.Counts b' :=
    fun hreach => hreach.invariant (fun _ _ _ hc hs => hc.of_effect hs.effect) Bridge.counts_init
  refine ⟨⟨(hcounts ⟨tr, h⟩).live, (hcounts ⟨tr, h⟩).perIp⟩, fun i c hget => ?_, ?_⟩
  · have hrun := Bridge.timesCleaned_run h i
    have hinit : (Bridge.init : Bridge Ip).timesCleaned i = 0 := rfl
    rw [hinit, Nat.add_zero, Bridge.timesCleaned, hget, Option.any_some] at hrun
    rw [← hrun]
    cases c.cleaned <;> rfl
  · intro x hx i c he hget hres
    obtain ⟨hstep, hreach⟩ := h.mem hx
    refine ⟨?_, fun hrel => (hcounts hreach).pos_of_releases hget hrel⟩
    rcases hstep.session with ⟨hnone, -⟩ | ⟨c₀, c', hget₀, hconns, heffect⟩
    · exact absurd (hnone.symm.trans he) (by simp)
    · rw [Bridge.target_eq_of_ends he] at hget₀ hconns
      obtain rfl := Option.some.inj (hget.symm.trans hget₀)
      obtain ⟨hlt, -⟩ := List.getElem?_eq_some_iff.mp hget
      refine ⟨c', by rw [hconns, List.getElem?_set_self hlt], ?_⟩
      simp [Conn.cleaned, heffect.stays hres, heffect.ended (by simp [he]) hres]

/-- One client comes, passes the human check, gets a guest and leaves. -/
def singleVisit : List (BridgeEvent ℕ) :=
  [.connect 0 ['/', '?', 't', '=', 'x'] false 1000 1000, .verified 0 true [] 1200, .guestStarts 0,
    .wsClose 0]

/-- The bridge after a single visit. -/
def afterVisit : Bridge ℕ :=
  (execTrace (Bridge.step sampleHost sampleConfig) Bridge.init singleVisit).2

/-- The connection of that visit. -/
def visitor : Conn ℕ where
  ip := 0
  token := some ['x']
  ws := .closed
  phase := .reserved
    { Session.start sampleHost [] with
      guest := .running
      killed := true
      hardTimer := false
      idleTimer := false
      cleaned := true }

/-- The socket of a visit that is over emits an error. -/
theorem accounting_exact_repeatedEnd :
    ∃ (tr : List (Transition (Bridge ℕ) (BridgeEvent ℕ))) (b : Bridge ℕ),
      Run (Bridge.Handled sampleHost sampleConfig) Bridge.init tr b ∧ tr.length = 5 ∧
      tr.countP (fun x => x.pre.releases x.event 0) = 1 := by
  have hvisit : Run (Bridge.Handled sampleHost sampleConfig) Bridge.init
      (execTrace (Bridge.step sampleHost sampleConfig) Bridge.init singleVisit).1 afterVisit :=
    (run_execTrace _ _ singleVisit).mono .step
  have hend : Bridge.Handled sampleHost sampleConfig afterVisit (.wsError 0)
      (afterVisit.cleanup 0 visitor _) :=
    .wsError (c := visitor) (by decide) (by decide) rfl
  have hrun := hvisit.append (.cons hend (.nil _))
  exact ⟨_, _, hrun, by decide,
    ((accounting_exact sampleHost sampleConfig _ _ hrun).2.1 0 visitor (by decide)).trans rfl⟩

end ZiranOS
