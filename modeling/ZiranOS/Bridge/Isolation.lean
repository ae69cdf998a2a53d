import ZiranOS.Bridge.Admission

/-!
# Faults of one connection

Every connection is meant to stand alone: what happens to it must neither stop the bridge nor touch
another session.  The counters and the other connections are indeed never touched (`Counts.step`,
`SlotEffect.others`), but several `error` events have no listener: those of a socket whose slot is
not reserved yet, or never will be, and those of a guest process and of its stdin.  An exception in
the connection handler is not caught either.

`isolated_iff` says that these are the only faults: a run keeps the connections isolated exactly
when none of them occurs.
-/

namespace ZiranOS

open ProgLib

variable {Ip : Type} [DecidableEq Ip]

/-- The connection holds a slot of the address. -/
def Conn.countedFor (ip : Ip) (c : Conn Ip) : Bool := c.counted && decide (c.ip = ip)

namespace Bridge

variable {host : Host} {config : Config} {b b' : Bridge Ip} {e : BridgeEvent Ip}

/-! ## Which faults stop the bridge -/

/-- An event that is an error nobody handles stops the bridge. -/
lemma alive_of_unheard (h : Steps host config b e b') (hunheard : b.Unheard host config e) :
    b'.alive = false := by
  obtain ⟨halive, ⟨ip, url, paused, t₁, t₂, rfl, -, -, rfl⟩ | ⟨c, hget, hon⟩⟩ := step_cases h
  · obtain ⟨⟨hp, hb, hr, hl, hper⟩, hurl⟩ := hunheard
    -- the checks after the rate limit look at counters that the earlier ones do not change
    have hr' : ((b.overHourlyBudget config t₁).1.rateLimited config ip t₂).2 = false := hr
    have hl' : ¬ ((b.overHourlyBudget config t₁).1.rateLimited config ip t₂).1.live ≥
        config.maxConcurrent := not_le.mpr hl
    have hper' : ¬ ((b.overHourlyBudget config t₁).1.rateLimited config ip t₂).1.liveOf ip ≥
        config.maxPerIp := not_le.mpr hper
    simp only [connect, hp, hb, hr', hurl, if_neg hl', if_neg hper', Bool.false_eq_true, if_false]
  · cases e with
    | wsError i =>
      simp only [onConn] at hon
      simp only [BridgeEvent.target] at hget
      simp only [Unheard, hget, Option.map_some, ne_eq, Option.some.injEq] at hunheard
      split_ifs at hon
      split at hon
      · next s hphase =>
        rw [hphase] at hunheard
        exact absurd rfl hunheard
      · obtain rfl := Option.some.inj hon
        rfl
    | childError i =>
      simp only [onConn] at hon
      split at hon
      · split_ifs at hon
        obtain rfl := Option.some.inj hon
        rfl
      · cases hon
    | stdinError i =>
      simp only [onConn] at hon
      split at hon
      · split_ifs at hon
        obtain rfl := Option.some.inj hon
        rfl
      · cases hon
    | connect => cases hon
    | _ => exact absurd hunheard id

/-- **The bridge stops exactly on an error that nobody handles.** -/
lemma alive_eq_false_iff (h : Steps host config b e b') :
    b'.alive = false ↔ b.Unheard host config e := by
  refine ⟨fun hdead => ?_, alive_of_unheard h⟩
  cases (step_effect h).2 with
  | crash hunheard => exact hunheard
  | add _ _ _ halive => simp [halive] at hdead
  | update _ _ _ _ halive => simp [halive] at hdead
  | reserve _ _ _ _ halive => simp [halive] at hdead
  | release _ _ _ halive => simp [halive] at hdead

/-! ## The counters count the sessions -/

/-- A slot of an address is a slot, held by a connection from that address. -/
lemma countedFor_eq {c : Conn Ip} {ip : Ip} :
    c.countedFor ip = true ↔ c.counted = true ∧ c.ip = ip := by
  simp [Conn.countedFor]

/-- The counters are the numbers of connections that hold a slot. -/
structure Counts (b : Bridge Ip) : Prop where
  live : b.live = b.conns.countP Conn.counted
  perIp : ∀ ip, b.liveOf ip = b.conns.countP (Conn.countedFor ip)

/-- The counters are right at the start. -/
lemma counts_init : Counts (init : Bridge Ip) := ⟨rfl, fun _ => rfl⟩

omit [DecidableEq Ip] in
/-- What replacing one connection does to the number of those with a property. -/
lemma countP_set_of_getElem? {l : List (Conn Ip)} {i : ℕ} {c : Conn Ip} (hget : l[i]? = some c)
    (c' : Conn Ip) (p : Conn Ip → Bool) :
    (l.set i c').countP p + (if p c then 1 else 0) = l.countP p + if p c' then 1 else 0 := by
  obtain ⟨hlt, rfl⟩ := List.getElem?_eq_some_iff.mp hget
  rw [List.countP_set hlt]
  have hpos : p l[i] = true → 0 < l.countP p :=
    fun hp => List.countP_pos_iff.mpr ⟨l[i], List.getElem_mem hlt, hp⟩
  split_ifs <;> simp_all

/-- A connection that gains or loses a slot changes the number of slots of its address only. -/
lemma countP_countedFor_set {l : List (Conn Ip)} {i : ℕ} {c c' : Conn Ip}
    (hget : l[i]? = some c) (hip : c'.ip = c.ip) (ip : Ip) :
    (l.set i c').countP (Conn.countedFor ip) +
        (if ip = c.ip ∧ c.counted = true then 1 else 0) =
      l.countP (Conn.countedFor ip) + if ip = c.ip ∧ c'.counted = true then 1 else 0 := by
  have hset := countP_set_of_getElem? hget c' (Conn.countedFor ip)
  simp only [countedFor_eq, hip] at hset
  simp only [and_comm, eq_comm] at hset ⊢
  exact hset

/-- The counters stay right where the slots are the same and the connections with a slot are as
many. -/
lemma Counts.of_sameSlots (hcounts : Counts b) (hslots : SameSlots b b')
    (hcount : ∀ p : Conn Ip → Bool,
      (∀ c c', c'.ip = c.ip → c'.counted = c.counted → p c' = p c) →
        (∀ c, c.counted = false → p c = false) → b'.conns.countP p = b.conns.countP p) :
    Counts b' := by
  refine ⟨?_, fun ip => ?_⟩
  · rw [hslots.live, hcounts.live]
    exact (hcount _ (fun _ _ _ hc => hc) (fun _ hc => hc)).symm
  · rw [liveOf, hslots.livePerIp]
    refine (hcounts.perIp ip).trans (hcount _ (fun _ _ hip hc => ?_) (fun _ hc => ?_)).symm
    · rw [Conn.countedFor, Conn.countedFor, hip, hc]
    · rw [Conn.countedFor, hc, Bool.false_and]

/-- The entry of an address with a live session is there. -/
lemma Counts.getD_eq (hcounts : Counts b) {ip : Ip}
    (hpos : 0 < b.conns.countP (Conn.countedFor ip)) :
    (b.livePerIp ip).getD 1 = b.conns.countP (Conn.countedFor ip) := by
  have hone := hcounts.perIp ip
  rw [liveOf] at hone
  cases hvalue : b.livePerIp ip with
  | none =>
    rw [hvalue, Option.getD_none] at hone
    omega
  | some n =>
    rw [hvalue, Option.getD_some] at hone
    rw [Option.getD_some, hone]

/-- An effect on the slots keeps the counters right. -/
lemma Counts.of_effect (hcounts : Counts b) (h : SlotEffect host config b e b') : Counts b' := by
  cases h with
  | crash _ _ hslots _ hconns => exact hcounts.of_sameSlots hslots fun p _ _ => by rw [hconns]
  | add c _ hslots _ _ hconns hc =>
    apply hcounts.of_sameSlots hslots
    intro p _ hp
    rw [hconns, List.countP_append, List.countP_singleton, hp c hc]
    rfl
  | update c c' _ hslots _ hget hconns hip hc =>
    apply hcounts.of_sameSlots hslots
    intro p hp _
    have := countP_set_of_getElem? hget c' p
    rw [hconns]
    rw [hp c c' hip hc] at this
    omega
  | reserve c c' t _ _ hget hconns hip hc hc' hlive hper _ _ _ _ =>
    refine ⟨?_, fun ip => ?_⟩
    · have hset := countP_set_of_getElem? hget c' Conn.counted
      simp only [hc, hc', Bool.false_eq_true, if_false, if_true] at hset
      rw [hconns, hlive, hcounts.live]
      exact hset.symm
    · have hset := countP_countedFor_set hget hip ip
      simp only [hc, hc', Bool.false_eq_true, and_false, and_true, if_false] at hset
      rw [hconns, liveOf, hper, Function.update_apply]
      split_ifs at hset ⊢ with haddr
      · rw [Option.getD_some, ← haddr, hcounts.perIp]
        exact hset.symm
      · exact (hcounts.perIp ip).trans hset.symm
  | release c c' _ _ hget hconns hip hc hc' hlive hper _ _ _ =>
    refine ⟨?_, fun ip => ?_⟩
    · have hset := countP_set_of_getElem? hget c' Conn.counted
      simp only [hc, hc', Bool.false_eq_true, if_false, if_true] at hset
      rw [hconns, hlive, hcounts.live]
      omega
    · have hset := countP_countedFor_set hget hip ip
      simp only [hc, hc', Bool.false_eq_true, and_false, and_true, if_false] at hset
      rw [hconns, liveOf, hper, Function.update_apply]
      split_ifs at hset ⊢ with haddr
      · rw [Option.getD_some, ← haddr, hcounts.getD_eq (by omega)]
        omega
      · exact (hcounts.perIp ip).trans hset.symm

/-- **Every event keeps the counters right.** -/
lemma Counts.step (hcounts : Counts b) (h : Steps host config b e b') : Counts b' :=
  hcounts.of_effect (step_effect h).2

/-! ## Isolation -/

/-- A step of the bridge keeps the connections apart: the bridge keeps running, no connection but
the one the event belongs to is touched, the counters count every session that holds a slot and no
other, and a guest that fails to start leaves no slot behind. -/
structure Isolated (x : Transition (Bridge Ip) (BridgeEvent Ip)) : Prop where
  alive : x.post.alive = true
  others : ∀ j, j ≠ x.event.target x.pre → x.post.conns[j]? = x.pre.conns[j]?
  counts : Counts x.post
  failedStart : ∀ i, x.event = .childError i → ∀ c, x.post.conns[i]? = some c → c.counted = false

/-- No event touches a connection other than its own. -/
lemma SlotEffect.others (h : SlotEffect host config b e b') (j : ℕ) (hj : j ≠ e.target b) :
    b'.conns[j]? = b.conns[j]? := by
  have hset : ∀ {c : Conn Ip}, b'.conns = b.conns.set (e.target b) c →
      b'.conns[j]? = b.conns[j]? := by
    intro c hconns
    rw [hconns, List.getElem?_set_ne hj.symm]
  cases h with
  | crash _ _ _ _ hconns => rw [hconns]
  | add c _ _ _ htarget hconns _ =>
    rw [htarget] at hj
    rw [hconns]
    rcases lt_or_gt_of_ne hj with hlt | hgt
    · exact List.getElem?_append_left hlt
    · rw [List.getElem?_eq_none (by rw [List.length_append, List.length_singleton]; omega),
        List.getElem?_eq_none hgt.le]
  | update _ _ _ _ _ _ hconns => exact hset hconns
  | reserve _ _ _ _ _ _ hconns => exact hset hconns
  | release _ _ _ _ _ hconns => exact hset hconns

/-- **One event keeps the connections apart exactly when it is not an unhandled error.** -/
lemma isolated_step_iff (hcounts : Counts b) (h : Steps host config b e b') :
    Isolated ⟨b, e, b'⟩ ↔ ¬ b.Unheard host config e := by
  have halive := alive_eq_false_iff h
  constructor
  · intro hiso hunheard
    have := hiso.alive
    simp only [halive.mpr hunheard, Bool.false_eq_true] at this
  · intro hheard
    refine ⟨?_, (step_effect h).2.others, hcounts.step h, ?_⟩
    · exact Bool.not_eq_false _ |>.mp fun hdead => hheard (halive.mp hdead)
    · rintro i rfl
      exact absurd trivial hheard

end Bridge

/-- **When the faults of a connection stay its own.**  Along every run of the bridge, each event
keeps the bridge running, touches no other connection, keeps the counters equal to the numbers of
sessions that hold a slot and leaves no slot behind for a guest that failed to start, if and only
if no event is an error that nobody handles: an `error` of a socket whose slot is not reserved, of
a guest or of its stdin, or an admitted client whose request target is not a URL. -/
theorem isolated_iff (host : Host) (config : Config)
    (tr : List (Transition (Bridge Ip) (BridgeEvent Ip))) (b : Bridge Ip)
    (h : Run (Bridge.Steps host config) Bridge.init tr b) :
    (∀ x ∈ tr, Bridge.Isolated x) ↔ ∀ x ∈ tr, ¬ x.pre.Unheard host config x.event := by
  refine forall₂_congr fun x hx => ?_
  obtain ⟨hstep, hreach⟩ := h.mem hx
  exact Bridge.isolated_step_iff
    (hreach.invariant (fun _ _ _ hc hs => hc.step hs) Bridge.counts_init) hstep

/-- The two visits are kept apart, although the socket of one of them fails. -/
theorem isolated_iff_twoVisits :
    (execTrace (Bridge.step sampleHost sampleConfig) Bridge.init twoVisits).1.length = 9 ∧
      ∀ x ∈ (execTrace (Bridge.step sampleHost sampleConfig) Bridge.init twoVisits).1,
        Bridge.Isolated x :=
  ⟨by decide +kernel, (isolated_iff sampleHost sampleConfig _ _
    (run_execTrace _ _ twoVisits)).mpr (by decide +kernel)⟩

/-- One client has a session; another one, still waiting for the human check, sends a malformed
frame. -/
def malformedFrame : List (BridgeEvent ℕ) :=
  [.connect 0 ['/', '?', 't', '=', 'x'] false 1000 1000, .verified 0 true [] 1200,
    .connect 1 ['/', '?', 't', '=', 'x'] false 1300 1300, .wsError 1]

/-- The malformed frame of the second client stops the bridge. -/
theorem malformedFrame_stops : ¬ ∀ tr b,
    Run (Bridge.Steps sampleHost sampleConfig) Bridge.init tr b →
      ∀ x ∈ tr, Bridge.Isolated (x : Transition (Bridge ℕ) (BridgeEvent ℕ)) := by
  intro h
  have hiso := h _ _
    (run_execTrace (Bridge.step sampleHost sampleConfig) Bridge.init malformedFrame)
  have hstop : ∃ x ∈ (execTrace (Bridge.step sampleHost sampleConfig) Bridge.init
      malformedFrame).1, x.post.alive = false := by decide
  obtain ⟨x, hx, hdead⟩ := hstop
  exact absurd (hiso x hx).alive (by rw [hdead]; decide)

end ZiranOS
