import ZiranOS.Bridge.Effect

/-!
# The admission caps

The connection handler compares the number of live sessions, the number of live sessions of the
address and the spawns of the last hour with their limits, and then awaits the human check; the
slot is reserved when the answer comes, without a second look.  Any number of handlers can wait at
that point.

`caps_iff` says what this means for the caps: along a run they hold in every state exactly when
each reservation would still have passed the three checks at the moment it was made.
-/

namespace ZiranOS

open ProgLib

variable {Ip : Type} [DecidableEq Ip]

namespace Bridge

/-- The caps of the bridge: live sessions in all, live sessions of each address, and spawns in
each rolling hour. -/
structure Caps (config : Config) (b : Bridge Ip) : Prop where
  /-- No more live sessions than `MAX_CONCURRENT`. -/
  live : b.live ≤ config.maxConcurrent
  /-- No more live sessions of an address than `MAX_PER_IP`. -/
  perIp : ∀ ip, b.liveOf ip ≤ config.maxPerIp
  /-- No more spawns in an hour than `HOURLY_BUDGET`. -/
  hourly : WindowBound hourMs config.hourlyBudget b.spawnLog

/-- A slot that the event reserves would pass the admission checks for slots once more, right
before the event. -/
def StillAdmitted (config : Config) (b : Bridge Ip) (e : BridgeEvent Ip) : Prop :=
  match b.reservation config e with
  | none => True
  | some (ip, t) => (b.overHourlyBudget config t).2 = false ∧ b.live < config.maxConcurrent ∧
      b.liveOf ip < config.maxPerIp

instance (config : Config) (b : Bridge Ip) (e : BridgeEvent Ip) :
    Decidable (b.StillAdmitted config e) :=
  match h : b.reservation config e with
  | none => .isTrue (by rw [StillAdmitted, h]; trivial)
  | some (ip, t) =>
    decidable_of_iff ((b.overHourlyBudget config t).2 = false ∧ b.live < config.maxConcurrent ∧
      b.liveOf ip < config.maxPerIp) (by rw [StillAdmitted, h])

/-- `spawnTimes` is what is kept of all spawn times. -/
def TimesKept (b : Bridge Ip) : Prop := Kept hourMs b.clock b.spawnLog b.spawnTimes

variable {host : Host} {config : Config} {b b' : Bridge Ip} {e : BridgeEvent Ip}

omit [DecidableEq Ip] in
/-- The list of spawn times stays a valid rest while nothing happens to the slots. -/
lemma SameSlots.timesKept (h : SameSlots b b') (hk : TimesKept b) : TimesKept b' := by
  unfold TimesKept
  rw [h.spawnLog]
  rcases h.times with htimes | ⟨now, hle, hle', htimes⟩
  · rw [htimes]
    exact hk.mono h.clock
  · rw [htimes]
    exact (hk.prune hle).mono hle'

/-- Every event keeps the list of spawn times valid. -/
lemma TimesKept.step (hk : TimesKept b) (h : Steps host config b e b') : TimesKept b' := by
  cases (step_effect h).2 with
  | crash _ _ hslots => exact hslots.timesKept hk
  | add _ _ hslots => exact hslots.timesKept hk
  | update _ _ _ hslots => exact hslots.timesKept hk
  | reserve _ _ t _ _ _ _ _ _ _ _ _ hlog htimes hclock hclock' =>
    unfold TimesKept
    rw [hlog, htimes, hclock']
    exact hk.push hclock
  | release _ _ _ _ _ _ _ _ _ _ _ hlog htimes hclock =>
    unfold TimesKept
    rw [hlog, htimes, hclock]
    exact hk

/-- **One event keeps the caps exactly when its reservation would still be admitted.** -/
lemma caps_step_iff (hk : TimesKept b) (hcaps : Caps config b) (h : Steps host config b e b') :
    Caps config b' ↔ b.StillAdmitted config e := by
  -- without a reservation the numbers do not grow and there is nothing to check
  have hsame : ∀ {b₁ : Bridge Ip}, SameSlots b b₁ → b.reservation config e = none →
      (Caps config b₁ ↔ b.StillAdmitted config e) := by
    intro b₁ hslots hnone
    refine iff_of_true ⟨?_, fun ip => ?_, ?_⟩ (by rw [StillAdmitted, hnone]; trivial)
    · rw [hslots.live]
      exact hcaps.live
    · rw [liveOf, hslots.livePerIp]
      exact hcaps.perIp ip
    · rw [hslots.spawnLog]
      exact hcaps.hourly
  cases (step_effect h).2 with
  | crash _ hnone hslots => exact hsame hslots hnone
  | add _ hnone hslots => exact hsame hslots hnone
  | update _ _ hnone hslots => exact hsame hslots hnone
  | reserve c c' t hsome _ _ _ _ _ _ hlive hper hlog _ hclock _ =>
    have hliveOf : ∀ ip, b'.liveOf ip = if ip = c.ip then b.liveOf c.ip + 1 else b.liveOf ip := by
      intro ip
      simp only [liveOf, hper, Function.update_apply]
      split_ifs <;> rfl
    have hwindow := hk.windowBound_append_iff hclock hcaps.hourly
    rw [← hlog] at hwindow
    simp only [StillAdmitted, hsome, overHourlyBudget, decide_eq_false_iff_not, not_le, ge_iff_le,
      ← hwindow]
    constructor
    · rintro ⟨h₁, h₂, h₃⟩
      refine ⟨h₃, by omega, ?_⟩
      have := h₂ c.ip
      rw [hliveOf, if_pos rfl] at this
      omega
    · rintro ⟨h₁, h₂, h₃⟩
      refine ⟨by omega, fun ip => ?_, h₁⟩
      rw [hliveOf]
      split_ifs
      · omega
      · exact hcaps.perIp ip
  | release c c' hnone _ _ _ _ _ _ hlive hper hlog _ _ =>
    refine iff_of_true ⟨?_, fun ip => ?_, ?_⟩ (by rw [StillAdmitted, hnone]; trivial)
    · have := hcaps.live
      omega
    · have hip := hcaps.perIp ip
      have hself := hcaps.perIp c.ip
      simp only [liveOf, hper, Function.update_apply] at hip hself ⊢
      split_ifs with heq
      · cases hget : b.livePerIp c.ip with
        | none => simp
        | some n =>
          simp only [hget, Option.getD_some] at hself ⊢
          omega
      · exact hip
    · rw [hlog]
      exact hcaps.hourly

omit [DecidableEq Ip] in
/-- The caps hold at the start. -/
lemma caps_init (config : Config) : Caps config (init : Bridge Ip) :=
  ⟨Nat.zero_le _, fun _ => Nat.zero_le _, fun _ => Nat.zero_le _⟩

end Bridge

/-- **When the admission caps hold.**  Along every run of the bridge, the caps hold in all states
if and only if each slot, at the moment it is reserved, would still pass the checks of the hourly
budget, of the live sessions and of the live sessions of its address. -/
theorem caps_iff (host : Host) (config : Config)
    (tr : List (Transition (Bridge Ip) (BridgeEvent Ip))) (b : Bridge Ip)
    (h : Run (Bridge.Steps host config) Bridge.init tr b) :
    (Bridge.Caps config (Bridge.init : Bridge Ip) ∧ ∀ x ∈ tr, x.post.Caps config) ↔
      ∀ x ∈ tr, x.pre.StillAdmitted config x.event := by
  rw [and_iff_right (Bridge.caps_init config)]
  exact h.forall_post_iff (fun _ _ _ hk hstep => hk.step hstep)
    (fun _ _ _ hk hcaps hstep => Bridge.caps_step_iff hk hcaps hstep) (Kept.nil hourMs 0)
    (Bridge.caps_init config)

/-- A host for clients that all connect to `/?t=x`. -/
def sampleHost : Host where
  searchToken := fun _ => some (some ['x'])
  parseSubmit := fun _ => none
  trim := id
  sha256 := fun _ => []

/-- The default limits with a human check. -/
def sampleConfig : Config := .default [] ['s']

/-- Two clients come from one address and pass the human check one after the other; the socket of
the first one fails while the second one has its session. -/
def twoVisits : List (BridgeEvent ℕ) :=
  [.connect 0 ['/', '?', 't', '=', 'x'] false 1000 1000,
    .connect 0 ['/', '?', 't', '=', 'x'] false 1100 1100, .verified 0 true [] 1200,
    .verified 1 true [] 1300, .guestStarts 0, .guestStarts 1, .message 1 [0x6C, 0x73],
    .wsError 0, .wsClose 1]

/-- The caps hold throughout the two visits. -/
theorem caps_iff_twoVisits :
    (execTrace (Bridge.step sampleHost sampleConfig) Bridge.init twoVisits).1.length = 9 ∧
      ∀ x ∈ (execTrace (Bridge.step sampleHost sampleConfig) Bridge.init twoVisits).1,
        x.post.Caps sampleConfig :=
  ⟨by decide +kernel,
    ((caps_iff sampleHost sampleConfig _ _ (run_execTrace _ _ twoVisits)).mpr
      (by decide +kernel)).2⟩

/-- Three clients from one address connect before the human check of any of them is answered. -/
def threeAtOnce : List (BridgeEvent ℕ) :=
  [.connect 0 ['/', '?', 't', '=', 'x'] false 1000 1000,
    .connect 0 ['/', '?', 't', '=', 'x'] false 1001 1001,
    .connect 0 ['/', '?', 't', '=', 'x'] false 1002 1002,
    .verified 0 true [] 1200, .verified 1 true [] 1201, .verified 2 true [] 1202]

/-- Three clients from one address get three sessions although the cap is two. -/
theorem caps_exceeded : ¬ ∀ tr b, Run (Bridge.Steps sampleHost sampleConfig) Bridge.init tr b →
    ∀ x ∈ tr, (x.post : Bridge ℕ).Caps sampleConfig := by
  intro h
  have hcaps := h _ _ (run_execTrace (Bridge.step sampleHost sampleConfig) Bridge.init threeAtOnce)
  have hthree : ∃ x ∈ (execTrace (Bridge.step sampleHost sampleConfig) Bridge.init threeAtOnce).1,
      2 < x.post.liveOf 0 := by decide
  obtain ⟨x, hx, hlive⟩ := hthree
  exact absurd ((hcaps x hx).perIp 0) (not_le.mpr hlive)

end ZiranOS
