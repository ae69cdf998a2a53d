import ZiranOS.Task.Idle

/-!
# Which tasks are reported as running

`snapshot` is what the task list of the shell prints.  A task that is switched away from becomes
ready or has finished, but the idle task, which is never queued, keeps its state: it is reported as
running all the time (`StatesOk`).  So the report is truthful exactly while the idle task runs, and
in all states of a run exactly if the idle task never hands the CPU over (`truthful_iff`).
-/

namespace ZiranOS

open ProgLib

namespace Scheduler

/-- The number of tasks that a snapshot has room for. -/
def snapshotMax : ℕ := 64

/-- The identifier and the state of each task, and whether it is the current one. -/
def snapshot (s : Scheduler) : List (ℕ × State × Bool) :=
  (s.tasks.take snapshotMax).mapIdx fun i t => (t.id, t.state, i == s.current)

/-- Exactly one task is reported as running, and it is the current one. -/
def Truthful (s : Scheduler) : Prop := ∀ i, s.stateAt i = some .running ↔ i = s.current

/-- The idle task yields, or is preempted, while another task is queued. -/
def LeavesIdle (s : Scheduler) : SchedEvent → Prop
  | .yieldNow _ | .preempt _ => s.current = ZiranOS.idle ∧ s.ready ≠ []
  | .spawn _ | .taskExit _ => False

/-- The running tasks are the idle task and, unless it is about to retire, the current one. -/
structure StatesOk (s : Scheduler) : Prop where
  /-- The idle task is reported as running. -/
  idle_running : s.stateAt ZiranOS.idle = some .running
  /-- No other task is but the current one. -/
  of_running : ∀ i, s.stateAt i = some .running → i = ZiranOS.idle ∨ i = s.current

/-- A report is truthful if it lists the current task, and no other, as running. -/
lemma Truthful.snapshot {s : Scheduler} (h : s.Truthful) {id : ℕ} {state : State} {current : Bool}
    (hmem : (id, state, current) ∈ s.snapshot) : state = .running ↔ current = true := by
  unfold Scheduler.snapshot at hmem
  obtain ⟨i, hi, heq⟩ := List.mem_mapIdx.mp hmem
  rw [List.length_take] at hi
  rw [List.getElem_take] at heq
  obtain ⟨-, rfl, rfl⟩ : s.tasks[i].id = id ∧ s.tasks[i].state = state ∧
    (i == s.current) = current := by simpa using heq
  have hstate : s.stateAt i = some s.tasks[i].state := by
    simp [stateAt, List.getElem?_eq_getElem (show i < s.tasks.length by omega)]
  rw [beq_iff_eq, ← h i, hstate, Option.some.injEq]

variable {s t : Scheduler}

/-! ## The states of the tasks -/

/-- **A yield keeps the states in order**, and the task it hands the CPU to is running. -/
lemma StatesOk.yieldNow (h : StatesOk s) (hq : QueueOk s) {sp : ℕ} {switch : Option (ℕ × ℕ)}
    (hrun : s.yieldNow sp = .ok (t, switch)) :
    StatesOk t ∧ (s.stateAt s.current = some .running ∨ t.current ≠ s.current →
      t.stateAt t.current = some .running) := by
  by_cases hself : s.next = s.current
  · rw [yieldNow_self sp hself] at hrun
    obtain ⟨rfl, -⟩ := Prod.mk.inj (Except.ok.inj hrun)
    refine ⟨⟨h.idle_running, h.of_running⟩, fun hcur => ?_⟩
    exact hcur.resolve_right fun hne => hne rfl
  · obtain ⟨t', newSp, hrun', -, hc, -, hst⟩ :=
      yieldNow_switch sp hself hq.current_lt hq.next_live.lt
    obtain ⟨rfl, -⟩ := Prod.mk.inj (Except.ok.inj (hrun'.symm.trans hrun))
    have hreq := fun i => mem_requeued hq.current_lt (i := i)
    refine ⟨⟨?_, fun i hi => ?_⟩, fun _ => ?_⟩
    · rw [hst]
      split_ifs with h₁ h₂
      · rfl
      · obtain ⟨heq, hne, -⟩ := (hreq _).mp h₂
        exact absurd heq.symm hne
      · exact h.idle_running
    · rw [hst] at hi
      split_ifs at hi with h₁ h₂
      · exact Or.inr (h₁.trans hc.symm)
      · cases hi
      · rcases h.of_running i hi with hidle | hcur
        · exact Or.inl hidle
        · -- the outgoing task is not put back, so it is the idle task
          refine Or.inl ?_
          by_contra hne
          refine h₂ ((hreq i).mpr ⟨hcur, hcur ▸ hne, .running, ?_, by decide⟩)
          rwa [← hcur]
    · rw [hst, if_pos hc]

/-- Between two operations the current task is running as well. -/
structure StatesSound (s : Scheduler) : Prop extends StatesOk s where
  /-- The current task is reported as running. -/
  current_running : s.stateAt s.current = some .running

/-- A yield between two operations. -/
lemma StatesSound.yieldNow (h : StatesSound s) (hq : QueueOk s) {sp : ℕ}
    {switch : Option (ℕ × ℕ)} (hrun : s.yieldNow sp = .ok (t, switch)) : StatesSound t := by
  obtain ⟨hok, hcur⟩ := h.toStatesOk.yieldNow hq hrun
  exact ⟨hok, hcur (Or.inl h.current_running)⟩

/-- A new task is ready. -/
lemma StatesSound.spawn (h : StatesSound s) (hs : Sound s) (base : ℕ) :
    StatesSound (s.spawn base).1 := by
  have hold : ∀ i < s.tasks.length, (s.spawn base).1.stateAt i = s.stateAt i := by
    intro i hi
    simp [stateAt, Scheduler.spawn, List.getElem?_append_left hi]
  refine ⟨⟨?_, fun i hi => ?_⟩, ?_⟩
  · rw [hold _ hs.idle_live.lt]
    exact h.idle_running
  · by_cases hlt : i < s.tasks.length
    · rw [hold i hlt] at hi
      exact h.of_running i hi
    · simp [stateAt, Scheduler.spawn, Task.new, List.getElem?_append_right (not_lt.mp hlt),
        List.getElem?_cons] at hi
  · exact (hold _ hs.current_lt).trans h.current_running

/-- A task that retires is no longer running, and the one that the CPU is handed to is. -/
lemma StatesSound.taskExit (h : StatesSound s) (hs : Sound s) (hne : s.current ≠ ZiranOS.idle)
    {sp : ℕ} {switch : Option (ℕ × ℕ)} (hrun : s.taskExit sp = .ok (t, switch)) :
    StatesSound t := by
  obtain ⟨t', newSp, hrun', -, -, hcur, -⟩ := hs.taskExit hne sp
  obtain ⟨rfl, -⟩ := Prod.mk.inj (Except.ok.inj (hrun'.symm.trans hrun))
  obtain ⟨s₁, hset, hq, hc, -, -⟩ := hs.retire hne
  obtain ⟨s₁', hset', -, -, -, hst⟩ := setState_eq hs.current_lt .finished
  obtain rfl := Except.ok.inj (hset'.symm.trans hset)
  have h₁ : StatesOk s₁' := by
    refine ⟨?_, fun i hi => ?_⟩
    · rw [hst, if_neg hne.symm]
      exact h.idle_running
    · rw [hst] at hi
      split_ifs at hi with heq
      · cases hi
      · exact Or.inl ((h.of_running i hi).resolve_right heq)
  rw [Scheduler.taskExit, hset, Exec.bind_ok] at hrun
  obtain ⟨hok, hrunning⟩ := h₁.yieldNow hq hrun
  exact ⟨hok, hrunning (Or.inr (hc ▸ hcur))⟩

/-- **Every step keeps the states in order.** -/
lemma StatesSound.steps {e : SchedEvent} (h : StatesSound s) (hs : Sound s)
    (hstep : Steps s e t) : StatesSound t := by
  obtain ⟨he, switch, hrun⟩ := hstep
  cases e with
  | spawn base =>
    obtain ⟨rfl, -⟩ := Prod.mk.inj (Except.ok.inj hrun)
    exact h.spawn hs base
  | yieldNow sp => exact h.yieldNow hs.toQueueOk hrun
  | preempt sp => exact h.yieldNow hs.toQueueOk hrun
  | taskExit sp => exact h.taskExit hs he hrun

/-- The initial scheduler has one task, which is running. -/
lemma statesSound_withIdle : StatesSound withIdle := by
  refine ⟨⟨rfl, fun i hi => Or.inl ?_⟩, rfl⟩
  have hlt : i < withIdle.tasks.length := stateAt_isSome.mp (Option.isSome_of_eq_some hi)
  exact Nat.lt_one_iff.mp hlt

/-! ## When the report is truthful -/

/-- **The report is truthful exactly while the idle task runs.** -/
lemma StatesSound.truthful_iff_idle (h : StatesSound s) :
    s.Truthful ↔ s.current = ZiranOS.idle := by
  constructor
  · exact fun htruth => ((htruth _).mp h.idle_running).symm
  · intro hidle i
    constructor
    · intro hi
      exact (h.of_running i hi).elim (fun heq => heq.trans hidle.symm) id
    · rintro rfl
      exact h.current_running

/-- A step away from a truthful state is truthful unless the idle task hands the CPU over. -/
lemma Sound.truthful_step {e : SchedEvent} (hs : Sound s) (h : StatesSound s) (htruth : s.Truthful)
    (hstep : Steps s e t) : t.Truthful ↔ ¬ s.LeavesIdle e := by
  have hidle := h.truthful_iff_idle.mp htruth
  rw [(h.steps hs hstep).truthful_iff_idle]
  obtain ⟨he, switch, hrun⟩ := hstep
  have hyield : ∀ sp, s.yieldNow sp = .ok (t, switch) →
      (t.current = ZiranOS.idle ↔ ¬ (s.current = ZiranOS.idle ∧ s.ready ≠ [])) := by
    intro sp hrun
    rw [(hs.yieldNow_idle hrun).1]
    tauto
  cases e with
  | spawn base =>
    obtain ⟨rfl, -⟩ := Prod.mk.inj (Except.ok.inj hrun)
    exact iff_of_true hidle id
  | yieldNow sp => exact hyield sp hrun
  | preempt sp => exact hyield sp hrun
  | taskExit sp => exact absurd hidle he

end Scheduler

/-- **When the states of the tasks are truthful.**  In a run from the initial scheduler exactly one
task is reported as running in every state, the current one, if and only if the idle task never
yields, and is never preempted, while another task is queued. -/
theorem truthful_iff (tr : List (Transition Scheduler SchedEvent)) (s : Scheduler)
    (h : Run Scheduler.Steps Scheduler.withIdle tr s) :
    (Scheduler.withIdle.Truthful ∧ ∀ x ∈ tr, x.post.Truthful) ↔
      ∀ x ∈ tr, ¬ x.pre.LeavesIdle x.event := by
  have hstart : Scheduler.withIdle.Truthful :=
    Scheduler.statesSound_withIdle.truthful_iff_idle.mpr rfl
  rw [and_iff_right hstart]
  refine h.forall_post_iff (I := fun s => s.Sound ∧ s.StatesSound)
    (C := fun s e => ¬ s.LeavesIdle e) (fun s e t hs hstep => ?_) (fun s e t hs htruth hstep => ?_)
    ⟨Scheduler.sound_withIdle, Scheduler.statesSound_withIdle⟩ hstart
  · exact ⟨hs.1.steps hstep, hs.2.steps hs.1 hstep⟩
  · exact hs.1.truthful_step hs.2 htruth hstep

/-- The idle task yields with an empty queue, and two tasks are spawned. -/
def yieldAlone : List (Transition Scheduler SchedEvent) :=
  [⟨.withIdle, .yieldNow 0x9000, .withIdle⟩, ⟨.withIdle, .spawn 0x100000, oneWorker⟩,
    ⟨oneWorker, .spawn 0x200000, (oneWorker.spawn 0x200000).1⟩]

/-- The yield leaves the idle task running, and the spawned tasks are reported as ready. -/
theorem truthful_iff_yieldAlone :
    Run Scheduler.Steps Scheduler.withIdle yieldAlone (oneWorker.spawn 0x200000).1 ∧
      Scheduler.withIdle.Truthful ∧ ∀ x ∈ yieldAlone, x.post.Truthful := by
  have hrun : Run Scheduler.Steps Scheduler.withIdle yieldAlone (oneWorker.spawn 0x200000).1 :=
    .cons ⟨trivial, none, by decide⟩ <| .cons ⟨trivial, none, by decide⟩ <|
      .cons ⟨trivial, none, by decide⟩ (.nil _)
  refine ⟨hrun, (truthful_iff _ _ hrun).mpr fun x hx => ?_⟩
  simp only [yieldAlone, List.mem_cons, List.not_mem_nil, or_false] at hx
  rcases hx with rfl | rfl | rfl
  · exact fun hleaves => hleaves.2 rfl
  · exact id
  · exact id

/-- With a worker on the CPU the task list shows the idle task as running, too. -/
theorem idle_reported_running : Reachable Scheduler.Steps Scheduler.withIdle workerRunning ∧
    workerRunning.snapshot = [(0, .running, false), (1, .running, true)] ∧
    ¬ workerRunning.Truthful := by
  refine ⟨⟨_, run_workerRunning⟩, by decide, fun h => ?_⟩
  exact absurd ((h 0).mp rfl) (by decide)

end ZiranOS
