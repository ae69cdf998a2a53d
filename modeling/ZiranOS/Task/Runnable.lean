import ZiranOS.Task.Scheduler

/-!
# No task is lost or duplicated

The purpose of the scheduler is to keep every unfinished task runnable exactly once.  `QueueOk`
says this of the ready queue: it enumerates, without repetition, the live tasks other than the
idle task and the running one.  It survives the moment inside `task_exit` where the running task
is already finished; in between the operations the running task is live as well (`Sound`).

What a yield does is said once (`yieldNow_self`, `yieldNow_switch`), and every property of the
operations is derived from that.
-/

namespace ZiranOS

open ProgLib

namespace Scheduler

/-! ## Reading the task table -/

/-- The state of the task with index `i`, if there is one. -/
def stateAt (s : Scheduler) (i : ℕ) : Option State := s.tasks[i]?.map Task.state

/-- The task with index `i` exists and has not finished. -/
def Live (s : Scheduler) (i : ℕ) : Prop := ∃ state, s.stateAt i = some state ∧ state ≠ .finished

/-- The next task to run: the head of the queue, or the idle task. -/
def next (s : Scheduler) : ℕ := s.ready.headD ZiranOS.idle

/-- The outgoing task as it is put back: not the idle task, and not a finished one. -/
def requeued (s : Scheduler) : List ℕ :=
  if s.current = ZiranOS.idle ∨ s.stateAt s.current = some .finished then [] else [s.current]

/-- A task with an index in range has a state. -/
lemma stateAt_isSome {s : Scheduler} {i : ℕ} : (s.stateAt i).isSome ↔ i < s.tasks.length := by
  simp [stateAt]

/-- A live task has an index in range. -/
lemma Live.lt {s : Scheduler} {i : ℕ} (h : s.Live i) : i < s.tasks.length := by
  obtain ⟨state, hstate, -⟩ := h
  exact stateAt_isSome.mp (by rw [hstate]; rfl)

/-- Setting the state of a task in range changes that entry only. -/
lemma setState_eq {s : Scheduler} {i : ℕ} (h : i < s.tasks.length) (state : State) :
    ∃ s', s.setState i state = .ok s' ∧ s'.ready = s.ready ∧ s'.current = s.current ∧
      s'.tasks.length = s.tasks.length ∧
      ∀ j, s'.stateAt j = if j = i then some state else s.stateAt j := by
  refine ⟨_, if_pos h, rfl, rfl, List.length_modify .., fun j => ?_⟩
  simp only [stateAt, List.getElem?_modify]
  split_ifs with hij hji hji
  · subst hji
    simp [h]
  · exact absurd hij.symm hji
  · exact absurd hji.symm hij
  · simp

/-- Storing a stack pointer changes no state. -/
lemma setSavedSp_eq {s : Scheduler} {i : ℕ} (h : i < s.tasks.length) (sp : ℕ) :
    ∃ s', s.setSavedSp i sp = .ok s' ∧ s'.ready = s.ready ∧ s'.current = s.current ∧
      s'.tasks.length = s.tasks.length ∧ ∀ j, s'.stateAt j = s.stateAt j := by
  refine ⟨_, if_pos h, rfl, rfl, List.length_modify .., fun j => ?_⟩
  simp only [stateAt, List.getElem?_modify]
  split_ifs with hij
  · subst hij
    simp [Function.comp_def]
  · simp

/-- A task in range is read without a fault. -/
lemma task_eq {s : Scheduler} {i : ℕ} (h : i < s.tasks.length) :
    ∃ t, s.task i = .ok t ∧ s.stateAt i = some t.state := by
  refine ⟨s.tasks[i], ?_, ?_⟩
  · simp [task, h]
  · simp [stateAt, h]

/-! ## What a yield does -/

/-- Requeuing appends the outgoing task, made ready, or changes nothing. -/
lemma requeue_eq {s : Scheduler} (r : List ℕ) (h : s.current < s.tasks.length) :
    ∃ s', ({ s with ready := r } : Scheduler).requeue s.current = .ok s' ∧
      s'.ready = r ++ s.requeued ∧ s'.current = s.current ∧ s'.tasks.length = s.tasks.length ∧
      ∀ j, s'.stateAt j = if j ∈ s.requeued then some .ready else s.stateAt j := by
  by_cases hidle : s.current = ZiranOS.idle
  · refine ⟨{ s with ready := r }, if_pos hidle, ?_, rfl, rfl, fun j => ?_⟩
    · simp [requeued, hidle]
    · simp only [requeued, hidle, true_or, if_true, List.not_mem_nil, if_false]
      rfl
  · obtain ⟨t, htask, hstate⟩ := task_eq (s := { s with ready := r }) h
    have hstate' : s.stateAt s.current = some t.state := hstate
    by_cases hfin : t.state = .finished
    · refine ⟨{ s with ready := r }, ?_, ?_, rfl, rfl, fun j => ?_⟩
      · simp only [requeue, if_neg hidle, htask, Exec.bind_ok, if_pos hfin]
        rfl
      · simp [requeued, hstate', hfin]
      · simp only [requeued, hstate', hfin, or_true, if_true, List.not_mem_nil, if_false]
        rfl
    · obtain ⟨s', hset, hr, hc, hl, hst⟩ := setState_eq (s := { s with ready := r }) h .ready
      have hreq : s.requeued = [s.current] := by
        rw [requeued, if_neg]
        rintro (h | h)
        · exact hidle h
        · exact hfin (Option.some.inj (hstate'.symm.trans h))
      refine ⟨{ s' with ready := s'.ready ++ [s.current] }, ?_, ?_, hc, hl, fun j => ?_⟩
      · simp only [requeue, if_neg hidle, htask, Exec.bind_ok, if_neg hfin, hset]
        rfl
      · rw [hreq, hr]
      · rw [hreq]
        simp only [List.mem_singleton]
        exact hst j

/-- A yield with nobody else to run changes nothing. -/
lemma yieldNow_self {s : Scheduler} (sp : ℕ) (h : s.next = s.current) :
    s.yieldNow sp = .ok ({ s with ready := s.ready.tail }, none) :=
  if_pos h

/-- A yield to another task puts the outgoing task back, makes the next one current and running,
and parks the outgoing one. -/
lemma yieldNow_switch {s : Scheduler} (sp : ℕ) (h : s.next ≠ s.current)
    (hcur : s.current < s.tasks.length) (hnext : s.next < s.tasks.length) :
    ∃ s' newSp, s.yieldNow sp = .ok (s', some (s.current, newSp)) ∧
      s'.ready = s.ready.tail ++ s.requeued ∧ s'.current = s.next ∧
      s'.tasks.length = s.tasks.length ∧
      ∀ j, s'.stateAt j = if j = s.next then some .running
        else if j ∈ s.requeued then some .ready else s.stateAt j := by
  obtain ⟨s₁, hreq, hr₁, hc₁, hl₁, hst₁⟩ := requeue_eq s.ready.tail hcur
  obtain ⟨s₂, hset, hr₂, hc₂, hl₂, hst₂⟩ :=
    setState_eq (s := s₁) (i := s.next) (by omega) .running
  obtain ⟨t, htask, -⟩ := task_eq (s := { s₂ with current := s.next }) (i := s.next)
    (show s.next < s₂.tasks.length by omega)
  obtain ⟨s₃, hsp, hr₃, hc₃, hl₃, hst₃⟩ := setSavedSp_eq (s := { s₂ with current := s.next })
    (i := s.current) (show s.current < s₂.tasks.length by omega) sp
  refine ⟨s₃, t.savedSp, ?_, ?_, hc₃, ?_, fun j => ?_⟩
  · have hne : ¬ s.ready.headD ZiranOS.idle = s.current := h
    unfold next at hset htask hsp
    unfold yieldNow
    simp only [if_neg hne, hreq, Exec.bind_ok, hset, htask, hsp]
    rfl
  · rw [hr₃, show ({ s₂ with current := s.next } : Scheduler).ready = s₂.ready from rfl, hr₂, hr₁]
  · exact hl₃.trans (hl₂.trans hl₁)
  · rw [hst₃, show ({ s₂ with current := s.next } : Scheduler).stateAt j = s₂.stateAt j from rfl,
      hst₂, hst₁]

/-- The outgoing task is put back exactly when it is a live task other than the idle task. -/
lemma mem_requeued {s : Scheduler} (h : s.current < s.tasks.length) {i : ℕ} :
    i ∈ s.requeued ↔ i = s.current ∧ s.current ≠ ZiranOS.idle ∧ s.Live s.current := by
  obtain ⟨state, hstate⟩ := Option.isSome_iff_exists.mp (stateAt_isSome.mpr h)
  simp only [requeued, Live, hstate, Option.some.injEq, exists_eq_left']
  split_ifs with hcond
  · simp only [List.not_mem_nil, false_iff]
    tauto
  · simp only [List.mem_singleton]
    tauto

/-! ## The invariant -/

/-- The ready queue enumerates the live tasks other than the idle task and the running one. -/
structure QueueOk (s : Scheduler) : Prop where
  /-- The running task is in the table. -/
  current_lt : s.current < s.tasks.length
  /-- The idle task never finishes. -/
  idle_live : s.Live ZiranOS.idle
  /-- No task is queued twice. -/
  nodup : s.ready.Nodup
  /-- The running task is not queued. -/
  current_notMem : s.current ∉ s.ready
  /-- Only live tasks are queued, and never the idle task. -/
  of_mem : ∀ i ∈ s.ready, i ≠ ZiranOS.idle ∧ s.Live i
  /-- Every other live task is queued. -/
  mem_of_live : ∀ i, i ≠ ZiranOS.idle → i ≠ s.current → s.Live i → i ∈ s.ready

/-- The invariant between two operations: the queue is as it should be and the running task is
live. -/
structure Sound (s : Scheduler) : Prop extends QueueOk s where
  /-- The running task has not finished. -/
  current_live : s.Live s.current

/-- The next task to run is live. -/
lemma QueueOk.next_live {s : Scheduler} (h : QueueOk s) : s.Live s.next := by
  cases hready : s.ready with
  | nil => simpa [next, hready] using h.idle_live
  | cons t ts =>
    have := (h.of_mem t (by simp [hready])).2
    simpa [next, hready] using this

/-- Only the idle task can be next while it is running, and then nobody is queued. -/
lemma QueueOk.next_eq_current_iff {s : Scheduler} (h : QueueOk s) :
    s.next = s.current ↔ s.ready = [] ∧ s.current = ZiranOS.idle := by
  cases hready : s.ready with
  | nil => simp [next, hready, eq_comm]
  | cons t ts =>
    have hmem : t ∈ s.ready := by simp [hready]
    simp only [next, hready, List.headD_cons, reduceCtorEq, false_and, iff_false]
    rintro rfl
    exact h.current_notMem hmem

/-- The next task is the head of the queue, if there is one. -/
lemma ready_eq (s : Scheduler) : s.ready = [] ∨ s.ready = s.next :: s.ready.tail := by
  cases hready : s.ready <;> simp [next, hready]

/-- The next task is not queued a second time. -/
lemma QueueOk.tail {s : Scheduler} (h : QueueOk s) :
    s.ready.tail.Nodup ∧ s.next ∉ s.ready.tail := by
  rcases s.ready_eq with hnil | hcons
  · simp [hnil]
  · have := h.nodup
    rw [hcons, List.nodup_cons] at this
    exact ⟨this.2, this.1⟩

/-- A switch keeps every task live or finished: the new states are live, and are given to tasks
that were live before. -/
lemma QueueOk.live_iff {s s' : Scheduler} (h : QueueOk s)
    (hst : ∀ j, s'.stateAt j = if j = s.next then some .running
      else if j ∈ s.requeued then some .ready else s.stateAt j) (i : ℕ) :
    s'.Live i ↔ s.Live i := by
  by_cases hn : i = s.next
  · refine iff_of_true ⟨.running, by rw [hst, if_pos hn], by decide⟩ (hn ▸ h.next_live)
  · by_cases hi : i ∈ s.requeued
    · obtain ⟨rfl, -, hcur⟩ := (mem_requeued h.current_lt).mp hi
      exact iff_of_true ⟨.ready, by rw [hst, if_neg hn, if_pos hi], by decide⟩ hcur
    · simp only [Live, hst, if_neg hn, if_neg hi]

/-- **A yield restores the invariant**, also when the running task has just finished; it never
faults, dispatches a live task, and switches unless the idle task yields into an empty queue. -/
lemma QueueOk.yieldNow {s : Scheduler} (h : QueueOk s) (sp : ℕ) :
    ∃ s' switch, s.yieldNow sp = .ok (s', switch) ∧ Sound s' ∧
      ((switch = none ∧ s' = s ∧ s.ready = [] ∧ s.current = ZiranOS.idle) ∨
        ∃ newSp, switch = some (s.current, newSp) ∧ s'.current = s.next ∧
          s'.current ≠ s.current ∧ s'.ready = s.ready.tail ++ s.requeued) := by
  by_cases hself : s.next = s.current
  · obtain ⟨hready, hidle⟩ := h.next_eq_current_iff.mp hself
    have hsame : ({ s with ready := s.ready.tail } : Scheduler) = s := by
      cases s
      simp_all
    refine ⟨s, none, by rw [yieldNow_self sp hself, hsame], ⟨h, ?_⟩,
      Or.inl ⟨rfl, rfl, hready, hidle⟩⟩
    rw [hidle]
    exact h.idle_live
  · obtain ⟨s', newSp, hrun, hr, hc, hl, hst⟩ :=
      yieldNow_switch sp hself h.current_lt h.next_live.lt
    have hreq := fun i => mem_requeued h.current_lt (i := i)
    have hlive := h.live_iff hst
    have htail := h.tail
    refine ⟨s', _, hrun, ⟨⟨?_, ?_, ?_, ?_, ?_, ?_⟩, ?_⟩, Or.inr ⟨newSp, rfl, hc, hc ▸ hself, hr⟩⟩
    · rw [hc, hl]
      exact h.next_live.lt
    · exact (hlive _).mpr h.idle_live
    · rw [hr]
      refine List.nodup_append'.mpr ⟨htail.1, ?_, fun i hi hi' => ?_⟩
      · rw [requeued]
        split_ifs <;> simp
      · exact h.current_notMem (((hreq i).mp hi').1 ▸ List.mem_of_mem_tail hi)
    · rw [hc, hr, List.mem_append, hreq]
      rintro (hmem | ⟨heq, -⟩)
      · exact htail.2 hmem
      · exact hself heq
    · intro i hi
      rw [hr, List.mem_append, hreq] at hi
      rw [hlive]
      rcases hi with hi | ⟨rfl, hne, hcur⟩
      · exact h.of_mem i (List.mem_of_mem_tail hi)
      · exact ⟨hne, hcur⟩
    · intro i hne hnext hi
      rw [hlive] at hi
      rw [hr, List.mem_append, hreq]
      by_cases hcur : i = s.current
      · exact Or.inr ⟨hcur, hcur ▸ hne, hcur ▸ hi⟩
      · have hmem := h.mem_of_live i hne hcur hi
        rcases s.ready_eq with hnil | hcons
        · simp [hnil] at hmem
        · rw [hcons, List.mem_cons] at hmem
          exact Or.inl (hmem.resolve_left (hc ▸ hnext))
    · rw [hc, hlive]
      exact h.next_live

/-! ## The operations keep the invariant -/

/-- The initial scheduler satisfies the invariant. -/
lemma sound_withIdle : Sound withIdle := by
  have hidle : withIdle.Live ZiranOS.idle := ⟨.running, rfl, by decide⟩
  refine ⟨⟨by decide, hidle, List.nodup_nil, by simp [withIdle], by simp [withIdle], ?_⟩, hidle⟩
  intro i hne _ hi
  have := hi.lt
  simp only [withIdle, List.length_singleton] at this
  exact absurd (Nat.lt_one_iff.mp this) hne

/-- A spawn adds the new task to the table and to the queue, and keeps the invariant. -/
lemma Sound.spawn {s : Scheduler} (h : Sound s) (base : ℕ) : Sound (s.spawn base).1 := by
  have hold : ∀ i < s.tasks.length, (s.spawn base).1.stateAt i = s.stateAt i := by
    intro i hi
    simp [stateAt, Scheduler.spawn, List.getElem?_append_left hi]
  have hnew : (s.spawn base).1.stateAt s.tasks.length = some .ready := by
    simp [stateAt, Scheduler.spawn, Task.new]
  have hlive : ∀ i, (s.spawn base).1.Live i ↔ i = s.tasks.length ∨ s.Live i := by
    intro i
    rcases lt_trichotomy i s.tasks.length with hi | rfl | hi
    · simp only [Live, hold i hi, hi.ne, false_or]
    · exact iff_of_true ⟨.ready, hnew, by decide⟩ (Or.inl rfl)
    · refine iff_of_false (fun hl => ?_) (not_or.mpr ⟨hi.ne', fun hl => by have := hl.lt; omega⟩)
      have := hl.lt
      simp only [Scheduler.spawn, List.length_append, List.length_singleton] at this
      omega
  have hlen : s.tasks.length ∉ s.ready := fun hmem => (h.of_mem _ hmem).2.lt.false
  refine ⟨⟨?_, (hlive _).mpr (Or.inr h.idle_live), ?_, ?_, ?_, ?_⟩,
    (hlive _).mpr (Or.inr h.current_live)⟩
  · have := h.current_lt
    simp only [Scheduler.spawn, List.length_append, List.length_singleton]
    omega
  · refine List.nodup_append'.mpr ⟨h.nodup, List.nodup_singleton _, fun i hi hi' => ?_⟩
    exact hlen (List.mem_singleton.mp hi' ▸ hi)
  · simp only [Scheduler.spawn, List.mem_append, List.mem_singleton, not_or]
    exact ⟨h.current_notMem, h.current_lt.ne⟩
  · intro i hi
    simp only [Scheduler.spawn, List.mem_append, List.mem_singleton] at hi
    rw [hlive]
    rcases hi with hi | rfl
    · exact ⟨(h.of_mem i hi).1, Or.inr (h.of_mem i hi).2⟩
    · exact ⟨(lt_of_le_of_lt (Nat.zero_le _) h.current_lt).ne', Or.inl rfl⟩
  · intro i hne hcur hi
    simp only [Scheduler.spawn, List.mem_append, List.mem_singleton]
    rcases (hlive i).mp hi with hi | hi
    · exact Or.inr hi
    · exact Or.inl (h.mem_of_live i hne hcur hi)

/-- Marking the running task as finished leaves the queue as it should be. -/
lemma Sound.retire {s : Scheduler} (h : Sound s) (hne : s.current ≠ ZiranOS.idle) :
    ∃ s', s.setState s.current .finished = .ok s' ∧ QueueOk s' ∧ s'.current = s.current ∧
      s'.ready = s.ready ∧ s'.requeued = [] := by
  obtain ⟨s', hrun, hr, hc, hl, hst⟩ := setState_eq h.current_lt .finished
  have hlive : ∀ i, s'.Live i ↔ i ≠ s.current ∧ s.Live i := by
    intro i
    by_cases hi : i = s.current
    · refine iff_of_false ?_ (fun hl => hl.1 hi)
      rintro ⟨state, hstate, hfin⟩
      rw [hst, if_pos hi] at hstate
      exact hfin (Option.some.inj hstate).symm
    · have hsame : s'.stateAt i = s.stateAt i := by rw [hst, if_neg hi]
      simp only [Live, hsame, ne_eq, hi, not_false_iff, true_and]
  refine ⟨s', hrun, ⟨?_, ?_, ?_, ?_, ?_, ?_⟩, hc, hr, ?_⟩
  · rw [hc, hl]
    exact h.current_lt
  · exact (hlive _).mpr ⟨hne.symm, h.idle_live⟩
  · rw [hr]
    exact h.nodup
  · rw [hc, hr]
    exact h.current_notMem
  · intro i hi
    rw [hr] at hi
    refine ⟨(h.of_mem i hi).1, (hlive i).mpr ⟨?_, (h.of_mem i hi).2⟩⟩
    rintro rfl
    exact h.current_notMem hi
  · intro i hidle hcur hi
    rw [hr]
    exact h.mem_of_live i hidle (hc ▸ hcur) ((hlive i).mp hi).2
  · rw [requeued, hst, hc, if_pos rfl, if_pos (Or.inr rfl)]

/-- An exit of a task other than the idle task keeps the invariant: it never faults and always
switches, to a task that was live before. -/
lemma Sound.taskExit {s : Scheduler} (h : Sound s) (hne : s.current ≠ ZiranOS.idle) (sp : ℕ) :
    ∃ s' newSp, s.taskExit sp = .ok (s', some (s.current, newSp)) ∧ Sound s' ∧
      s'.current = s.next ∧ s'.current ≠ s.current ∧ s'.ready = s.ready.tail := by
  obtain ⟨s₁, hset, hok, hc, hr, hreq⟩ := h.retire hne
  obtain ⟨s', switch, hrun, hs', hcase⟩ := hok.yieldNow sp
  have hexit : s.taskExit sp = .ok (s', switch) := by
    rw [Scheduler.taskExit, hset, Exec.bind_ok, hrun]
  rcases hcase with ⟨-, -, -, hidle⟩ | ⟨newSp, rfl, hnext, hcur, hready⟩
  · exact absurd (hc ▸ hidle) hne
  · rw [hc] at hexit hcur
    refine ⟨s', newSp, hexit, hs', ?_, hcur, ?_⟩
    · rw [hnext, next, next, hr]
    · rw [hready, hreq, List.append_nil, hr]

/-- **Every allowed event runs without a fault and keeps the invariant.**  A switch always leaves
the running task for another one that was live; no switch leaves the running task as it is. -/
lemma Sound.step {s : Scheduler} (h : Sound s) {e : SchedEvent} (he : s.Allowed e) :
    ∃ t switch, s.step e = .ok (t, switch) ∧ Sound t ∧
      ((switch = none ∧ t.current = s.current) ∨
        ∃ newSp, switch = some (s.current, newSp) ∧ t.current ≠ s.current ∧ s.Live t.current) := by
  have hyield : ∀ sp, ∃ t switch, s.yieldNow sp = .ok (t, switch) ∧ Sound t ∧
      ((switch = none ∧ t.current = s.current) ∨
        ∃ newSp, switch = some (s.current, newSp) ∧ t.current ≠ s.current ∧ s.Live t.current) := by
    intro sp
    obtain ⟨t, switch, hrun, ht, ⟨hnone, rfl, -, -⟩ | ⟨newSp, hsome, hnext, hne, -⟩⟩ :=
      h.toQueueOk.yieldNow sp
    · exact ⟨t, switch, hrun, ht, Or.inl ⟨hnone, rfl⟩⟩
    · exact ⟨t, switch, hrun, ht, Or.inr ⟨newSp, hsome, hne, hnext ▸ h.next_live⟩⟩
  cases e with
  | spawn base => exact ⟨_, none, rfl, h.spawn base, Or.inl ⟨rfl, rfl⟩⟩
  | yieldNow sp => exact hyield sp
  | preempt sp => exact hyield sp
  | taskExit sp =>
    obtain ⟨t, newSp, hrun, ht, hnext, hne, -⟩ := h.taskExit he sp
    exact ⟨t, _, hrun, ht, Or.inr ⟨newSp, rfl, hne, hnext ▸ h.next_live⟩⟩

/-- Every step of the scheduler keeps the invariant. -/
lemma Sound.steps {s t : Scheduler} {e : SchedEvent} (h : Sound s) (hstep : Steps s e t) :
    Sound t := by
  obtain ⟨he, switch, hrun⟩ := hstep
  obtain ⟨t', switch', hrun', ht', -⟩ := h.step he
  obtain ⟨rfl, -⟩ := Prod.mk.inj (Except.ok.inj (hrun.symm.trans hrun'))
  exact ht'

/-- The invariant holds in every reachable state. -/
lemma sound_of_reachable {s : Scheduler} (h : Reachable Steps withIdle s) : Sound s :=
  h.invariant (fun _ _ _ hs hstep => hs.steps hstep) sound_withIdle

end Scheduler

/-- **No task is lost or duplicated.**  In every reachable state the ready queue has no duplicates
and contains neither the idle task nor the running task nor a finished one, every other unfinished
task is in it exactly once, and all indices are in range.  Every further event runs without a
fault; if it switches, it leaves the running task for a different, unfinished task, and if it does
not, the running task stays. -/
theorem ready_queue_exact (s : Scheduler) (h : Reachable Scheduler.Steps Scheduler.withIdle s) :
    s.ready.Nodup ∧ idle ∉ s.ready ∧ s.current ∉ s.ready ∧
      (∀ i ∈ s.ready, s.stateAt i ≠ some .finished) ∧
      (∀ i, i ≠ idle → i ≠ s.current → s.Live i → s.ready.count i = 1) ∧
      s.current < s.tasks.length ∧ (∀ i ∈ s.ready, i < s.tasks.length) ∧
      ∀ e, s.Allowed e → ∃ t switch, s.step e = .ok (t, switch) ∧
        (switch = none → t.current = s.current) ∧
        ∀ old newSp, switch = some (old, newSp) →
          old = s.current ∧ t.current ≠ old ∧ s.Live t.current := by
  have hs := Scheduler.sound_of_reachable h
  refine ⟨hs.nodup, fun hmem => (hs.of_mem _ hmem).1 rfl, hs.current_notMem, fun i hi => ?_,
    fun i hne hcur hi => ?_, hs.current_lt, fun i hi => (hs.of_mem i hi).2.lt, fun e he => ?_⟩
  · obtain ⟨state, hstate, hfin⟩ := (hs.of_mem i hi).2
    rw [hstate]
    exact fun hcon => hfin (Option.some.inj hcon)
  · exact List.count_eq_one_of_mem hs.nodup (hs.mem_of_live i hne hcur hi)
  · obtain ⟨t, switch, hrun, -, ⟨rfl, hcur⟩ | ⟨newSp, rfl, hne, hlive⟩⟩ := hs.step he
    · exact ⟨t, none, hrun, fun _ => hcur, by simp⟩
    · refine ⟨t, _, hrun, by simp, fun old newSp' hsw => ?_⟩
      obtain ⟨rfl, -⟩ := Prod.mk.inj (Option.some.inj hsw)
      exact ⟨rfl, hne, hlive⟩

/-- A worker on a stack at `0x100000`, queued. -/
def oneWorker : Scheduler := ⟨[⟨0, .running, 0⟩, ⟨1, .ready, 0x103FC8⟩], [1], 0⟩

/-- The worker is running, the idle task parked at `0x9000`. -/
def workerRunning : Scheduler := ⟨[⟨0, .running, 0x9000⟩, ⟨1, .running, 0x103FC8⟩], [], 1⟩

/-- The scheduler reaches the state in which its one worker runs. -/
lemma run_workerRunning : Run Scheduler.Steps Scheduler.withIdle
    [⟨Scheduler.withIdle, .spawn 0x100000, oneWorker⟩,
      ⟨oneWorker, .yieldNow 0x9000, workerRunning⟩] workerRunning :=
  .cons ⟨trivial, none, by decide⟩ (.cons ⟨trivial, some (0, 0x103FC8), by decide⟩ (.nil _))

/-- With its one worker running the scheduler has an empty queue and two tasks. -/
theorem ready_queue_exact_workerRunning :
    idle ∉ workerRunning.ready ∧ workerRunning.current < workerRunning.tasks.length :=
  have h := ready_queue_exact workerRunning ⟨_, run_workerRunning⟩
  ⟨h.2.1, h.2.2.2.2.2.1⟩

end ZiranOS
