import ZiranOS.Lib.Deque
import ZiranOS.Task.Waiting

/-!
# The buffer of the ready queue

The ready queue is a growing buffer, and its `push_back` calls the allocator when it finds the
buffer full.  The scheduler is also run by the timer interrupt, which may have stopped a task that
holds the lock of the heap; a call of the allocator would then wait for that task forever.

`DequeScheduler` is the scheduler with the buffer of its queue, and every operation says whether its
`push_back` found the buffer full.  It does what `Scheduler` does (`step_eq`), and a yield never
finds the buffer full, whatever was spawned before and by whom (`yield_never_allocates`).
-/

namespace ZiranOS

open ProgLib

/-- The scheduler, with the buffer of its ready queue. -/
structure DequeScheduler where
  tasks : List Task
  ready : Deque ℕ
  current : ℕ

namespace DequeScheduler

/-- The scheduler without the buffer. -/
def toScheduler (s : DequeScheduler) : Scheduler := ⟨s.tasks, s.ready.items, s.current⟩

/-- The scheduler as `init` installs it. -/
def withIdle : DequeScheduler := ⟨[Task.idle], .empty, ZiranOS.idle⟩

/-- A change of the task table. -/
def onTasks (s : DequeScheduler) (f : Scheduler → Exec Unit Scheduler) :
    Exec Unit DequeScheduler := do
  let t ← f s.toScheduler
  pure { s with tasks := t.tasks }

/-- `ready.push_back(i)`, and whether it found the buffer full. -/
def pushBack (g : Growth) (s : DequeScheduler) (i : ℕ) : DequeScheduler × Bool :=
  ({ s with ready := s.ready.pushBack g i }, s.ready.full)

/-- Create a task on a fresh stack at `base` and enqueue it as ready. -/
def spawn (g : Growth) (s : DequeScheduler) (base : ℕ) : DequeScheduler × Bool :=
  let idx := s.tasks.length
  { s with tasks := s.tasks ++ [Task.new idx base] }.pushBack g idx

/-- Put the outgoing task back into the queue unless it is the idle task or has finished. -/
def requeue (g : Growth) (s : DequeScheduler) (old : ℕ) : Exec Unit (DequeScheduler × Bool) := do
  if old = ZiranOS.idle then
    pure (s, false)
  else if (← s.toScheduler.task old).state = .finished then
    pure (s, false)
  else
    let s ← s.onTasks (·.setState old .ready)
    pure (s.pushBack g old)

/-- Hand the CPU to the next runnable task. -/
def yieldNow (g : Growth) (s : DequeScheduler) (sp : ℕ) :
    Exec Unit (DequeScheduler × Option (ℕ × ℕ) × Bool) := do
  let old := s.current
  let (popped, ready) := s.ready.popFront
  let next := popped.getD ZiranOS.idle
  let s := { s with ready := ready }
  if next = old then
    pure (s, none, false)
  else
    let (s, full) ← s.requeue g old
    let s ← s.onTasks (·.setState next .running)
    let s := { s with current := next }
    let newSp := (← s.toScheduler.task next).savedSp
    let s ← s.onTasks (·.setSavedSp old sp)
    pure (s, some (old, newSp), full)

/-- Preemptive reschedule, driven by the timer interrupt. -/
def preempt (g : Growth) (s : DequeScheduler) (sp : ℕ) :
    Exec Unit (DequeScheduler × Option (ℕ × ℕ) × Bool) := s.yieldNow g sp

/-- Retire the running task and yield. -/
def taskExit (g : Growth) (s : DequeScheduler) (sp : ℕ) :
    Exec Unit (DequeScheduler × Option (ℕ × ℕ) × Bool) := do
  let s ← s.onTasks (·.setState s.current .finished)
  s.yieldNow g sp

/-- The effect of an event, and whether a `push_back` found the buffer full. -/
def step (g : Growth) (s : DequeScheduler) :
    SchedEvent → Exec Unit (DequeScheduler × Option (ℕ × ℕ) × Bool)
  | .spawn base => .ok ((s.spawn g base).1, none, (s.spawn g base).2)
  | .yieldNow sp => s.yieldNow g sp
  | .preempt sp => s.preempt g sp
  | .taskExit sp => s.taskExit g sp

/-- One step, with whether a `push_back` found the buffer full. -/
def Steps (g : Growth) (s : DequeScheduler) (x : SchedEvent × Bool) (t : DequeScheduler) : Prop :=
  s.toScheduler.Allowed x.1 ∧ ∃ switch, s.step g x.1 = .ok (t, switch, x.2)

/-! ## The buffer is invisible to the scheduler -/

variable {g : Growth} {s t : DequeScheduler}

/-- What an operation returns, without the buffer. -/
def erase (r : DequeScheduler × Option (ℕ × ℕ) × Bool) : Scheduler × Option (ℕ × ℕ) :=
  (r.1.toScheduler, r.2.1)

/-- Setting a state touches the table only. -/
lemma setState_fields {u v : Scheduler} {i : ℕ} {state : State} (h : u.setState i state = .ok v) :
    v.ready = u.ready ∧ v.current = u.current := by
  unfold Scheduler.setState at h
  split_ifs at h
  · obtain rfl := Except.ok.inj h
    exact ⟨rfl, rfl⟩
  · cases h

/-- Storing a stack pointer touches the table only. -/
lemma setSavedSp_fields {u v : Scheduler} {i sp : ℕ} (h : u.setSavedSp i sp = .ok v) :
    v.ready = u.ready ∧ v.current = u.current := by
  unfold Scheduler.setSavedSp at h
  split_ifs at h
  · obtain rfl := Except.ok.inj h
    exact ⟨rfl, rfl⟩
  · cases h

/-- A change of the task table is that of the scheduler. -/
lemma onTasks_eq {f : Scheduler → Exec Unit Scheduler}
    (hf : ∀ {u v}, f u = .ok v → v.ready = u.ready ∧ v.current = u.current) (s : DequeScheduler) :
    (s.onTasks f).map toScheduler = f s.toScheduler := by
  unfold onTasks
  cases hrun : f s.toScheduler with
  | error e => rfl
  | ok v =>
    obtain ⟨hready, hcurrent⟩ := hf hrun
    cases v
    exact congrArg Except.ok (congrArg₂ _ hready.symm hcurrent.symm)

/-- Requeuing is that of the scheduler. -/
lemma requeue_eq (g : Growth) (s : DequeScheduler) (old : ℕ) :
    (s.requeue g old).map (fun r => r.1.toScheduler) = s.toScheduler.requeue old := by
  unfold requeue Scheduler.requeue
  split_ifs with hidle
  · rfl
  · refine Exec.map_bind (f := id) (Except.map_id.symm ▸ rfl) fun t => ?_
    dsimp only [id]
    split_ifs with hfin
    · rfl
    · exact Exec.map_bind (onTasks_eq setState_fields s) fun t => rfl

/-- **A yield is that of the scheduler.** -/
lemma yieldNow_eq (g : Growth) (s : DequeScheduler) (sp : ℕ) :
    (s.yieldNow g sp).map erase = s.toScheduler.yieldNow sp := by
  have hnext : s.ready.popFront.1.getD ZiranOS.idle = s.toScheduler.ready.headD ZiranOS.idle :=
    List.headD_eq_head?_getD.symm
  unfold yieldNow Scheduler.yieldNow
  dsimp only
  rw [hnext]
  by_cases hself : s.toScheduler.ready.headD ZiranOS.idle = s.current
  · rw [if_pos hself]
    exact (if_pos hself).symm
  · rw [if_neg hself]
    refine Eq.trans ?_ (if_neg hself).symm
    refine Exec.map_bind (requeue_eq g _ _) fun r => ?_
    refine Exec.map_bind (onTasks_eq setState_fields r.1) fun s₁ => ?_
    refine Exec.map_bind (f := id) (Except.map_id.symm ▸ rfl) fun t => ?_
    exact Exec.map_bind (onTasks_eq setSavedSp_fields _) fun s₂ => rfl

/-- **Every event has the effect it has on the scheduler.** -/
lemma step_eq (g : Growth) (s : DequeScheduler) (e : SchedEvent) :
    (s.step g e).map erase = s.toScheduler.step e := by
  cases e with
  | spawn base => rfl
  | yieldNow sp => exact yieldNow_eq g s sp
  | preempt sp => exact yieldNow_eq g s sp
  | taskExit sp => exact Exec.map_bind (onTasks_eq setState_fields s) fun s₁ => yieldNow_eq g s₁ sp

/-! ## The buffer has room -/

/-- A task other than the idle task came out of the queue, so there is a buffer. -/
def HasRoom (s : DequeScheduler) : Prop := s.current ≠ ZiranOS.idle → 0 < s.ready.cap

/-- A change of the task table leaves the queue. -/
lemma onTasks_ready {f : Scheduler → Exec Unit Scheduler} (h : s.onTasks f = .ok t) :
    t.ready = s.ready ∧ t.current = s.current := by
  obtain ⟨v, -, hret⟩ := Exec.bind_eq_ok.mp h
  obtain rfl := Except.ok.inj hret
  exact ⟨rfl, rfl⟩

/-- Requeuing pushes no task but one other than the idle task. -/
lemma requeue_ready {old : ℕ} {full : Bool} (h : s.requeue g old = .ok (t, full)) :
    s.ready.cap ≤ t.ready.cap ∧ (full = true → old ≠ ZiranOS.idle ∧ s.ready.full = true) := by
  unfold requeue at h
  split_ifs at h with hidle
  · obtain ⟨rfl, rfl⟩ := Prod.mk.inj (Except.ok.inj h)
    exact ⟨le_rfl, fun hf => absurd hf Bool.false_ne_true⟩
  · obtain ⟨task, -, hrest⟩ := Exec.bind_eq_ok.mp h
    split_ifs at hrest with hfin
    · obtain ⟨rfl, rfl⟩ := Prod.mk.inj (Except.ok.inj hrest)
      exact ⟨le_rfl, fun hf => absurd hf Bool.false_ne_true⟩
    · obtain ⟨s₁, hset, hret⟩ := Exec.bind_eq_ok.mp hrest
      obtain ⟨rfl, rfl⟩ := Prod.mk.inj (Except.ok.inj hret)
      obtain ⟨hready, -⟩ := onTasks_ready hset
      rw [← hready]
      exact ⟨Deque.cap_le_pushBack g s₁.ready old, fun hf => ⟨hidle, hf⟩⟩

/-- **A yield finds room in the buffer**: it has taken an element out, or the queue was empty and
the outgoing task once came out of it. -/
lemma HasRoom.yieldNow (h : s.HasRoom) {sp : ℕ} {switch : Option (ℕ × ℕ)} {full : Bool}
    (hrun : s.yieldNow g sp = .ok (t, switch, full)) : full = false ∧ t.HasRoom := by
  unfold DequeScheduler.yieldNow at hrun
  dsimp only at hrun
  split_ifs at hrun with hself
  · obtain ⟨rfl, hrest⟩ := Prod.mk.inj (Except.ok.inj hrun)
    exact ⟨(Prod.mk.inj hrest).2.symm, h⟩
  · obtain ⟨⟨s₁, full₁⟩, hreq, hrun⟩ := Exec.bind_eq_ok.mp hrun
    obtain ⟨s₂, hset, hrun⟩ := Exec.bind_eq_ok.mp hrun
    obtain ⟨task, -, hrun⟩ := Exec.bind_eq_ok.mp hrun
    obtain ⟨s₃, hsp, hret⟩ := Exec.bind_eq_ok.mp hrun
    obtain ⟨rfl, hrest⟩ := Prod.mk.inj (Except.ok.inj hret)
    obtain rfl := (Prod.mk.inj hrest).2
    obtain ⟨hcap, hfull⟩ := requeue_ready hreq
    obtain ⟨hready₂, -⟩ := onTasks_ready hset
    obtain ⟨hready₃, hcurrent₃⟩ := onTasks_ready hsp
    dsimp only at hcap hfull hready₂ hready₃ hcurrent₃
    rw [Deque.cap_popFront] at hcap
    constructor
    · by_contra hno
      obtain ⟨hidle, hpopped⟩ := hfull (Bool.not_eq_false _ ▸ hno)
      by_cases hitems : s.ready.items = []
      · have hpos := h hidle
        have hempty : s.ready.popFront.2.full = false := by
          rw [Deque.full_eq_false, Deque.items_popFront, hitems]
          exact hpos
        exact absurd (hempty.symm.trans hpopped) Bool.false_ne_true
      · exact absurd ((Deque.not_full_popFront hitems).symm.trans hpopped) Bool.false_ne_true
    · intro hidle
      rw [hcurrent₃] at hidle
      rw [hready₃, hready₂]
      -- the next task came out of the queue
      have hitems : s.ready.items ≠ [] := by
        intro hnil
        refine hidle ?_
        rw [Deque.popFront_fst, hnil]
        rfl
      exact (Deque.cap_pos hitems).trans_le hcap

/-- Every step keeps the room, and a yield finds it. -/
lemma HasRoom.step (h : s.HasRoom) {e : SchedEvent} {switch : Option (ℕ × ℕ)} {full : Bool}
    (hrun : s.step g e = .ok (t, switch, full)) :
    (e.yields = true → full = false) ∧ t.HasRoom := by
  cases e with
  | spawn base =>
    obtain ⟨rfl, -⟩ := Prod.mk.inj (Except.ok.inj hrun)
    exact ⟨fun he => absurd he Bool.false_ne_true, fun _ => Deque.cap_pushBack_pos g _ _⟩
  | yieldNow sp | preempt sp =>
    obtain ⟨hfull, ht⟩ := h.yieldNow hrun
    exact ⟨fun _ => hfull, ht⟩
  | taskExit sp =>
    obtain ⟨s₁, hset, hrun⟩ := Exec.bind_eq_ok.mp hrun
    obtain ⟨hready, hcurrent⟩ := onTasks_ready hset
    have h₁ : s₁.HasRoom := by
      rw [HasRoom, hready, hcurrent]
      exact h
    obtain ⟨hfull, ht⟩ := h₁.yieldNow hrun
    exact ⟨fun _ => hfull, ht⟩

/-- A reachable state is one of the scheduler, and its buffer has room. -/
lemma sound_of_reachable (h : Reachable (Steps g) withIdle s) :
    s.toScheduler.Sound ∧ s.HasRoom := by
  refine h.invariant (I := fun s => s.toScheduler.Sound ∧ s.HasRoom) ?_
    ⟨Scheduler.sound_withIdle, fun hidle => absurd rfl hidle⟩
  rintro s ⟨e, full⟩ t ⟨hsound, hroom⟩ ⟨hallowed, switch, hrun⟩
  have hstep := step_eq g s e
  rw [hrun] at hstep
  exact ⟨hsound.steps ⟨hallowed, switch, hstep.symm⟩, (hroom.step hrun).2⟩

end DequeScheduler

/-- **A context switch never allocates.**  In every reachable state every event runs and has the
effect it has without the buffer, and in a yield, a preemption or the end of a task the `push_back`
does not find the buffer full, however the buffer grows. -/
theorem yield_never_allocates (g : Growth) (s : DequeScheduler)
    (h : Reachable (DequeScheduler.Steps g) DequeScheduler.withIdle s) (e : SchedEvent)
    (he : s.toScheduler.Allowed e) :
    ∃ t switch full, s.step g e = .ok (t, switch, full) ∧
      s.toScheduler.step e = .ok (t.toScheduler, switch) ∧ (e.yields = true → full = false) := by
  obtain ⟨hsound, hroom⟩ := DequeScheduler.sound_of_reachable h
  obtain ⟨u, switch', hu, -⟩ := hsound.step he
  have hstep := DequeScheduler.step_eq g s e
  cases hrun : s.step g e with
  | error a =>
    rw [hrun, hu] at hstep
    cases hstep
  | ok r =>
    obtain ⟨t, switch, full⟩ := r
    rw [hrun] at hstep
    exact ⟨t, switch, full, rfl, hstep.symm, (hroom.step hrun).1⟩

/-- A buffer of at least four elements that doubles. -/
def doubling : Growth where
  next cap := max 4 (2 * cap)
  lt_next cap := by omega

/-- One worker runs and the queue is empty. -/
def workerAlone : DequeScheduler :=
  ⟨[⟨0, .running, 0x9000⟩, ⟨1, .running, 0x103FC8⟩], ⟨[], 4, Nat.zero_le 4⟩, 1⟩

/-- The timer preempts the worker, which is put back without a call of the allocator. -/
theorem yield_never_allocates_workerAlone :
    ∃ t switch, workerAlone.step doubling (.preempt 0x103F00) = .ok (t, switch, false) := by
  have hspawn : DequeScheduler.Steps doubling DequeScheduler.withIdle (.spawn 0x100000, true)
      ⟨[⟨0, .running, 0⟩, ⟨1, .ready, 0x103FC8⟩], ⟨[1], 4, by decide⟩, 0⟩ :=
    ⟨trivial, none, rfl⟩
  have hyield : DequeScheduler.Steps doubling
      ⟨[⟨0, .running, 0⟩, ⟨1, .ready, 0x103FC8⟩], ⟨[1], 4, by decide⟩, 0⟩ (.yieldNow 0x9000, false)
      workerAlone := ⟨trivial, some (0, 0x103FC8), rfl⟩
  obtain ⟨t, switch, full, hstep, -, hfull⟩ := yield_never_allocates doubling workerAlone
    ⟨_, .cons hspawn (.cons hyield (.nil _))⟩ (.preempt 0x103F00) trivial
  rw [hfull rfl] at hstep
  exact ⟨t, switch, hstep⟩

end ZiranOS
