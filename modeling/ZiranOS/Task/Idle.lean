import ZiranOS.Task.Runnable

/-!
# When the idle task runs

The idle task is meant to be resumed only when nothing else is runnable.  `yieldNow` pops the next
task before it puts the outgoing one back, so a worker that yields while the queue is empty hands
the CPU to the idle task although it is runnable itself.  `idle_runs_last_iff` says that this is
the only way in which a run breaks the rule.
-/

namespace ZiranOS

open ProgLib

/-- After a yield that leaves the idle task running, no other task is unfinished. -/
def IdleRunsLast (x : Transition Scheduler SchedEvent) : Prop :=
  (∀ base, x.event ≠ .spawn base) → x.post.current = idle → ∀ i, i ≠ idle → ¬ x.post.Live i

/-- A task other than the idle task yields, or is preempted, while nobody is queued. -/
def Scheduler.YieldsAlone (s : Scheduler) : SchedEvent → Prop
  | .yieldNow _ | .preempt _ => s.current ≠ idle ∧ s.ready = []
  | .spawn _ | .taskExit _ => False

instance (s : Scheduler) : (e : SchedEvent) → Decidable (s.YieldsAlone e)
  | .yieldNow _ | .preempt _ => inferInstanceAs (Decidable (s.current ≠ idle ∧ s.ready = []))
  | .spawn _ | .taskExit _ => .isFalse id

namespace Scheduler

/-- While the idle task runs, some other task is unfinished exactly when the queue is not empty. -/
lemma Sound.queue_eq_nil_iff {s : Scheduler} (h : Sound s) (hidle : s.current = ZiranOS.idle) :
    s.ready = [] ↔ ∀ i, i ≠ ZiranOS.idle → ¬ s.Live i := by
  constructor
  · intro hnil i hne hlive
    have hmem := h.mem_of_live i hne (hidle ▸ hne) hlive
    simp [hnil] at hmem
  · intro hall
    apply List.eq_nil_iff_forall_not_mem.mpr
    intro i hi
    exact hall i (h.of_mem i hi).1 (h.of_mem i hi).2

/-- The idle task is next exactly when nobody is queued. -/
lemma QueueOk.next_eq_idle_iff {s : Scheduler} (h : QueueOk s) :
    s.next = ZiranOS.idle ↔ s.ready = [] := by
  cases hready : s.ready with
  | nil => simp [next, hready]
  | cons t ts =>
    have := (h.of_mem t (by simp [hready])).1
    simpa [next, hready] using this

/-- A yield leaves the idle task running exactly when nobody was queued; the queue is then empty
unless the outgoing task was put back into it. -/
lemma Sound.yieldNow_idle {s t : Scheduler} {sp : ℕ} {switch : Option (ℕ × ℕ)} (h : Sound s)
    (hrun : s.yieldNow sp = .ok (t, switch)) :
    (t.current = ZiranOS.idle ↔ s.ready = []) ∧
      (s.ready = [] → (t.ready = [] ↔ s.current = ZiranOS.idle)) := by
  obtain ⟨t', switch', hrun', -, hcase⟩ := h.toQueueOk.yieldNow sp
  obtain ⟨rfl, rfl⟩ := Prod.mk.inj (Except.ok.inj (hrun.symm.trans hrun'))
  rcases hcase with ⟨-, rfl, hnil, hcur⟩ | ⟨newSp, -, hnext, -, hready⟩
  · exact ⟨iff_of_true hcur hnil, fun _ => iff_of_true hnil hcur⟩
  · rw [hnext, h.toQueueOk.next_eq_idle_iff]
    refine ⟨Iff.rfl, fun hnil => ?_⟩
    rw [hready, hnil, List.tail_nil, List.nil_append, List.eq_nil_iff_forall_not_mem]
    constructor
    · intro hno
      by_contra hne
      exact hno _ ((mem_requeued h.current_lt).mpr ⟨rfl, hne, h.current_live⟩)
    · intro hcur i hi
      exact ((mem_requeued h.current_lt).mp hi).2.1 hcur

/-- One step keeps the rule exactly when no task yields alone. -/
lemma Sound.idleRunsLast_iff {s t : Scheduler} {e : SchedEvent} (h : Sound s)
    (hstep : Steps s e t) : IdleRunsLast ⟨s, e, t⟩ ↔ ¬ s.YieldsAlone e := by
  have ht := h.steps hstep
  obtain ⟨he, switch, hrun⟩ := hstep
  have hyield : ∀ sp, s.yieldNow sp = .ok (t, switch) →
      ((t.current = ZiranOS.idle → ∀ i, i ≠ ZiranOS.idle → ¬ t.Live i) ↔
        ¬ (s.current ≠ ZiranOS.idle ∧ s.ready = [])) := by
    intro sp hrun
    obtain ⟨hidle, hqueue⟩ := h.yieldNow_idle hrun
    constructor
    · rintro hrule ⟨hne, hnil⟩
      have hcur := hidle.mpr hnil
      exact hne ((hqueue hnil).mp ((ht.queue_eq_nil_iff hcur).mpr (hrule hcur)))
    · intro hno hcur
      have hnil := hidle.mp hcur
      refine (ht.queue_eq_nil_iff hcur).mp ((hqueue hnil).mpr ?_)
      by_contra hne
      exact hno ⟨hne, hnil⟩
  cases e with
  | spawn base =>
    refine iff_of_true (fun hno => ?_) id
    exact absurd rfl (hno base)
  | yieldNow sp => simpa [IdleRunsLast, YieldsAlone] using hyield sp hrun
  | preempt sp => simpa [IdleRunsLast, YieldsAlone] using hyield sp hrun
  | taskExit sp =>
    refine iff_of_true (fun _ hidle => ?_) id
    obtain ⟨t', newSp, hrun', -, hnext, -, hready⟩ := h.taskExit he sp
    obtain ⟨rfl, -⟩ := Prod.mk.inj (Except.ok.inj (hrun.symm.trans hrun'))
    have hnil := h.toQueueOk.next_eq_idle_iff.mp (hnext ▸ hidle)
    apply (ht.queue_eq_nil_iff hidle).mp
    rw [hready, hnil, List.tail_nil]

end Scheduler

/-- **When the idle task runs only last.**  In every run from the initial scheduler, each yield
that leaves the idle task running finds every other task finished if and only if no task other
than the idle task yields, or is preempted, while the queue is empty. -/
theorem idle_runs_last_iff (tr : List (Transition Scheduler SchedEvent)) (s : Scheduler)
    (h : Run Scheduler.Steps Scheduler.withIdle tr s) :
    (∀ x ∈ tr, IdleRunsLast x) ↔ ∀ x ∈ tr, ¬ x.pre.YieldsAlone x.event := by
  refine forall₂_congr fun x hx => ?_
  obtain ⟨hstep, hreach⟩ := h.mem hx
  exact (Scheduler.sound_of_reachable hreach).idleRunsLast_iff hstep

/-- The worker has retired and the idle task is running again. -/
def workerRetired : Scheduler :=
  ⟨[⟨0, .running, 0x9000⟩, ⟨1, .finished, 0x103F00⟩], [], 0⟩

/-- In the run in which the one worker exits, the idle task runs last. -/
theorem idle_runs_last_workerRetired :
    IdleRunsLast ⟨workerRunning, .taskExit 0x103F00, workerRetired⟩ := by
  have hexit : Scheduler.Steps workerRunning (.taskExit 0x103F00) workerRetired :=
    ⟨by decide, some (1, 0x9000), by decide⟩
  refine (idle_runs_last_iff _ workerRetired (run_workerRunning.append (.cons hexit (.nil _)))).mpr
    (fun x hx => ?_) _ (by simp)
  simp only [List.cons_append, List.nil_append, List.mem_cons, List.not_mem_nil, or_false] at hx
  rcases hx with rfl | rfl | rfl <;> decide

/-- The worker has yielded to the idle task and is queued. -/
def workerQueued : Scheduler := ⟨[⟨0, .running, 0x9000⟩, ⟨1, .ready, 0x103F00⟩], [1], 0⟩

/-- The one worker yields with nobody queued: the idle task runs although the worker has not
finished. -/
theorem idle_runs_early : ¬ ∀ tr s, Run Scheduler.Steps Scheduler.withIdle tr s →
    ∀ x ∈ tr, IdleRunsLast x := by
  intro h
  have hyield : Scheduler.Steps workerRunning (.yieldNow 0x103F00) workerQueued :=
    ⟨trivial, some (1, 0x9000), by decide⟩
  have hrule := h _ _ (run_workerRunning.append (.cons hyield (.nil _))) _
    (List.mem_append_right _ List.mem_cons_self)
  exact hrule (by simp) rfl 1 (by decide) ⟨.ready, rfl, by decide⟩

end ZiranOS
