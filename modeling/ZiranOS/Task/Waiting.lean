import ZiranOS.Task.Runnable

/-!
# How long a task waits

A ready task waits for the tasks queued before it and for nothing else.  Every yield, also the one
in `task_exit`, takes the head of the queue and puts the outgoing task behind its end, so it moves
each queued task forward by one place (`Sound.advance`); a new task comes last.  Hence a task at the
place `i` of the queue waits for `i` yields, and the next one makes it current (`bounded_waiting`).
-/

namespace ZiranOS

open ProgLib

/-- The event yields, of its own accord, by preemption or at the end of a task. -/
def SchedEvent.yields : SchedEvent → Bool
  | .spawn _ => false
  | .yieldNow _ | .preempt _ | .taskExit _ => true

/-- The number of yields of a run. -/
def yieldCount (tr : List (Transition Scheduler SchedEvent)) : ℕ :=
  tr.countP fun x => x.event.yields

namespace Scheduler

variable {s t : Scheduler} {e : SchedEvent}

/-- A task waits at a place of the queue. -/
def WaitsAt (s : Scheduler) (i task : ℕ) : Prop := s.current ≠ task ∧ s.ready[i]? = some task

/-- A task at a place of the queue is not running. -/
lemma Sound.waitsAt (h : Sound s) {i task : ℕ} (hi : s.ready[i]? = some task) :
    s.WaitsAt i task := by
  refine ⟨?_, hi⟩
  rintro rfl
  exact h.current_notMem (List.mem_of_getElem? hi)

/-- **A yield takes the head of the queue** and puts nothing before the others. -/
lemma Sound.advance (h : Sound s) (hstep : Steps s e t) (he : e.yields = true)
    (hready : s.ready ≠ []) : t.current = s.next ∧ s.ready.tail <+: t.ready := by
  obtain ⟨hallowed, switch, hrun⟩ := hstep
  have hyield : ∀ sp, s.yieldNow sp = .ok (t, switch) →
      t.current = s.next ∧ s.ready.tail <+: t.ready := by
    intro sp hrun
    obtain ⟨t', switch', hrun', -, ⟨-, -, hnil, -⟩ | ⟨newSp, -, hnext, -, hqueue⟩⟩ :=
      h.toQueueOk.yieldNow sp
    · exact absurd hnil hready
    · obtain ⟨rfl, -⟩ := Prod.mk.inj (Except.ok.inj (hrun.symm.trans hrun'))
      exact ⟨hnext, hqueue ▸ List.prefix_append _ _⟩
  cases e with
  | spawn base => cases he
  | yieldNow sp => exact hyield sp hrun
  | preempt sp => exact hyield sp hrun
  | taskExit sp =>
    obtain ⟨t', newSp, hrun', -, hnext, -, hqueue⟩ := h.taskExit hallowed sp
    obtain ⟨rfl, -⟩ := Prod.mk.inj (Except.ok.inj (hrun.symm.trans hrun'))
    exact ⟨hnext, hqueue ▸ List.prefix_refl _⟩

/-- The head of the queue is the next task to run. -/
lemma next_of_getElem? {task : ℕ} (h : s.ready[0]? = some task) : s.next = task := by
  rw [next, List.headD_eq_head?_getD, List.head?_eq_getElem?, h, Option.getD_some]

/-- A step that is no yield keeps the place of a task. -/
lemma Sound.waitsAt_spawn (h : Sound s) (hstep : Steps s e t) (he : e.yields = false) {i task : ℕ}
    (hw : s.WaitsAt i task) : t.WaitsAt i task := by
  obtain ⟨hlt, -⟩ := List.getElem?_eq_some_iff.mp hw.2
  refine (h.steps hstep).waitsAt ?_
  obtain ⟨-, switch, hrun⟩ := hstep
  cases e with
  | spawn base =>
    obtain ⟨rfl, -⟩ := Prod.mk.inj (Except.ok.inj hrun)
    exact (List.getElem?_append_left hlt).trans hw.2
  | yieldNow | preempt | taskExit => cases he

/-- A yield moves a task one place forward. -/
lemma Sound.waitsAt_yield (h : Sound s) (hstep : Steps s e t) (he : e.yields = true) {i task : ℕ}
    (hw : s.WaitsAt (i + 1) task) : t.WaitsAt i task := by
  have hready : s.ready ≠ [] := by
    intro hnil
    rw [WaitsAt, hnil] at hw
    cases hw.2
  obtain ⟨-, l, hl⟩ := h.advance hstep he hready
  have htail : s.ready.tail[i]? = some task := List.getElem?_tail.trans hw.2
  obtain ⟨hlt, -⟩ := List.getElem?_eq_some_iff.mp htail
  refine (h.steps hstep).waitsAt ?_
  rw [← hl, List.getElem?_append_left hlt, htail]

/-- A yield makes the head of the queue current. -/
lemma Sound.current_of_waitsAt (h : Sound s) (hstep : Steps s e t) (he : e.yields = true)
    {task : ℕ} (hw : s.WaitsAt 0 task) : t.current = task := by
  have hready : s.ready ≠ [] := by
    intro hnil
    rw [WaitsAt, hnil] at hw
    cases hw.2
  exact (h.advance hstep he hready).1.trans (next_of_getElem? hw.2)

/-- **A task moves one place forward with each yield**, until it is at the head. -/
lemma Sound.waitsAt_run {tr : List (Transition Scheduler SchedEvent)} (hrun : Run Steps s tr t)
    (h : Sound s) {i task : ℕ} (hw : s.WaitsAt i task) (hle : yieldCount tr ≤ i) :
    t.WaitsAt (i - yieldCount tr) task := by
  induction hrun generalizing i with
  | nil => exact hw
  | @cons s s₁ t e tr hstep hrun ih =>
    have hcount : yieldCount (⟨s, e, s₁⟩ :: tr) =
        yieldCount tr + if e.yields = true then 1 else 0 := List.countP_cons ..
    cases he : e.yields with
    | false =>
      rw [hcount, he, if_neg Bool.false_ne_true, Nat.add_zero] at hle ⊢
      exact ih (h.steps hstep) (h.waitsAt_spawn hstep he hw) hle
    | true =>
      rw [hcount, he, if_pos rfl] at hle ⊢
      obtain ⟨j, rfl⟩ : ∃ j, i = j + 1 := ⟨i - 1, by omega⟩
      rw [Nat.add_sub_add_right]
      exact ih (h.steps hstep) (h.waitsAt_yield hstep he hw) (by omega)

end Scheduler

/-- **Bounded waiting.**  In every reachable state, and in every run from there, a task with `i`
tasks queued before it stays in the queue and does not run during the next `i` yields, and it moves
one place forward with each of them; the yield after these makes it current. -/
theorem bounded_waiting (s t : Scheduler) (tr : List (Transition Scheduler SchedEvent))
    (hreach : Reachable Scheduler.Steps Scheduler.withIdle s) (hrun : Run Scheduler.Steps s tr t)
    (i task : ℕ) (hready : s.ready[i]? = some task) :
    (yieldCount tr ≤ i → t.current ≠ task ∧ t.ready[i - yieldCount tr]? = some task) ∧
      ∀ tr₁ x tr₂, tr = tr₁ ++ x :: tr₂ → yieldCount tr₁ = i → x.event.yields = true →
        x.pre.current ≠ task ∧ x.post.current = task := by
  have h := Scheduler.sound_of_reachable hreach
  refine ⟨fun hle => Scheduler.Sound.waitsAt_run hrun h (h.waitsAt hready) hle, ?_⟩
  rintro tr₁ ⟨s₁, e, s₂⟩ tr₂ rfl hcount hyields
  obtain ⟨s', hrun₁, hrun₂⟩ := hrun.exists_of_append
  have hw := Scheduler.Sound.waitsAt_run hrun₁ h (h.waitsAt hready) hcount.le
  rw [hcount, Nat.sub_self] at hw
  have h' : Scheduler.Sound s' := hrun₁.invariant (fun _ _ _ hs hstep => hs.steps hstep) h
  cases hrun₂ with
  | cons hstep _ => exact ⟨hw.1, h'.current_of_waitsAt hstep hyields hw⟩

/-- Two workers, both queued. -/
def twoWorkers : Scheduler :=
  ⟨[⟨0, .running, 0⟩, ⟨1, .ready, 0x103FC8⟩, ⟨2, .ready, 0x107FC8⟩], [1, 2], 0⟩

/-- The second worker runs after the first one has exited. -/
theorem bounded_waiting_twoWorkers :
    ∃ tr t, Run Scheduler.Steps twoWorkers tr t ∧ yieldCount tr = 2 ∧ t.current = 2 := by
  have hfirst : Scheduler.Steps Scheduler.withIdle (.spawn 0x100000) oneWorker :=
    ⟨trivial, none, by decide⟩
  have hsecond : Scheduler.Steps oneWorker (.spawn 0x104000) twoWorkers :=
    ⟨trivial, none, by decide⟩
  have hreach : Reachable Scheduler.Steps Scheduler.withIdle twoWorkers :=
    ⟨_, .cons hfirst (.cons hsecond (.nil _))⟩
  have hyield : Scheduler.Steps twoWorkers (.preempt 0x9000)
      ⟨[⟨0, .running, 0x9000⟩, ⟨1, .running, 0x103FC8⟩, ⟨2, .ready, 0x107FC8⟩], [2], 1⟩ :=
    ⟨trivial, some (0, 0x103FC8), by decide⟩
  have hexit : Scheduler.Steps
      ⟨[⟨0, .running, 0x9000⟩, ⟨1, .running, 0x103FC8⟩, ⟨2, .ready, 0x107FC8⟩], [2], 1⟩
      (.taskExit 0x103F00)
      ⟨[⟨0, .running, 0x9000⟩, ⟨1, .finished, 0x103F00⟩, ⟨2, .running, 0x107FC8⟩], [], 2⟩ :=
    ⟨by decide, some (1, 0x107FC8), by decide⟩
  have hrun := Run.cons hyield (.cons hexit (.nil _))
  exact ⟨_, _, hrun, rfl,
    ((bounded_waiting _ _ _ hreach hrun 1 2 rfl).2 [_] _ [] rfl rfl rfl).2⟩

end ZiranOS
