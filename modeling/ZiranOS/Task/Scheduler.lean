import Mathlib
import ZiranOS.Lib.Exec
import ZiranOS.Lib.Run

/-!
# The round-robin scheduler

The scheduler keeps a table of tasks, a FIFO queue of the indices of runnable tasks and the index
of the running task.  The idle task (index `0`, the boot context) is the fallback and never queued.
`yieldNow` pops the next index, puts the outgoing task back and switches; `preempt` is the same
function called by the timer interrupt; `taskExit` retires the running task and then yields.

Every table access of the source is a checked access here, so an index out of range is a fault.
A context switch stores the stack pointer of the outgoing task in its `savedSp` and loads the one
of the incoming task; the stored value is whatever the outgoing task's stack pointer is, and is an
argument of the step.
-/

namespace ZiranOS

open ProgLib

/-! ## Tasks -/

/-- The life of a task. -/
inductive State where
  | ready
  | running
  | finished
  deriving DecidableEq, Repr

/-- A schedulable task.  `savedSp` is meaningful only while the task is parked. -/
structure Task where
  id : ℕ
  state : State
  savedSp : ℕ
  deriving DecidableEq, Repr

/-- Per-task kernel stack size. -/
def stackSize : ℕ := 16 * 1024

/-- The index of the idle task. -/
def idle : ℕ := 0

/-- A task whose stack of `stackSize` bytes starts at `base`: it is parked below seven fabricated
slots under the 16-byte aligned top of the stack. -/
def Task.new (id base : ℕ) : Task := ⟨id, .ready, (base + stackSize) / 16 * 16 - 7 * 8⟩

/-- The idle task: the boot context, already running. -/
def Task.idle : Task := ⟨0, .running, 0⟩

/-! ## The scheduler -/

/-- Round-robin scheduler: the task table, the indices of the runnable non-idle tasks in FIFO
order, and the index of the running task. -/
structure Scheduler where
  tasks : List Task
  ready : List ℕ
  current : ℕ
  deriving DecidableEq, Repr

namespace Scheduler

/-- The scheduler as `init` installs it. -/
def withIdle : Scheduler := ⟨[Task.idle], [], ZiranOS.idle⟩

/-- `tasks[i]`. -/
def task (s : Scheduler) (i : ℕ) : Exec Unit Task :=
  match s.tasks[i]? with
  | some t => .ok t
  | none => Exec.panic .outOfBounds

/-- `tasks[i].state = state`. -/
def setState (s : Scheduler) (i : ℕ) (state : State) : Exec Unit Scheduler :=
  if i < s.tasks.length then
    .ok { s with tasks := s.tasks.modify i fun t => { t with state := state } }
  else
    Exec.panic .outOfBounds

/-- `tasks[i].saved_sp = sp`, the store of `switch_context`. -/
def setSavedSp (s : Scheduler) (i sp : ℕ) : Exec Unit Scheduler :=
  if i < s.tasks.length then
    .ok { s with tasks := s.tasks.modify i fun t => { t with savedSp := sp } }
  else
    Exec.panic .outOfBounds

/-- Create a task on a fresh stack at `base` and enqueue it as ready; its id is the result. -/
def spawn (s : Scheduler) (base : ℕ) : Scheduler × ℕ :=
  let idx := s.tasks.length
  ({ s with tasks := s.tasks ++ [Task.new idx base], ready := s.ready ++ [idx] }, idx)

/-- Put the outgoing task back into the queue unless it is the idle task or has finished. -/
def requeue (s : Scheduler) (old : ℕ) : Exec Unit Scheduler := do
  if old = ZiranOS.idle then
    pure s
  else if (← s.task old).state = .finished then
    pure s
  else
    let s ← s.setState old .ready
    pure { s with ready := s.ready ++ [old] }

/-- Hand the CPU to the next runnable task, with `sp` the stack pointer the outgoing task parks
at.  The result says whether a switch happened: the outgoing task and the stack pointer loaded. -/
def yieldNow (s : Scheduler) (sp : ℕ) : Exec Unit (Scheduler × Option (ℕ × ℕ)) := do
  let old := s.current
  let next := s.ready.headD ZiranOS.idle
  let s := { s with ready := s.ready.tail }
  if next = old then
    -- only ourselves is runnable: the saved stack pointer would be stale
    pure (s, none)
  else
    let s ← s.requeue old
    let s ← s.setState next .running
    let s := { s with current := next }
    let newSp := (← s.task next).savedSp
    let s ← s.setSavedSp old sp
    pure (s, some (old, newSp))

/-- Preemptive reschedule, driven by the timer interrupt. -/
def preempt (s : Scheduler) (sp : ℕ) : Exec Unit (Scheduler × Option (ℕ × ℕ)) := s.yieldNow sp

/-- Retire the running task and yield. -/
def taskExit (s : Scheduler) (sp : ℕ) : Exec Unit (Scheduler × Option (ℕ × ℕ)) := do
  let s ← s.setState s.current .finished
  s.yieldNow sp

end Scheduler

/-! ## Its runs -/

/-- What can happen to the scheduler. -/
inductive SchedEvent where
  | spawn (base : ℕ)
  | yieldNow (sp : ℕ)
  | preempt (sp : ℕ)
  | taskExit (sp : ℕ)
  deriving DecidableEq, Repr

namespace Scheduler

/-- The effect of an event. -/
def step (s : Scheduler) : SchedEvent → Exec Unit (Scheduler × Option (ℕ × ℕ))
  | .spawn base => .ok ((s.spawn base).1, none)
  | .yieldNow sp => s.yieldNow sp
  | .preempt sp => s.preempt sp
  | .taskExit sp => s.taskExit sp

/-- An event is allowed: `task_exit` is only called by a task that is not the idle task. -/
def Allowed (s : Scheduler) : SchedEvent → Prop
  | .taskExit _ => s.current ≠ ZiranOS.idle
  | _ => True

instance (s : Scheduler) : (e : SchedEvent) → Decidable (s.Allowed e)
  | .taskExit _ => inferInstanceAs (Decidable (s.current ≠ ZiranOS.idle))
  | .spawn _ | .yieldNow _ | .preempt _ => .isTrue trivial

/-- One step of the scheduler. -/
def Steps (s : Scheduler) (e : SchedEvent) (t : Scheduler) : Prop :=
  s.Allowed e ∧ ∃ switch, s.step e = .ok (t, switch)

end Scheduler

end ZiranOS
