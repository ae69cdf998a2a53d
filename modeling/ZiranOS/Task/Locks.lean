import ZiranOS.Task.Runnable

/-!
# The locks of the tasks

The tasks share two spin locks, the one of the heap and the one of the scheduler.  `alloc` and
`dealloc` take the heap lock as they are called.  `stats`, `snapshot` and `yield_now` first save the
interrupt flag and clear it, then take one lock, drop it, and restore the flag; `snapshot` allocates
its result after that.  A fresh task starts with the flag clear and may set it.

`Core` is the one core with its tasks.  The stack of a task is a list of frames, the innermost
first, each of which says how far a function has got; whatever happens inside a critical section is
one step.  While the flag is set, the timer can interrupt the running task anywhere; its handler is
`yield_now` on the stack of that task.
-/

namespace ZiranOS

open ProgLib

/-! ## Functions that are on a stack -/

/-- The spin locks that the tasks share. -/
inductive Lock where
  | heap
  | sched
  deriving DecidableEq, Repr

/-- The functions that hold a lock with interrupts off. -/
inductive Guarded where
  | stats
  | snapshot
  | yieldNow
  deriving DecidableEq, Repr

/-- The lock that a function takes. -/
def Guarded.lock : Guarded → Lock
  | stats => .heap
  | snapshot | yieldNow => .sched

/-- How far a function has got. -/
inductive CallFrame where
  /-- `alloc` or `dealloc` is about to take the heap lock. -/
  | heapWait
  /-- `alloc` or `dealloc` works on the free list. -/
  | heapHeld
  /-- Interrupts are off, and the function is about to take its lock. -/
  | wait (fn : Guarded) (flags : Bool)
  /-- The function holds its lock. -/
  | held (fn : Guarded) (flags : Bool)
  /-- `yield_now` has dropped the lock and is about to switch the stacks. -/
  | switch (flags : Bool)
  /-- The function is about to restore the flag. -/
  | leave (fn : Guarded) (flags : Bool)
  /-- The handler of the timer interrupt, which returns to what it interrupted. -/
  | interrupt
  deriving DecidableEq, Repr

/-- The lock that a frame spins on until it is free. -/
def CallFrame.waitsFor : CallFrame → Option Lock
  | heapWait => some .heap
  | wait fn _ => some fn.lock
  | heapHeld | held _ _ | switch _ | leave _ _ | interrupt => none

/-! ## The core and its tasks -/

/-- The one core: the interrupt flag, the owner of each lock that is taken, the scheduler with the
capacity of its ready queue, the task whose stack is in use, and the stacks of all tasks. -/
structure Core where
  intFlag : Bool
  owner : Lock → Option ℕ
  sched : Scheduler
  readyCap : ℕ
  running : ℕ
  frames : ℕ → List CallFrame

/-- What the code of a task can call. -/
inductive Call where
  | alloc
  | dealloc
  | stats
  | snapshot
  | yieldNow
  | enable
  deriving DecidableEq, Repr

/-- What can happen: the running task calls a function, or gets on with the function it is in, or
the timer interrupts it.  A switch parks the outgoing task at the stack pointer `sp`. -/
inductive CoreEvent where
  | call (fn : Call)
  | advance (sp : ℕ)
  | timer
  deriving DecidableEq, Repr

namespace Core

variable (m : Core)

/-- The stack in use. -/
def top : List CallFrame := m.frames m.running

/-- Replace the stack in use. -/
def setTop (st : List CallFrame) : Core :=
  { m with frames := Function.update m.frames m.running st }

/-- `save_and_disable` at the start of a guarded function. -/
def enter (fn : Guarded) : Core :=
  { m.setTop (.wait fn m.intFlag :: m.top) with intFlag := false }

/-- `lock()`: take a free lock, and keep spinning on a taken one. -/
def lock (l : Lock) (st : List CallFrame) : Core :=
  match m.owner l with
  | none => { m.setTop st with owner := Function.update m.owner l (some m.running) }
  | some _ => m

/-- The guard of a lock is dropped. -/
def unlock (l : Lock) (st : List CallFrame) : Core :=
  { m.setTop st with owner := Function.update m.owner l none }

/-- The queue has no room for the outgoing task that `yield_now` puts back. -/
def Grows : Prop :=
  m.sched.next ≠ m.sched.current ∧ m.sched.requeued ≠ [] ∧
    m.readyCap ≤ m.sched.ready.tail.length

instance : Decidable m.Grows :=
  inferInstanceAs (Decidable (m.sched.next ≠ m.sched.current ∧ m.sched.requeued ≠ [] ∧
    m.readyCap ≤ m.sched.ready.tail.length))

/-- `yield_now` under the lock.  A queue without room allocates a larger buffer first. -/
def schedule (flags : Bool) (rest : List CallFrame) (sp : ℕ) : Exec Unit Core :=
  if m.Grows then
    .ok { m.setTop (.heapWait :: .held .yieldNow flags :: rest) with
      readyCap := max 4 (2 * m.readyCap) }
  else do
    let (sched, switch) ← m.sched.yieldNow sp
    let next := if switch.isSome then .switch flags else .leave .yieldNow flags
    pure ({ m with sched := sched }.unlock .sched (next :: rest))

/-- `restore`, which sets the flag if it was set. -/
def restore (flags : Bool) (st : List CallFrame) : Core :=
  { m.setTop st with intFlag := m.intFlag || flags }

/-- The innermost function gets on. -/
def stepFrame (sp : ℕ) (rest : List CallFrame) : CallFrame → Exec Unit Core
  | .heapWait => .ok (m.lock .heap (.heapHeld :: rest))
  | .heapHeld => .ok (m.unlock .heap rest)
  | .wait fn flags => .ok (m.lock fn.lock (.held fn flags :: rest))
  | .held .stats flags => .ok (m.unlock .heap (.leave .stats flags :: rest))
  | .held .snapshot flags => .ok (m.unlock .sched (.leave .snapshot flags :: rest))
  | .held .yieldNow flags => m.schedule flags rest sp
  | .switch flags =>
    .ok { m.setTop (.leave .yieldNow flags :: rest) with running := m.sched.current }
  -- the result of the snapshot is allocated after the flag is restored
  | .leave .snapshot flags => .ok (m.restore flags (.heapWait :: rest))
  | .leave _ flags => .ok (m.restore flags rest)
  -- the interrupt came while the flag was set
  | .interrupt => .ok { m.setTop rest with intFlag := true }

/-- The code of the running task calls a function. -/
def call : Call → Core
  | .alloc | .dealloc => m.setTop (.heapWait :: m.top)
  | .stats => m.enter .stats
  | .snapshot => m.enter .snapshot
  | .yieldNow => m.enter .yieldNow
  | .enable => { m with intFlag := true }

/-- What an event makes of the core. -/
def next : CoreEvent → Exec Unit Core
  | .call fn => .ok (m.call fn)
  | .advance sp =>
    match m.top with
    | [] => .ok m
    | fr :: rest => m.stepFrame sp rest fr
  | .timer => .ok ({ m.setTop (.interrupt :: m.top) with intFlag := false }.enter .yieldNow)

/-- A task calls from its own code, gets on inside a function, and is interrupted while the flag is
set. -/
def Enabled : CoreEvent → Prop
  | .call _ => m.top = []
  | .advance _ => m.top ≠ []
  | .timer => m.intFlag = true

instance (m : Core) : (e : CoreEvent) → Decidable (m.Enabled e)
  | .call _ => inferInstanceAs (Decidable (m.top = []))
  | .advance _ => inferInstanceAs (Decidable (m.top ≠ []))
  | .timer => inferInstanceAs (Decidable (m.intFlag = true))

/-- One step of the core. -/
def Steps (e : CoreEvent) (t : Core) : Prop := m.Enabled e ∧ m.next e = .ok t

/-- The core after the tasks have been spawned on stacks at `bases`: no lock is taken, the idle task
runs its own code, and the queue has room for all tasks. -/
def boot (bases : List ℕ) (slack : ℕ) (intFlag : Bool) : Core where
  intFlag := intFlag
  owner := fun _ => none
  sched := bases.foldl (fun s base => (s.spawn base).1) Scheduler.withIdle
  readyCap := bases.length + slack
  running := idle
  frames := fun _ => []

/-! ## Deadlocks -/

/-- The lock that the running task spins on if it is taken. -/
def waiting : Option Lock := m.top.head?.bind CallFrame.waitsFor

/-- The core spins, with interrupts off, on a lock that a parked task holds. -/
def Stuck : Prop :=
  m.intFlag = false ∧ ∃ l i, m.waiting = some l ∧ m.owner l = some i ∧ i ≠ m.running

/-- The event lets the running task wait for the heap lock with interrupts off. -/
def BeginsMasked : CoreEvent → Prop
  | .call .stats => True
  | .call .alloc | .call .dealloc => m.intFlag = false
  | .advance _ => m.top.head? = some (.leave .snapshot false)
  | .call .snapshot | .call .yieldNow | .call .enable | .timer => False

instance (m : Core) : (e : CoreEvent) → Decidable (m.BeginsMasked e)
  | .call .stats => .isTrue trivial
  | .call .alloc | .call .dealloc => inferInstanceAs (Decidable (m.intFlag = false))
  | .advance _ => inferInstanceAs (Decidable (m.top.head? = some (.leave .snapshot false)))
  | .call .snapshot | .call .yieldNow | .call .enable | .timer => .isFalse id

/-- No parked task holds the heap lock. -/
def HeapNotParked : Prop := ∀ i, m.owner .heap = some i → i = m.running

instance : Decidable m.HeapNotParked :=
  inferInstanceAs (Decidable (∀ i ∈ m.owner .heap, i = m.running))

end Core

end ZiranOS
