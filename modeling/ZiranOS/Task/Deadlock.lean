import ZiranOS.Task.Locks

/-!
# When the core deadlocks

The scheduler lock is only held by the running task with interrupts off, so that nobody ever spins
on it.  The heap lock can be held by a task that the timer has parked, and whoever then waits for it
with interrupts off waits forever (`Core.step_of_stuck`).  `no_deadlock_iff` says that a run stays
clear of this exactly if no wait with interrupts off begins while a parked task holds the heap lock.
-/

namespace ZiranOS

open ProgLib

/-! ## The scheduler under the lock -/

namespace Scheduler

/-- A yield keeps the number of tasks. -/
lemma QueueOk.length_yieldNow {s t : Scheduler} (h : QueueOk s) {sp : ℕ}
    {switch : Option (ℕ × ℕ)} (hrun : s.yieldNow sp = .ok (t, switch)) :
    t.tasks.length = s.tasks.length := by
  by_cases hself : s.next = s.current
  · rw [yieldNow_self sp hself] at hrun
    obtain ⟨rfl, -⟩ := Prod.mk.inj (Except.ok.inj hrun)
    rfl
  · obtain ⟨s', newSp, hrun', -, -, hlen, -⟩ :=
      yieldNow_switch sp hself h.current_lt h.next_live.lt
    obtain ⟨rfl, -⟩ := Prod.mk.inj (Except.ok.inj (hrun.symm.trans hrun'))
    exact hlen

/-- While a task other than the idle task runs, the queue is shorter than the table by two. -/
lemma QueueOk.length_ready_add_two_le {s : Scheduler} (h : QueueOk s)
    (hne : s.current ≠ ZiranOS.idle) : s.ready.length + 2 ≤ s.tasks.length := by
  have hnodup : (ZiranOS.idle :: s.current :: s.ready).Nodup := by
    rw [List.nodup_cons, List.nodup_cons, List.mem_cons, not_or]
    exact ⟨⟨hne.symm, fun hmem => (h.of_mem _ hmem).1 rfl⟩, h.current_notMem, h.nodup⟩
  have hsub : ZiranOS.idle :: s.current :: s.ready ⊆ List.range s.tasks.length := by
    intro i hi
    rw [List.mem_range]
    rcases List.mem_cons.mp hi with rfl | hi
    · exact h.idle_live.lt
    · rcases List.mem_cons.mp hi with rfl | hi
      · exact h.current_lt
      · exact (h.of_mem i hi).2.lt
  have hlen := hnodup.length_le_of_subset hsub
  rwa [List.length_range, List.length_cons, List.length_cons] at hlen

/-- Tasks that are spawned one after the other. -/
lemma Sound.spawn_all {s : Scheduler} (h : Sound s) (bases : List ℕ) :
    Sound (bases.foldl (fun s base => (s.spawn base).1) s) ∧
      (bases.foldl (fun s base => (s.spawn base).1) s).tasks.length =
        s.tasks.length + bases.length ∧
      (bases.foldl (fun s base => (s.spawn base).1) s).current = s.current := by
  induction bases generalizing s with
  | nil => exact ⟨h, rfl, rfl⟩
  | cons base bases ih =>
    obtain ⟨hsound, hlen, hcur⟩ := ih (h.spawn base)
    have hone : (s.spawn base).1.tasks.length = s.tasks.length + 1 := List.length_append
    refine ⟨hsound, ?_, hcur⟩
    rw [List.foldl_cons, hlen, hone, List.length_cons, Nat.add_assoc, Nat.add_comm 1]

end Scheduler

/-! ## The invariant -/

/-- What can lie on top of what: the handler on an allocator call that it has interrupted, and its
yield on the handler. -/
def OnTop (b : CallFrame) : CallFrame → Prop
  | .heapWait | .heapHeld => False
  | .wait fn flags | .held fn flags | .leave fn flags =>
    fn = .yieldNow ∧ flags = false ∧ b = .interrupt
  | .switch flags => flags = false ∧ b = .interrupt
  | .interrupt => b = .heapWait ∨ b = .heapHeld

/-- A stack in order: each frame may lie on the next one. -/
def InOrder (st : List CallFrame) : Prop := st.IsChain fun fr b => OnTop b fr

/-- A frame may take the place of another one if it may lie on whatever that one lies on. -/
lemma InOrder.replace {fr fr' : CallFrame} {rest : List CallFrame} (h : InOrder (fr :: rest))
    (himp : ∀ b, OnTop b fr → OnTop b fr') : InOrder (fr' :: rest) :=
  h.imp_head fun {b} => himp b

/-- What lies below the innermost frame. -/
lemma InOrder.head_rest {fr b : CallFrame} {rest : List CallFrame} (h : InOrder (fr :: rest))
    (hb : rest.head? = some b) : OnTop b fr :=
  (List.isChain_cons.mp h).1 b hb

/-- A frame that lies on nothing is on the code of the task. -/
lemma InOrder.rest_eq_nil {fr : CallFrame} {rest : List CallFrame} (h : InOrder (fr :: rest))
    (hno : ∀ b, ¬ OnTop b fr) : rest = [] := by
  cases rest with
  | nil => rfl
  | cons b rest => exact absurd (h.head_rest rfl) (hno b)

namespace Core

/-- The stack in use after it was replaced. -/
@[simp] lemma top_setTop (m : Core) (st : List CallFrame) : (m.setTop st).top = st :=
  Function.update_self ..

/-- The stacks of the other tasks stay. -/
lemma frames_setTop (m : Core) {st : List CallFrame} {i : ℕ} (h : i ≠ m.running) :
    (m.setTop st).frames i = m.frames i :=
  Function.update_of_ne h ..

variable {m : Core}

/-- What holds between two steps. -/
structure Inv (m : Core) : Prop where
  /-- The ready queue is as it should be. -/
  sound : m.sched.Sound
  /-- The queue has room for all tasks but the idle task. -/
  cap : m.sched.tasks.length ≤ m.readyCap + 1
  /-- Every stack is in order. -/
  inOrder : ∀ i, InOrder (m.frames i)
  /-- A parked task is in `yield_now`, or has not run yet. -/
  parked : ∀ i, i ≠ m.running → ∀ fr, (m.frames i).head? = some fr →
    ∃ flags, fr = .leave .yieldNow flags
  /-- The current task of the scheduler is the running one, unless a switch is under way. -/
  current : (∀ flags, m.top.head? ≠ some (.switch flags)) → m.sched.current = m.running
  /-- Interrupts are on in the code of a task and in the allocator only. -/
  unmasked : m.intFlag = true → ∀ fr, m.top.head? = some fr → fr = .heapWait ∨ fr = .heapHeld
  /-- The scheduler lock is held by the running task, inside one of its critical sections. -/
  owner : ∀ i, m.owner .sched = some i →
    i = m.running ∧ ∃ fn flags, fn.lock = .sched ∧ m.top.head? = some (.held fn flags)

/-- What the running task does to its stack, the flag, the locks and the scheduler keeps the
invariant if it is in order itself. -/
lemma Inv.update (h : Inv m) {st : List CallFrame} {b : Bool} {o : Lock → Option ℕ} {s : Scheduler}
    (hsound : s.Sound) (hlen : s.tasks.length = m.sched.tasks.length) (horder : InOrder st)
    (hcurrent : (∀ flags, st.head? ≠ some (.switch flags)) → s.current = m.running)
    (hunmasked : b = true → ∀ fr, st.head? = some fr → fr = .heapWait ∨ fr = .heapHeld)
    (howner : ∀ i, o .sched = some i →
      i = m.running ∧ ∃ fn flags, fn.lock = .sched ∧ st.head? = some (.held fn flags)) :
    Inv { m.setTop st with intFlag := b, owner := o, sched := s } := by
  have htop := m.top_setTop st
  refine ⟨hsound, hlen ▸ h.cap, fun i => ?_, fun i (hi : i ≠ m.running) => ?_, ?_, ?_, ?_⟩
  · by_cases hi : i = m.running
    · subst hi
      change InOrder (m.setTop st).top
      rwa [htop]
    · change InOrder ((m.setTop st).frames i)
      rw [m.frames_setTop hi]
      exact h.inOrder i
  · change ∀ fr, ((m.setTop st).frames i).head? = some fr → _
    rw [m.frames_setTop hi]
    exact h.parked i hi
  · change (∀ flags, (m.setTop st).top.head? ≠ _) → _
    rwa [htop]
  · change b = true → ∀ fr, (m.setTop st).top.head? = some fr → _
    rwa [htop]
  · change ∀ i, o .sched = some i → i = m.running ∧ ∃ fn flags, fn.lock = .sched ∧
      (m.setTop st).top.head? = some (.held fn flags)
    rwa [htop]

/-- What the running task waits for is said by the stack that it is given. -/
lemma waiting_update (m : Core) {st : List CallFrame} {b : Bool} {o : Lock → Option ℕ}
    {s : Scheduler} :
    ({ m.setTop st with intFlag := b, owner := o, sched := s } : Core).waiting =
      st.head?.bind CallFrame.waitsFor :=
  congrArg (fun st => st.head?.bind CallFrame.waitsFor) (m.top_setTop st)

/-- Nobody is stuck on the scheduler lock. -/
lemma Inv.stuck_iff (h : Inv m) : m.Stuck ↔
    m.intFlag = false ∧ m.waiting = some .heap ∧ ∃ i, m.owner .heap = some i ∧ i ≠ m.running := by
  constructor
  · rintro ⟨hflag, l, i, hwait, hown, hne⟩
    cases l with
    | heap => exact ⟨hflag, hwait, i, hown, hne⟩
    | sched => exact absurd (h.owner i hown).1 hne
  · rintro ⟨hflag, hwait, i, hown, hne⟩
    exact ⟨hflag, .heap, i, hwait, hown, hne⟩

/-- The wait for the heap lock is the only one that can be masked. -/
def Safe (m : Core) (e : CoreEvent) : Prop := m.BeginsMasked e → m.HeapNotParked

/-- A core that does not wait for the heap lock is not stuck. -/
lemma Inv.not_stuck (h : Inv m) (hwait : m.waiting ≠ some .heap) : ¬ m.Stuck :=
  fun hstuck => hwait (h.stuck_iff.mp hstuck).2.1

/-- A core whose flag is set is not stuck. -/
lemma not_stuck_of_intFlag (h : m.intFlag = true) : ¬ m.Stuck := fun hstuck => by
  rw [hstuck.1] at h
  exact Bool.false_ne_true h

/-- A core that waits for the heap lock is stuck exactly if interrupts are off and a parked task
holds it. -/
lemma Inv.not_stuck_iff (h : Inv m) (hwait : m.waiting = some .heap) :
    ¬ m.Stuck ↔ (m.intFlag = false → m.HeapNotParked) := by
  rw [h.stuck_iff, HeapNotParked]
  simp only [hwait, true_and, not_and, not_exists, not_not]

/-! ## Calls and the timer -/

/-- Unless a critical section of the scheduler is under way, its lock is free. -/
lemma Inv.sched_free (h : Inv m) (hno : ∀ fn flags, fn.lock = .sched →
    m.top.head? ≠ some (.held fn flags)) (i : ℕ) : m.owner .sched ≠ some i := by
  intro hi
  obtain ⟨-, fn, flags, hlock, hhead⟩ := h.owner i hi
  exact hno fn flags hlock hhead

/-- A call keeps the invariant, and leads to a deadlock exactly if it is not safe. -/
lemma Inv.call (h : Inv m) (htop : m.top = []) (fn : Call) :
    Inv (m.call fn) ∧ (¬ (m.call fn).Stuck ↔ m.Safe (.call fn)) := by
  have hcur : m.sched.current = m.running := h.current fun flags => by
    rw [htop]
    exact nofun
  have hfree : ∀ i, m.owner .sched ≠ some i := h.sched_free fun fn flags _ => by
    rw [htop]
    exact nofun
  -- the allocator is called with the flag as it is
  have hheap : Inv (m.setTop (.heapWait :: m.top)) ∧
      (¬ (m.setTop (.heapWait :: m.top)).Stuck ↔ (m.intFlag = false → m.HeapNotParked)) := by
    rw [htop]
    have hinv : Inv (m.setTop [.heapWait]) := h.update h.sound rfl (List.isChain_singleton _)
      (fun _ => hcur) (fun _ fr hfr => .inl (Option.some.inj hfr).symm)
      (fun i hi => absurd hi (hfree i))
    exact ⟨hinv, hinv.not_stuck_iff m.waiting_update⟩
  -- a guarded function clears it first
  have henter : ∀ fn, Inv (m.enter fn) ∧ (m.enter fn).waiting = some fn.lock := by
    intro fn
    rw [enter, htop]
    exact ⟨h.update h.sound rfl (List.isChain_singleton _) (fun _ => hcur) nofun
      (fun i hi => absurd hi (hfree i)), m.waiting_update⟩
  cases fn with
  | alloc | dealloc => exact hheap
  | stats =>
    obtain ⟨hinv, hwait⟩ := henter .stats
    exact ⟨hinv, (hinv.not_stuck_iff hwait).trans
      ⟨fun hsafe _ => hsafe rfl, fun hsafe _ => hsafe trivial⟩⟩
  | snapshot | yieldNow =>
    obtain ⟨hinv, hwait⟩ := henter _
    exact ⟨hinv, iff_of_true (hinv.not_stuck (hwait ▸ nofun)) nofun⟩
  | enable =>
    refine ⟨⟨h.sound, h.cap, h.inOrder, h.parked, h.current, fun _ fr hfr => ?_, h.owner⟩,
      iff_of_true (not_stuck_of_intFlag rfl) nofun⟩
    change m.top.head? = some fr at hfr
    rw [htop] at hfr
    cases hfr

/-- The timer keeps the invariant and never leads to a deadlock. -/
lemma Inv.timer (h : Inv m) (hflag : m.intFlag = true) :
    Inv ({ m.setTop (.interrupt :: m.top) with intFlag := false }.enter .yieldNow) ∧
      ¬ ({ m.setTop (.interrupt :: m.top) with intFlag := false }.enter .yieldNow).Stuck := by
  have hhead := h.unmasked hflag
  have heq : ({ m.setTop (.interrupt :: m.top) with intFlag := false } : Core).enter .yieldNow =
      { m.setTop (.wait .yieldNow false :: .interrupt :: m.top) with intFlag := false } := by
    have htop : ({ m.setTop (.interrupt :: m.top) with intFlag := false } : Core).top =
        .interrupt :: m.top := m.top_setTop (.interrupt :: m.top)
    rw [enter, htop]
    simp only [setTop, Function.update_idem]
  have hcur : m.sched.current = m.running := h.current fun flags hswitch => by
    rcases hhead _ hswitch with heq | heq <;> cases heq
  have hfree : ∀ i, m.owner .sched ≠ some i := h.sched_free fun fn flags _ hheld => by
    rcases hhead _ hheld with heq | heq <;> cases heq
  have horder : InOrder (.wait .yieldNow false :: .interrupt :: m.top) :=
    List.isChain_cons_cons.mpr ⟨⟨rfl, rfl, rfl⟩,
      List.isChain_cons.mpr ⟨fun fr hfr => hhead fr hfr, h.inOrder m.running⟩⟩
  rw [heq]
  have hinv : Inv { m.setTop (.wait .yieldNow false :: .interrupt :: m.top) with
      intFlag := false } :=
    h.update h.sound rfl horder (fun _ => hcur) nofun (fun i hi => absurd hi (hfree i))
  exact ⟨hinv, hinv.not_stuck (m.waiting_update ▸ nofun)⟩

/-! ## Getting on inside a function -/

variable {fr : CallFrame} {rest : List CallFrame} {sp : ℕ} {t : Core}

/-- Interrupts are off in everything but the allocator. -/
lemma Inv.masked (h : Inv m) (htop : m.top = fr :: rest) (hwait : fr ≠ .heapWait)
    (hheld : fr ≠ .heapHeld) : m.intFlag = false := by
  rw [Bool.eq_false_iff]
  intro hflag
  rcases h.unmasked hflag fr (by rw [htop]; rfl) with heq | heq
  · exact hwait heq
  · exact hheld heq

/-- The stack in use is in order. -/
lemma Inv.top_inOrder (h : Inv m) (htop : m.top = fr :: rest) : InOrder (fr :: rest) :=
  htop ▸ h.inOrder m.running

/-- The current task is the running one, except right before a switch. -/
lemma Inv.current_eq (h : Inv m) (htop : m.top = fr :: rest) (hne : ∀ flags, fr ≠ .switch flags) :
    m.sched.current = m.running :=
  h.current fun flags hhead => hne flags (by rw [htop] at hhead; exact Option.some.inj hhead)

/-- Outside the critical sections of the scheduler its lock is free. -/
lemma Inv.owner_ne (h : Inv m) (htop : m.top = fr :: rest)
    (hne : ∀ fn flags, fn.lock = .sched → fr ≠ .held fn flags) (i : ℕ) : m.owner .sched ≠ some i :=
  h.sched_free (fun fn flags hlock hhead => hne fn flags hlock (by
    rw [htop] at hhead
    exact Option.some.inj hhead)) i

/-- Taking a lock keeps the invariant; a core that keeps spinning is as it was. -/
lemma Inv.lock (h : Inv m) (l : Lock) (fr' : CallFrame) (htop : m.top = fr :: rest)
    (hne : ∀ fn flags, fr ≠ .held fn flags) (hswitch : ∀ flags, fr ≠ .switch flags)
    (horder : InOrder (fr' :: rest)) (hwait : fr'.waitsFor = none)
    (hunmasked : m.intFlag = true → fr' = .heapWait ∨ fr' = .heapHeld)
    (hheld : l = .sched → ∃ fn flags, fn.lock = .sched ∧ fr' = .held fn flags) :
    Inv (m.lock l (fr' :: rest)) ∧ (¬ m.Stuck → ¬ (m.lock l (fr' :: rest)).Stuck) := by
  have hfree := h.owner_ne htop fun fn flags _ => hne fn flags
  unfold Core.lock
  cases m.owner l with
  | some i => exact ⟨h, id⟩
  | none =>
    have hinv : Inv { m.setTop (fr' :: rest) with
        owner := Function.update m.owner l (some m.running) } := by
      refine h.update h.sound rfl horder (fun _ => h.current_eq htop hswitch)
        (fun hflag b hb => Option.some.inj hb ▸ hunmasked hflag) fun i hi => ?_
      by_cases hl : l = .sched
      · subst hl
        rw [Function.update_self] at hi
        obtain ⟨fn, flags, hlock, heq⟩ := hheld rfl
        exact ⟨(Option.some.inj hi).symm, fn, flags, hlock, heq ▸ rfl⟩
      · rw [Function.update_of_ne (Ne.symm hl)] at hi
        exact absurd hi (hfree i)
    refine ⟨hinv, fun _ => hinv.not_stuck ?_⟩
    rw [waiting_update, List.head?_cons, Option.bind_some, hwait]
    exact nofun

/-- Dropping a lock keeps the invariant. -/
lemma Inv.unlock (h : Inv m) (l : Lock) (st : List CallFrame) {s : Scheduler} (hsound : s.Sound)
    (hlen : s.tasks.length = m.sched.tasks.length) (horder : InOrder st)
    (hcurrent : (∀ flags, st.head? ≠ some (.switch flags)) → s.current = m.running)
    (hunmasked : m.intFlag = true → ∀ fr, st.head? = some fr → fr = .heapWait ∨ fr = .heapHeld)
    (hwait : st.head?.bind CallFrame.waitsFor = none)
    (hfree : l = .heap → ∀ i, m.owner .sched ≠ some i) :
    Inv ({ m with sched := s }.unlock l st) ∧ ¬ ({ m with sched := s }.unlock l st).Stuck := by
  have hinv : Inv { m.setTop st with owner := Function.update m.owner l none, sched := s } := by
    refine h.update hsound hlen horder hcurrent hunmasked fun i hi => ?_
    cases l with
    | heap => exact absurd hi (hfree rfl i)
    | sched => cases hi
  exact ⟨hinv, hinv.not_stuck (by rw [waiting_update, hwait]; exact nofun)⟩

/-- The queue has room for the outgoing task. -/
lemma Inv.not_grows (h : Inv m) : ¬ m.Grows := by
  rintro ⟨-, hreq, hcap⟩
  have hne : m.sched.current ≠ ZiranOS.idle := by
    intro hidle
    rw [Scheduler.requeued, if_pos (.inl hidle)] at hreq
    exact hreq rfl
  have hroom := h.sound.length_ready_add_two_le hne
  have htable := h.cap
  rw [List.length_tail] at hcap
  omega

/-- The critical section of `yield_now`. -/
lemma Inv.schedule (h : Inv m) {flags : Bool} (htop : m.top = .held .yieldNow flags :: rest)
    (hrun : m.schedule flags rest sp = .ok t) : Inv t ∧ ¬ t.Stuck := by
  have hoff := h.masked htop nofun nofun
  have horder := h.top_inOrder htop
  rw [Core.schedule, if_neg h.not_grows, Exec.bind_eq_ok] at hrun
  obtain ⟨⟨s, switch⟩, hyield, heq⟩ := hrun
  obtain rfl := Except.ok.inj heq
  obtain ⟨s', switch', hyield', hsound, hcase⟩ := h.sound.toQueueOk.yieldNow sp
  obtain ⟨rfl, rfl⟩ := Prod.mk.inj (Except.ok.inj (hyield.symm.trans hyield'))
  have hlen := h.sound.toQueueOk.length_yieldNow hyield
  have hunmasked : m.intFlag = true → ∀ fr' : CallFrame, fr' = .heapWait ∨ fr' = .heapHeld := by
    rw [hoff]
    exact nofun
  cases switch with
  | none =>
    rcases hcase with ⟨-, rfl, -, -⟩ | ⟨newSp, hsome, -⟩
    · exact h.unlock .sched _ hsound hlen (horder.replace fun b hb => hb)
        (fun _ => h.current_eq htop nofun) (fun hflag fr' _ => hunmasked hflag fr') rfl nofun
    · cases hsome
  | some parked =>
    exact h.unlock .sched _ hsound hlen (horder.replace fun b hb => hb.2)
      (fun hno => absurd rfl (hno flags)) (fun hflag fr' _ => hunmasked hflag fr') rfl nofun

/-- After a switch every task is parked or has not run yet, also the one that goes on. -/
lemma Inv.switch (h : Inv m) {flags : Bool} (htop : m.top = .switch flags :: rest) :
    Inv { m.setTop (.leave .yieldNow flags :: rest) with running := m.sched.current } ∧
      ¬ ({ m.setTop (.leave .yieldNow flags :: rest) with running := m.sched.current } :
        Core).Stuck := by
  have hoff := h.masked htop nofun nofun
  have hfree := h.owner_ne htop (fun _ _ _ => nofun)
  have horder := h.top_inOrder htop
  have htop' := m.top_setTop (.leave .yieldNow flags :: rest)
  have hparked : ∀ i fr, ((m.setTop (.leave .yieldNow flags :: rest)).frames i).head? = some fr →
      ∃ flags, fr = .leave .yieldNow flags := by
    intro i fr hfr
    by_cases hi : i = m.running
    · subst hi
      change (m.setTop _).top.head? = _ at hfr
      rw [htop'] at hfr
      exact ⟨flags, (Option.some.inj hfr).symm⟩
    · rw [m.frames_setTop hi] at hfr
      exact h.parked i hi fr hfr
  have hinv : Inv { m.setTop (.leave .yieldNow flags :: rest) with
      running := m.sched.current } := by
    refine ⟨h.sound, h.cap, fun i => ?_, fun i _ => hparked i, fun _ => rfl, fun hflag => ?_,
      fun i hi => absurd hi (hfree i)⟩
    · by_cases hi : i = m.running
      · subst hi
        change InOrder (m.setTop (.leave .yieldNow flags :: rest)).top
        rw [htop']
        exact horder.replace fun b hb => ⟨rfl, hb⟩
      · change InOrder ((m.setTop (.leave .yieldNow flags :: rest)).frames i)
        rw [m.frames_setTop hi]
        exact h.inOrder i
    · change m.intFlag = true at hflag
      rw [hoff] at hflag
      cases hflag
  refine ⟨hinv, hinv.not_stuck fun hwait => ?_⟩
  obtain ⟨fr, hfr, hlock⟩ := Option.bind_eq_some_iff.mp hwait
  obtain ⟨flags', rfl⟩ := hparked _ fr hfr
  cases hlock

/-- Restoring the flag keeps the invariant, whether the result of a snapshot is then allocated or
the function returns. -/
lemma Inv.restore (h : Inv m) {fn : Guarded} {flags : Bool} (htop : m.top = .leave fn flags :: rest)
    {st : List CallFrame} (horder : InOrder st)
    (hhead : ∀ fr, st.head? = some fr → fr = .heapWait ∨ flags = false ∧ fr = .interrupt) :
    Inv (m.restore flags st) ∧ (m.restore flags st).intFlag = flags := by
  have hoff := h.masked htop nofun nofun
  have hfree := h.owner_ne htop (fun _ _ _ => nofun)
  refine ⟨h.update h.sound rfl horder (fun _ => h.current_eq htop nofun) (fun hflag fr hfr => ?_)
    (fun i hi => absurd hi (hfree i)), ?_⟩
  · rcases hhead fr hfr with rfl | ⟨rfl, -⟩
    · exact .inl rfl
    · rw [hoff] at hflag
      cases hflag
  · change (m.intFlag || flags) = flags
    rw [hoff, Bool.false_or]

/-- The functions get on. -/
lemma Inv.advance (h : Inv m) (htop : m.top = fr :: rest) (hstep : m.stepFrame sp rest fr = .ok t) :
    Inv t ∧ (¬ m.Stuck → (¬ t.Stuck ↔ m.Safe (.advance sp))) := by
  have horder := h.top_inOrder htop
  -- whatever does not end a snapshot is safe
  have hsafe : (∀ flags, fr ≠ .leave .snapshot flags) → m.Safe (.advance sp) := by
    intro hne hbegins
    change m.top.head? = _ at hbegins
    rw [htop] at hbegins
    exact absurd (Option.some.inj hbegins) (hne false)
  cases fr with
  | heapWait =>
    obtain rfl := Except.ok.inj hstep
    obtain ⟨hinv, hno⟩ := h.lock .heap .heapHeld htop nofun nofun
      (horder.replace fun b hb => hb) rfl (fun _ => .inr rfl) nofun
    exact ⟨hinv, fun hm => iff_of_true (hno hm) (hsafe nofun)⟩
  | heapHeld =>
    obtain rfl := Except.ok.inj hstep
    obtain rfl := horder.rest_eq_nil fun b hb => hb
    obtain ⟨hinv, hno⟩ := h.unlock .heap [] h.sound rfl .nil
      (fun _ => h.current_eq htop nofun) nofun rfl (fun _ => h.owner_ne htop fun _ _ _ => nofun)
    exact ⟨hinv, fun _ => iff_of_true hno (hsafe nofun)⟩
  | wait fn flags =>
    obtain rfl := Except.ok.inj hstep
    have hoff := h.masked htop nofun nofun
    obtain ⟨hinv, hno⟩ := h.lock fn.lock (.held fn flags) htop nofun nofun
      (horder.replace fun b hb => hb) rfl (by rw [hoff]; exact nofun)
      (fun hlock => ⟨fn, flags, hlock, rfl⟩)
    exact ⟨hinv, fun hm => iff_of_true (hno hm) (hsafe nofun)⟩
  | held fn flags =>
    have hoff := h.masked htop nofun nofun
    have hcur := h.current_eq htop nofun
    cases fn with
    | yieldNow =>
      obtain ⟨hinv, hno⟩ := h.schedule htop hstep
      exact ⟨hinv, fun _ => iff_of_true hno (hsafe nofun)⟩
    | stats =>
      obtain rfl := Except.ok.inj hstep
      have hfree := h.owner_ne htop fun fn flags hlock heq => by
        obtain ⟨rfl, -⟩ := CallFrame.held.inj heq
        cases hlock
      obtain ⟨hinv, hno⟩ := h.unlock .heap (.leave .stats flags :: rest) h.sound rfl
        (horder.replace fun b hb => hb) (fun _ => hcur) (by rw [hoff]; exact nofun) rfl
        (fun _ => hfree)
      exact ⟨hinv, fun _ => iff_of_true hno (hsafe nofun)⟩
    | snapshot =>
      obtain rfl := Except.ok.inj hstep
      obtain ⟨hinv, hno⟩ := h.unlock .sched (.leave .snapshot flags :: rest) h.sound
        rfl (horder.replace fun b hb => hb) (fun _ => hcur) (by rw [hoff]; exact nofun) rfl nofun
      exact ⟨hinv, fun _ => iff_of_true hno (hsafe nofun)⟩
  | switch flags =>
    obtain rfl := Except.ok.inj hstep
    obtain ⟨hinv, hno⟩ := h.switch htop
    exact ⟨hinv, fun _ => iff_of_true hno (hsafe nofun)⟩
  | leave fn flags =>
    have hreturn : fn ≠ .snapshot → Inv (m.restore flags rest) ∧
        ¬ (m.restore flags rest).Stuck := by
      intro _
      have hhead : ∀ b, rest.head? = some b → flags = false ∧ b = .interrupt :=
        fun b hb => (horder.head_rest hb).2
      obtain ⟨hinv, -⟩ := h.restore htop (List.isChain_cons.mp horder).2
        fun b hb => .inr (hhead b hb)
      refine ⟨hinv, hinv.not_stuck fun hwait => ?_⟩
      rw [Core.restore, waiting_update] at hwait
      obtain ⟨b, hb, hlock⟩ := Option.bind_eq_some_iff.mp hwait
      obtain ⟨-, rfl⟩ := hhead b hb
      cases hlock
    cases fn with
    | stats | yieldNow =>
      obtain rfl := Except.ok.inj hstep
      obtain ⟨hinv, hno⟩ := hreturn nofun
      exact ⟨hinv, fun _ => iff_of_true hno (hsafe nofun)⟩
    | snapshot =>
      obtain rfl := Except.ok.inj hstep
      obtain rfl := horder.rest_eq_nil fun b hb => nomatch hb.1
      obtain ⟨hinv, hflag⟩ := h.restore htop (List.isChain_singleton .heapWait)
        fun b hb => .inl (Option.some.inj hb).symm
      refine ⟨hinv, fun _ => (hinv.not_stuck_iff m.waiting_update).trans ?_⟩
      have hbegins : m.BeginsMasked (.advance sp) ↔ flags = false := by
        rw [BeginsMasked, htop, List.head?_cons, Option.some.injEq, CallFrame.leave.injEq]
        exact and_iff_right rfl
      rw [hflag, Safe, hbegins]
      rfl
  | interrupt =>
    obtain rfl := Except.ok.inj hstep
    have hinv : Inv { m.setTop rest with intFlag := true } :=
      h.update h.sound rfl (List.isChain_cons.mp horder).2 (fun _ => h.current_eq htop nofun)
        (fun _ b hb => horder.head_rest hb)
        (fun i hi => absurd hi (h.owner_ne htop (fun _ _ _ => nofun) i))
    exact ⟨hinv, fun _ => iff_of_true (not_stuck_of_intFlag rfl) (hsafe nofun)⟩

/-- **What a step does**: it keeps the invariant, and a core that is not stuck becomes stuck exactly
if the step is not safe. -/
lemma Inv.step (h : Inv m) {e : CoreEvent} (hstep : m.Steps e t) :
    Inv t ∧ (¬ m.Stuck → (¬ t.Stuck ↔ m.Safe e)) := by
  obtain ⟨henabled, hnext⟩ := hstep
  cases e with
  | call fn =>
    obtain rfl := Except.ok.inj hnext
    obtain ⟨hinv, hsafe⟩ := h.call henabled fn
    exact ⟨hinv, fun _ => hsafe⟩
  | timer =>
    obtain rfl := Except.ok.inj hnext
    obtain ⟨hinv, hno⟩ := h.timer henabled
    exact ⟨hinv, fun _ => iff_of_true hno nofun⟩
  | advance sp =>
    rw [next] at hnext
    cases htop : m.top with
    | nil => exact absurd htop henabled
    | cons fr rest =>
      rw [htop] at hnext
      exact h.advance htop hnext

/-- The invariant holds at the start. -/
lemma inv_boot (bases : List ℕ) (slack : ℕ) (intFlag : Bool) : Inv (boot bases slack intFlag) := by
  obtain ⟨hsound, hlen, hcur⟩ := Scheduler.sound_withIdle.spawn_all bases
  refine ⟨hsound, ?_, fun _ => .nil, fun _ _ => nofun, fun _ => hcur, fun _ => nofun,
    fun _ => nofun⟩
  change (bases.foldl _ Scheduler.withIdle).tasks.length ≤ bases.length + slack + 1
  rw [hlen]
  change 1 + bases.length ≤ _
  omega

/-! ## A deadlock is forever -/

/-- The only thing that a stuck core can do is to go on spinning. -/
lemma step_of_stuck {e : CoreEvent} (h : m.Stuck) (hstep : m.Steps e t) : t = m := by
  obtain ⟨hflag, l, i, hwait, hown, -⟩ := h
  obtain ⟨henabled, hnext⟩ := hstep
  obtain ⟨fr, hfr, hlock⟩ := Option.bind_eq_some_iff.mp hwait
  obtain ⟨rest, htop⟩ : ∃ rest, m.top = fr :: rest := List.head?_eq_some_iff.mp hfr
  cases e with
  | call fn =>
    rw [Enabled, htop] at henabled
    cases henabled
  | timer =>
    rw [Enabled, hflag] at henabled
    cases henabled
  | advance sp =>
    -- a taken lock is not taken
    have hspin : ∀ st, m.lock l st = m := fun st => by rw [Core.lock, hown]
    rw [next, htop] at hnext
    cases fr with
    | heapWait =>
      obtain rfl := Option.some.inj hlock
      exact (Except.ok.inj hnext).symm.trans (hspin _)
    | wait fn flags =>
      obtain rfl := Option.some.inj hlock
      exact (Except.ok.inj hnext).symm.trans (hspin _)
    | heapHeld | held | switch | leave | interrupt => cases hlock

/-- A core that is stuck stays so. -/
lemma stuck_forever {tr : List (Transition Core CoreEvent)} (h : m.Stuck)
    (hrun : Run Core.Steps m tr t) : t = m :=
  hrun.invariant (I := fun s => s = m) (fun _ _ _ hs hstep => by
    subst hs
    exact step_of_stuck h hstep) rfl

end Core

/-- **When the core deadlocks.**  In every run from the boot with any number of spawned tasks, the
core never spins with interrupts off on a lock that a parked task holds, if and only if no step
begins such a wait for the heap lock while a parked task holds it. -/
theorem no_deadlock_iff (bases : List ℕ) (slack : ℕ) (intFlag : Bool)
    (tr : List (Transition Core CoreEvent)) (m : Core)
    (h : Run Core.Steps (.boot bases slack intFlag) tr m) :
    (∀ x ∈ tr, ¬ x.post.Stuck) ↔ ∀ x ∈ tr, x.pre.BeginsMasked x.event → x.pre.HeapNotParked := by
  have hinv : ∀ s e t, Core.Inv s → Core.Steps s e t → Core.Inv t :=
    fun s e t hs hstep => (hs.step hstep).1
  have hsafe : ∀ s e t, Core.Inv s → ¬ s.Stuck → Core.Steps s e t → (¬ t.Stuck ↔ s.Safe e) :=
    fun s e t hs hJ hstep => (hs.step hstep).2 hJ
  have hboot := Core.inv_boot bases slack intFlag
  exact h.forall_post_iff hinv hsafe hboot (hboot.not_stuck nofun)

/-- The step of a run that is computed. -/
def Core.stepOption (m : Core) (e : CoreEvent) : Option Core :=
  if m.Enabled e then (m.next e).toOption else none

/-- A computed step is a step. -/
lemma Core.steps_of_stepOption {m t : Core} {e : CoreEvent} (h : m.stepOption e = some t) :
    m.Steps e t := by
  unfold stepOption at h
  split_ifs at h with henabled
  refine ⟨henabled, ?_⟩
  cases hnext : m.next e with
  | error fault =>
    rw [hnext] at h
    cases h
  | ok t' =>
    rw [hnext] at h
    exact congrArg Except.ok (Option.some.inj h)

/-- The first worker is preempted inside `alloc`; the second one waits for the heap lock with
interrupts on and is preempted in turn; the first one gives the lock back and calls `stats`. -/
def preemptedWait : List CoreEvent :=
  -- the idle task yields to the first worker
  [.call .yieldNow, .advance 0x9000, .advance 0x9000, .advance 0x9000,
    -- which takes the heap lock and is preempted
    .call .enable, .call .alloc, .advance 0, .timer, .advance 0x103F00, .advance 0x103F00,
    .advance 0x103F00,
    -- the second worker spins on the heap lock and is preempted
    .call .enable, .call .alloc, .advance 0, .timer, .advance 0x203F00, .advance 0x203F00,
    .advance 0x203F00,
    -- the first worker returns from the handler and gives the heap lock back
    .advance 0, .advance 0, .advance 0, .call .stats]

/-- No task of this run is ever stuck. -/
theorem no_deadlock_iff_preemptedWait :
    (execTrace Core.stepOption (.boot [0x100000, 0x200000] 0 true) preemptedWait).1.map
        Transition.event = preemptedWait ∧
      ∀ x ∈ (execTrace Core.stepOption (.boot [0x100000, 0x200000] 0 true) preemptedWait).1,
        ¬ x.post.Stuck := by
  have hrun := (run_execTrace Core.stepOption (.boot [0x100000, 0x200000] 0 true)
    preemptedWait).mono Core.steps_of_stepOption
  exact ⟨by decide +kernel, (no_deadlock_iff _ 0 true _ _ hrun).mpr (by decide +kernel)⟩

/-- The first worker is preempted inside `alloc`, and the second one calls `stats`. -/
def preemptedAlloc : List CoreEvent :=
  -- the idle task yields to the first worker
  [.call .yieldNow, .advance 0x9000, .advance 0x9000, .advance 0x9000,
    -- which takes the heap lock and is preempted
    .call .enable, .call .alloc, .advance 0, .timer, .advance 0x103F00, .advance 0x103F00,
    .advance 0x103F00,
    -- the second worker waits for the heap lock with interrupts off
    .call .enable, .call .stats]

/-- **A deadlock.**  A worker calls `stats` while another one is parked inside `alloc`. -/
theorem deadlock_preemptedAlloc : ¬ ∀ bases slack intFlag m,
    Reachable Core.Steps (.boot bases slack intFlag) m → ¬ m.Stuck := by
  intro h
  have hrun := (run_execTrace Core.stepOption (.boot [0x100000, 0x200000] 0 true)
    preemptedAlloc).mono Core.steps_of_stepOption
  exact h _ _ _ _ ⟨_, hrun⟩ ⟨by decide, .heap, 1, by decide, by decide, by decide⟩

end ZiranOS
