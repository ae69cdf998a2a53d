import ZiranOS.Task.Switch

/-!
# Context switches are transparent

Tasks on disjoint stacks hand the processor to each other by calling `switch_context`.  What the
running task computes in between is arbitrary, as long as it leaves the parked tasks alone: the
stack of each at and above its saved stack pointer, and that pointer in the table of tasks.

`World.Parks` is the invariant of a parked task.  A call of `switch_context` and the making of a
task establish it, every step that does not resume the task keeps it, and the switch that resumes
the task reads the context back; `switch_transparent` puts these together for whole runs.
-/

namespace ZiranOS

open ProgLib

variable {ι : Type*}

/-! ## The system -/

/-- The stacks of the tasks, of `stackSize` bytes each. -/
structure TaskStacks (ι : Type*) where
  base : ι → Word
  disjoint : Pairwise fun i j => Disjoint (span (base i) stackSize) (span (base j) stackSize)

/-- The bytes of a stack. -/
def TaskStacks.bytes (st : TaskStacks ι) (i : ι) : Set Word := span (st.base i) stackSize

variable {st : TaskStacks ι} {taskTrampoline : Word}

/-- The table of tasks: which tasks it has, and the address of the saved stack pointer of each.
The table lies outside all stacks. -/
structure TaskTable (st : TaskStacks ι) where
  live : Set ι
  slot : ι → Word
  slot_disjoint : live.Pairwise fun i j => Disjoint (span (slot i) 8) (span (slot j) 8)
  slot_stack : ∀ i ∈ live, ∀ j ∈ live, Disjoint (span (slot i) 8) (st.bytes j)

/-- The processor, the running task and the table of tasks. -/
structure World (st : TaskStacks ι) where
  cpu : Cpu
  current : ι
  table : TaskTable st
  current_live : current ∈ table.live

namespace World

variable {w w' : World st} {i : ι}

/-- The saved stack pointer of a task. -/
def savedSp (w : World st) (i : ι) : Word := w.cpu.mem.read64 (w.table.slot i)

/-- The task exists and does not run. -/
def IsParked (w : World st) (i : ι) : Prop := i ∈ w.table.live ∧ i ≠ w.current

/-- The stack of a task at and above its saved stack pointer. -/
def parkedStack (w : World st) (i : ι) : Set Word :=
  {x ∈ st.bytes i | (w.savedSp i - st.base i).toNat ≤ (x - st.base i).toNat}

/-- Nothing was written where the task is parked. -/
structure Undisturbed (w w' : World st) (i : ι) : Prop where
  savedSp_eq : w'.savedSp i = w.savedSp i
  eqOn : Set.EqOn w'.cpu.mem w.cpu.mem (w.parkedStack i)

end World

/-- What can happen. -/
inductive SwitchEvent (ι : Type*) where
  /-- The running task computes. -/
  | compute
  /-- The running task makes the task `i`. -/
  | spawn (i : ι) (entry : Word)
  /-- The running task calls `switch_context`, to go on at `ra` when it is resumed. -/
  | switch (next : ι) (ra : Word)

/-- The steps of the system. -/
inductive SwitchStep (taskTrampoline : Word) :
    World st → SwitchEvent ι → World st → Prop
  /-- The running task leaves the parked tasks alone. -/
  | compute {w w' : World st} (hcurrent : w'.current = w.current)
      (hlive : w'.table.live = w.table.live) (hkept : ∀ i, w.IsParked i → w.Undisturbed w' i) :
      SwitchStep taskTrampoline w .compute w'
  /-- `Task::new` prepares the stack of the task, and the table gets its stack pointer. -/
  | spawn {w w' : World st} {i : ι} {entry : Word} (hnew : i ∉ w.table.live)
      (hcurrent : w'.current = w.current) (hlive : w'.table.live = insert i w.table.live)
      (hslot : ∀ j ∈ w.table.live, w'.table.slot j = w.table.slot j)
      (hcpu : w'.cpu = { w.cpu with
        mem := (newStack w.cpu.mem (st.base i) entry taskTrampoline).write64 (w'.table.slot i)
          (newSavedSp (st.base i)) }) :
      SwitchStep taskTrampoline w (.spawn i entry) w'
  /-- The call has room on the stack of the running task. -/
  | switch {w w' : World st} {next : ι} {ra : Word} (hnext : w.IsParked next)
      (hrdi : w.cpu.reg .rdi = w.table.slot w.current) (hrsi : w.cpu.reg .rsi = w.savedSp next)
      (hroom : contextSize ≤ (w.cpu.reg .rsp - st.base w.current).toNat)
      (htop : (w.cpu.reg .rsp - st.base w.current).toNat ≤ stackSize)
      (hcurrent : w'.current = next) (htable : w'.table = w.table)
      (hcpu : w'.cpu = (w.cpu.push ra).run switchContext) :
      SwitchStep taskTrampoline w (.switch next ra) w'

namespace World

variable {w w' : World st} {i next : ι} {e : SwitchEvent ι} {regs : List Word}
  {sp ra ra' entry : Word}

/-! ## Parked tasks -/

/-- The task is parked with the values `regs` of its saved registers, to go on at `ra` with the
stack pointer `sp`. -/
structure Parks (w : World st) (i : ι) (regs : List Word) (sp ra : Word) : Prop where
  length : regs.length = 6
  stored : w.cpu.mem.Stored (w.savedSp i) (regs ++ [ra])
  sp_eq : w.savedSp i + BitVec.ofNat 64 contextSize = sp
  room : (w.savedSp i - st.base i).toNat + contextSize ≤ stackSize

/-- The saved context of a task lies where nothing is written. -/
lemma Parks.span_subset (h : w.Parks i regs sp ra) :
    span (w.savedSp i) (8 * (regs ++ [ra]).length) ⊆ w.parkedStack i := by
  have hlen : 8 * (regs ++ [ra]).length = contextSize := by
    rw [List.length_append, h.length]
    rfl
  rw [hlen]
  intro x hx
  refine ⟨ProgLib.span_subset h.room hx, ?_⟩
  have hroom := h.room
  rw [mem_span] at hx
  simp only [contextSize, stackSize] at hx hroom
  bv_omega

/-- A task that is left alone stays parked. -/
lemma Parks.of_undisturbed (h : w.Parks i regs sp ra) (hkept : w.Undisturbed w' i) :
    w'.Parks i regs sp ra where
  length := h.length
  stored := hkept.savedSp_eq ▸ h.stored.congr (hkept.eqOn.mono h.span_subset)
  sp_eq := hkept.savedSp_eq ▸ h.sp_eq
  room := hkept.savedSp_eq ▸ h.room

/-- What is neither written on the stack of the running task nor in the table is kept. -/
lemma eqOn_parkedMem {s : Set Word}
    (hroom : contextSize ≤ (w.cpu.reg .rsp - st.base w.current).toNat)
    (htop : (w.cpu.reg .rsp - st.base w.current).toNat ≤ stackSize)
    (hstack : Disjoint s (st.bytes w.current))
    (hslot : Disjoint s (span (w.cpu.reg .rdi) 8)) :
    Set.EqOn (parkedMem w.cpu ra) w.cpu.mem s := by
  refine (Memory.eqOn_write64 hslot).trans (Memory.eqOn_pushWords (hstack.mono_right ?_))
  refine ProgLib.span_subset ?_
  show (w.cpu.reg .rsp - BitVec.ofNat 64 contextSize - st.base w.current).toNat + contextSize ≤
    stackSize
  simp only [contextSize, stackSize] at hroom htop ⊢
  bv_omega

/-! ## The steps -/

lemma isParked_of_switch (h : SwitchStep taskTrampoline w (.switch next ra) w') :
    w'.IsParked w.current := by
  cases h with
  | switch hnext _ _ _ _ hcurrent htable _ =>
    exact ⟨htable ▸ w.current_live, hcurrent ▸ hnext.2.symm⟩

/-- A call of `switch_context` parks the running task. -/
lemma parks_of_switch (h : SwitchStep taskTrampoline w (.switch next ra) w') :
    w'.Parks w.current (savedRegs.map w.cpu.reg) (w.cpu.reg .rsp) ra := by
  cases h with
  | switch hnext hrdi hrsi hroom htop hcurrent htable hcpu =>
    have hmem : w'.cpu.mem = parkedMem w.cpu ra := by rw [hcpu, mem_switchContext]
    have hsp : w'.savedSp w.current = w.cpu.reg .rsp - BitVec.ofNat 64 contextSize := by
      rw [savedSp, htable, hmem, parkedMem, hrdi, Memory.read64_write64]
    have hsub : (w.cpu.reg .rsp - BitVec.ofNat 64 contextSize - st.base w.current).toNat +
        contextSize ≤ stackSize := by
      simp only [contextSize, stackSize] at hroom htop ⊢
      bv_omega
    refine ⟨rfl, ?_, ?_, ?_⟩
    · rw [hsp, hmem, parkedMem, hrdi]
      have hpushed : (w.cpu.mem.pushWords (w.cpu.reg .rsp)
          (ra :: savedRegs.reverse.map w.cpu.reg)).Stored
          (w.cpu.reg .rsp - BitVec.ofNat 64 contextSize)
          (savedRegs.map w.cpu.reg ++ [ra]) :=
        Memory.stored_pushWords (show Memory.Stored _ _ [] from trivial)
          (show 8 * (7 + 0) ≤ 2 ^ 64 by decide)
      refine hpushed.congr (Memory.eqOn_write64 (Disjoint.mono_left ?_
        (w.table.slot_stack _ w.current_live _ w.current_live).symm))
      exact ProgLib.span_subset hsub
    · rw [hsp]
      exact BitVec.sub_add_cancel _ _
    · rw [hsp]
      exact hsub

lemma isParked_of_spawn (h : SwitchStep taskTrampoline w (.spawn i entry) w') :
    w'.IsParked i := by
  cases h with
  | spawn hnew hcurrent hlive _ _ =>
    refine ⟨hlive ▸ Set.mem_insert i _, ?_⟩
    rw [hcurrent]
    exact (ne_of_mem_of_not_mem w.current_live hnew).symm

/-- A task that is made is parked at its entry. -/
lemma parks_of_spawn (h : SwitchStep taskTrampoline w (.spawn i entry) w') :
    w'.Parks i [entry, 0, 0, 0, 0, 0] (stackTop (st.base i)) taskTrampoline := by
  cases h with
  | spawn hnew hcurrent hlive hslot hcpu =>
    have hsp : w'.savedSp i = newSavedSp (st.base i) := by
      rw [savedSp, hcpu, Memory.read64_write64]
    have hi : i ∈ w'.table.live := hlive ▸ Set.mem_insert i _
    refine ⟨rfl, ?_, ?_, ?_⟩
    · rw [hsp, hcpu]
      refine stored_newStack.congr (Memory.eqOn_write64 ?_)
      exact (w'.table.slot_stack i hi i hi).symm.mono_left
        (ProgLib.span_subset (newSavedSp_room _))
    · rw [hsp]
      exact BitVec.sub_add_cancel _ _
    · rw [hsp]
      exact newSavedSp_room _

/-- Where neither the stack pointer of a task nor its stack is written, it is left alone. -/
lemma Undisturbed.of_eqOn (hslot : w'.table.slot i = w.table.slot i)
    (hsp : Set.EqOn w'.cpu.mem w.cpu.mem (span (w.table.slot i) 8))
    (hstack : Set.EqOn w'.cpu.mem w.cpu.mem (st.bytes i)) : w.Undisturbed w' i where
  savedSp_eq := by rw [savedSp, savedSp, hslot, Memory.read64_congr hsp]
  eqOn := hstack.mono fun _ hx => hx.1

/-- A step that does not resume a parked task leaves it alone. -/
lemma undisturbed_of_step
    (h : SwitchStep taskTrampoline w e w') (hi : w.IsParked i) (he : ∀ ra, e ≠ .switch i ra) :
    w'.IsParked i ∧ w.Undisturbed w' i := by
  cases h with
  | compute hcurrent hlive hkept =>
    exact ⟨⟨hlive ▸ hi.1, hcurrent ▸ hi.2⟩, hkept i hi⟩
  | @spawn _ j entry hnew hcurrent hlive hslot hcpu =>
    have hlive_i : i ∈ w'.table.live := hlive ▸ Set.mem_insert_of_mem j hi.1
    have hlive_j : j ∈ w'.table.live := hlive ▸ Set.mem_insert j _
    have hne : i ≠ j := ne_of_mem_of_not_mem hi.1 hnew
    have hkept : ∀ s, Disjoint s (st.bytes j) →
        Disjoint s (span (w'.table.slot j) 8) → Set.EqOn w'.cpu.mem w.cpu.mem s := by
      intro s hs hs'
      rw [hcpu]
      exact (Memory.eqOn_write64 hs').trans (eqOn_newStack hs)
    refine ⟨⟨hlive_i, hcurrent ▸ hi.2⟩, .of_eqOn (hslot i hi.1) ?_ ?_⟩
    · rw [← hslot i hi.1]
      exact hkept _ (w'.table.slot_stack i hlive_i j hlive_j)
        (w'.table.slot_disjoint hlive_i hlive_j hne)
    · exact hkept _ (st.disjoint hne) (w'.table.slot_stack j hlive_j i hlive_i).symm
  | @switch _ next ra hnext hrdi hrsi hroom htop hcurrent htable hcpu =>
    have hne : i ≠ next := fun hin => he ra (hin ▸ rfl)
    have hmem : w'.cpu.mem = parkedMem w.cpu ra := by rw [hcpu, mem_switchContext]
    refine ⟨⟨htable ▸ hi.1, hcurrent ▸ hne⟩, .of_eqOn (by rw [htable]) ?_ ?_⟩
    · rw [hmem]
      refine eqOn_parkedMem hroom htop (w.table.slot_stack i hi.1 _ w.current_live) ?_
      rw [hrdi]
      exact w.table.slot_disjoint hi.1 w.current_live hi.2
    · rw [hmem]
      refine eqOn_parkedMem hroom htop (st.disjoint hi.2) ?_
      rw [hrdi]
      exact (w.table.slot_stack _ w.current_live i hi.1).symm

/-- The switch that resumes a parked task restores its context. -/
lemma resumes_of_switch
    (h : SwitchStep taskTrampoline w (.switch i ra') w') (hi : w.Parks i regs sp ra) :
    savedRegs.map w'.cpu.reg = regs ∧ w'.cpu.reg .rsp = sp ∧ w'.cpu.rip = ra := by
  cases h with
  | switch hnext hrdi hrsi hroom htop hcurrent htable hcpu =>
    have hkept : Set.EqOn (parkedMem w.cpu ra') w.cpu.mem (st.bytes i) := by
      refine eqOn_parkedMem hroom htop (st.disjoint hnext.2) ?_
      rw [hrdi]
      exact (w.table.slot_stack _ w.current_live i hnext.1).symm
    have hstored : (parkedMem w.cpu ra').Stored (w.cpu.reg .rsi) (regs ++ [ra]) := by
      rw [hrsi]
      exact hi.stored.congr (hkept.mono (hi.span_subset.trans fun _ hx => hx.1))
    rw [hcpu, ← hi.sp_eq, ← hrsi]
    exact run_switchContext hstored hi.length

end World

/-! ## Runs -/

open World

/-- A task stays parked until it is resumed. -/
lemma parks_of_run
    {w w' : World st} {tr : List (Transition (World st) (SwitchEvent ι))} {i : ι}
    {regs : List Word} {sp ra : Word} (h : Run (SwitchStep taskTrampoline) w tr w')
    (hparked : w.IsParked i) (hi : w.Parks i regs sp ra)
    (htr : ∀ x ∈ tr, ∀ ra, x.event ≠ .switch i ra) : w'.IsParked i ∧ w'.Parks i regs sp ra := by
  refine (h.invariant_of (I := fun w => w.IsParked i ∧ w.Parks i regs sp ra)
    (C := fun _ e => ∀ ra, e ≠ .switch i ra) ?_ htr ⟨hparked, hi⟩).1
  intro w e w' hw he hstep
  obtain ⟨hparked', hkept⟩ := undisturbed_of_step hstep hw.1 he
  exact ⟨hparked', hw.2.of_undisturbed hkept⟩

/-- The switch that resumes a parked task at the end of a run restores its context. -/
lemma resumes_of_run
    {w w' : World st} {tr tr' : List (Transition (World st) (SwitchEvent ι))}
    {y : Transition (World st) (SwitchEvent ι)} {i : ι} {regs : List Word} {sp ra ra' : Word}
    (h : Run (SwitchStep taskTrampoline) w (tr ++ y :: tr') w') (hparked : w.IsParked i)
    (hi : w.Parks i regs sp ra) (htr : ∀ x ∈ tr, ∀ ra, x.event ≠ .switch i ra)
    (hy : y.event = .switch i ra') :
    savedRegs.map y.post.cpu.reg = regs ∧ y.post.cpu.reg .rsp = sp ∧ y.post.cpu.rip = ra := by
  obtain ⟨v, hrun, hrun'⟩ := h.exists_of_append
  have hparks := (parks_of_run hrun hparked hi htr).2
  cases hrun' with
  | cons hstep _ =>
    subst hy
    exact resumes_of_switch hstep hparks

/-- **Context switches are transparent.**  The switch that resumes a task after its call of
`switch_context` returns to the return address of that call, with the callee-saved registers and
the stack pointer of that call.  The first switch into a new task goes to `task_trampoline`, with
its entry in `r15`, an aligned stack pointer, and the slots it was read from inside its stack. -/
theorem switch_transparent
    {w w' : World st} {tr₁ tr₂ tr₃ : List (Transition (World st) (SwitchEvent ι))}
    {x y : Transition (World st) (SwitchEvent ι)} {i : ι} {ra : Word}
    (hrun : Run (SwitchStep taskTrampoline) w (tr₁ ++ x :: (tr₂ ++ y :: tr₃)) w')
    (hy : y.event = .switch i ra) (htr : ∀ z ∈ tr₂, ∀ ra, z.event ≠ .switch i ra) :
    (∀ next ra₀, x.pre.current = i → x.event = .switch next ra₀ →
        (∀ r ∈ [Reg.rbx, .rbp, .r12, .r13, .r14, .r15], y.post.cpu.reg r = x.pre.cpu.reg r) ∧
        y.post.cpu.reg .rsp = x.pre.cpu.reg .rsp ∧ y.post.cpu.rip = ra₀) ∧
      ∀ entry, x.event = .spawn i entry →
        y.post.cpu.rip = taskTrampoline ∧ y.post.cpu.reg .r15 = entry ∧
        16 ∣ (y.post.cpu.reg .rsp).toNat ∧
        span (x.post.savedSp i) contextSize ⊆ st.bytes i := by
  obtain ⟨u, -, hrun'⟩ := hrun.exists_of_append
  cases hrun' with
  | cons hx htail =>
    refine ⟨fun next ra₀ hcurrent he => ?_, fun entry he => ?_⟩
    · subst hcurrent he
      have hparked := isParked_of_switch hx
      obtain ⟨hregs, hsp, hra⟩ := resumes_of_run htail hparked (parks_of_switch hx) htr hy
      refine ⟨fun r hr => List.map_inj_left.mp hregs r ?_, hsp, hra⟩
      revert r
      decide
    · subst he
      have hparks := parks_of_spawn hx
      have hparked := isParked_of_spawn hx
      obtain ⟨hregs, hsp, hra⟩ := resumes_of_run htail hparked hparks htr hy
      refine ⟨hra, ?_, hsp ▸ sixteen_dvd_stackTop _, ProgLib.span_subset hparks.room⟩
      exact List.head_eq_of_cons_eq hregs

/-! ### A run of two tasks -/

/-- Two stacks, the second of which is not aligned to 16 bytes. -/
def twoStacks : TaskStacks Bool where
  base i := if i then 0x20008 else 0x10000
  disjoint := by
    rintro (_ | _) (_ | _) hne
    · exact absurd rfl hne
    · exact span_disjoint (by decide) (by decide)
    · exact span_disjoint (by decide) (by decide)
    · exact absurd rfl hne

/-- A table of the two tasks below their stacks. -/
def twoTable (live : Set Bool) : TaskTable twoStacks where
  live := live
  slot i := if i then 0x1018 else 0x1000
  slot_disjoint := by
    rintro (_ | _) - (_ | _) - hne
    · exact absurd rfl hne
    · exact span_disjoint (by decide) (by decide)
    · exact span_disjoint (by decide) (by decide)
    · exact absurd rfl hne
  slot_stack := by
    rintro (_ | _) - (_ | _) - <;> exact span_disjoint (by decide) (by decide)

/-- The first task is about to make the second one and to switch to it. -/
def twoBefore : World twoStacks where
  cpu := {
    reg := fun
      | .rdi => 0x1000
      | .rsi => newSavedSp 0x20008
      | .rsp => 0x13ff8
      | _ => 7
    rip := 0
    rflags := 0
    cs := 0
    ss := 0
    mem := fun _ => 0 }
  current := false
  table := twoTable {false}
  current_live := Set.mem_singleton false

/-- The second task, entered at `0x5000`, is made. -/
def twoMade : World twoStacks where
  cpu := { twoBefore.cpu with
    mem := (newStack twoBefore.cpu.mem 0x20008 0x5000 0x4000).write64 0x1018
      (newSavedSp 0x20008) }
  current := false
  table := twoTable (insert true {false})
  current_live := Set.mem_insert_of_mem true rfl

/-- The first task has called `switch_context` with the return address `0x6000`. -/
def twoSwitched : World twoStacks where
  cpu := (twoMade.cpu.push 0x6000).run switchContext
  current := true
  table := twoMade.table
  current_live := Set.mem_insert true _

/-- The running task loads its registers. -/
def World.load (w : World st) (reg : Reg → Word) : World st :=
  { w with cpu := { w.cpu with reg := reg } }

lemma step_load (w : World st) (reg : Reg → Word) :
    SwitchStep taskTrampoline w .compute (w.load reg) :=
  .compute rfl rfl fun _ _ => ⟨rfl, Set.eqOn_refl _ _⟩

/-- The second task is about to switch back. -/
def twoComputed : World twoStacks :=
  twoSwitched.load fun
    | .rdi => 0x1018
    | .rsi => twoSwitched.savedSp false
    | .rsp => 0x24000
    | _ => 9

/-- The second task has called `switch_context`. -/
def twoResumed : World twoStacks where
  cpu := (twoComputed.cpu.push 0x6008).run switchContext
  current := false
  table := twoMade.table
  current_live := Set.mem_insert_of_mem true rfl

lemma step_twoMade :
    SwitchStep 0x4000 twoBefore (.spawn true 0x5000) twoMade :=
  .spawn (by simp [twoBefore, twoTable]) rfl rfl (fun _ _ => rfl) rfl

lemma step_twoSwitched : SwitchStep 0x4000 twoMade (.switch true 0x6000) twoSwitched := by
  refine .switch ⟨Set.mem_insert true _, by decide⟩ rfl ?_ (by decide) (by decide) rfl rfl rfl
  exact (Memory.read64_write64 _ _ _).symm

lemma step_twoResumed : SwitchStep 0x4000 twoComputed (.switch false 0x6008) twoResumed := by
  refine .switch ⟨Set.mem_insert_of_mem true rfl, by decide⟩ rfl ?_ (by decide) (by decide) rfl rfl
    rfl
  rw [twoComputed]
  rfl

/-- The first task makes the second one, switches to it and is resumed. -/
lemma run_twoTasks : Run (SwitchStep 0x4000) twoBefore
    ([⟨twoBefore, .spawn true 0x5000, twoMade⟩] ++ ⟨twoMade, .switch true 0x6000, twoSwitched⟩ ::
      ([⟨twoSwitched, .compute, twoComputed⟩] ++
        ⟨twoComputed, .switch false 0x6008, twoResumed⟩ :: [])) twoResumed :=
  .cons step_twoMade <| .cons step_twoSwitched <| .cons (step_load _ _) <|
    .cons step_twoResumed <| .nil _

/-- The first task gets its registers back. -/
theorem switch_transparent_twoTasks :
    (∀ r ∈ [Reg.rbx, .rbp, .r12, .r13, .r14, .r15],
        twoResumed.cpu.reg r = twoMade.cpu.reg r) ∧
      twoResumed.cpu.reg .rsp = twoMade.cpu.reg .rsp ∧ twoResumed.cpu.rip = 0x6000 :=
  (switch_transparent run_twoTasks rfl (by simp)).1 _ _ rfl rfl

end ZiranOS
