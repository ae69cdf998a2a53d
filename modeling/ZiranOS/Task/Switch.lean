import ZiranOS.Lib.Cpu
import ZiranOS.Task.Scheduler

/-!
# The context switch

The instructions of `switch_context`, and the stack image that `Task::new` writes so that the first
switch into a task goes to `task_trampoline`.  A task is parked when the words of its callee-saved
registers and its return address lie on its stack, from the stack pointer that the scheduler keeps
for it; `run_switchContext` says what a switch does in these terms.
-/

namespace ZiranOS

open ProgLib

/-! ## The code -/

/-- `switch_context`, with the address for the stack pointer of the outgoing task in `rdi` and the
stack pointer of the incoming task in `rsi`. -/
def switchContext : List Instr :=
  [.push .rbp, .push .rbx, .push .r12, .push .r13, .push .r14, .push .r15,
    .store .rdi .rsp,
    .mov .rsp .rsi,
    .pop .r15, .pop .r14, .pop .r13, .pop .r12, .pop .rbx, .pop .rbp,
    .ret]

/-- The registers that a parked task keeps on its stack, from its stack pointer up. -/
def savedRegs : List Reg := [.r15, .r14, .r13, .r12, .rbx, .rbp]

/-- Bytes of a parked context: the saved registers and the return address. -/
def contextSize : ℕ := 7 * 8

/-- The memory after `switch_context`, called with the return address `ra`, has parked the outgoing
task. -/
def parkedMem (c : Cpu) (ra : Word) : Memory :=
  (c.mem.pushWords (c.reg .rsp) (ra :: savedRegs.reverse.map c.reg)).write64 (c.reg .rdi)
    (c.reg .rsp - BitVec.ofNat 64 contextSize)

/-! ## A new task -/

/-- The 16-byte aligned top of a stack. -/
def stackTop (base : Word) : Word := (base + BitVec.ofNat 64 stackSize) &&& ~~~0xF

/-- The stack pointer of a new task: seven slots below the top of its stack. -/
def newSavedSp (base : Word) : Word := stackTop base - BitVec.ofNat 64 contextSize

/-- The seven slots, from the lowest address up: `r15`, `r14`, `r13`, `r12`, `rbx`, `rbp` and the
return address. -/
def newContext (entry taskTrampoline : Word) : List Word :=
  [entry, 0, 0, 0, 0, 0, taskTrampoline]

/-- `Task::new` clears the stack and writes the slots. -/
def newStack (m : Memory) (base entry taskTrampoline : Word) : Memory :=
  Memory.writeWords (fun x => if x ∈ span base stackSize then 0 else m x) (newSavedSp base)
    (newContext entry taskTrampoline)

/-! ## What they do -/

lemma switchContext_eq : switchContext =
    savedRegs.reverse.map .push ++ [.store .rdi .rsp, .mov .rsp .rsi] ++ savedRegs.map .pop ++
      [.ret] := rfl

/-- The first half parks the outgoing task and adopts the stack of the incoming one. -/
lemma run_park (c : Cpu) (ra : Word) :
    (c.push ra).run (savedRegs.reverse.map .push ++ [.store .rdi .rsp, .mov .rsp .rsi]) =
      { c.setReg .rsp (c.reg .rsi) with mem := parkedMem c ra } := by
  have hregs : savedRegs.reverse.map (c.push ra).reg = savedRegs.reverse.map c.reg :=
    List.map_congr_left fun r hr =>
      Function.update_of_ne (ne_of_mem_of_not_mem hr (by decide)) _ _
  rw [Cpu.run_append, Cpu.run_push (by decide), hregs, Cpu.push_pushWords]
  simp [Instr.exec, Cpu.setReg, Cpu.pushWords, parkedMem, savedRegs, contextSize]

/-- After a switch the outgoing task is parked. -/
lemma mem_switchContext (c : Cpu) (ra : Word) :
    ((c.push ra).run switchContext).mem = parkedMem c ra := by
  rw [switchContext_eq, List.append_assoc, Cpu.run_append, run_park, Cpu.run_append, Cpu.run_pop]
  rfl

/-- A switch to a stack pointer with a parked context at it restores the context. -/
lemma run_switchContext {c : Cpu} {ra ra' : Word} {regs : List Word}
    (h : (parkedMem c ra).Stored (c.reg .rsi) (regs ++ [ra'])) (hlen : regs.length = 6) :
    let c' := (c.push ra).run switchContext
    savedRegs.map c'.reg = regs ∧
      c'.reg .rsp = c.reg .rsi + BitVec.ofNat 64 contextSize ∧ c'.rip = ra' := by
  rw [switchContext_eq, List.append_assoc, Cpu.run_append, run_park]
  have hsp : (c.setReg .rsp (c.reg .rsi)).reg .rsp = c.reg .rsi := by simp [Cpu.setReg]
  obtain ⟨hregs, hrsp, hrip⟩ := Cpu.run_pop_ret
    (c := { c.setReg .rsp (c.reg .rsi) with mem := parkedMem c ra })
    (show Reg.rsp ∉ savedRegs by decide) (by decide) (hsp.symm ▸ h) hlen
  exact ⟨hregs, hrsp.trans (congrArg (· + _) hsp), hrip⟩

/-! ## The stack of a new task -/

lemma toNat_stackTop (base : Word) :
    (stackTop base).toNat = (base + BitVec.ofNat 64 stackSize).toNat / 16 * 16 :=
  toNat_and_not_fifteen _

/-- The top of a stack is aligned as the calling convention wants it. -/
lemma sixteen_dvd_stackTop (base : Word) : 16 ∣ (stackTop base).toNat :=
  toNat_stackTop base ▸ Nat.dvd_mul_left 16 _

/-- The slots of a new task lie in its stack. -/
lemma newSavedSp_room (base : Word) :
    (newSavedSp base - base).toNat + contextSize ≤ stackSize := by
  have htop := toNat_stackTop base
  simp only [newSavedSp, contextSize, stackSize] at htop ⊢
  bv_omega

/-- The stack pointer of a new task is the one the scheduler keeps for it. -/
lemma toNat_newSavedSp (id : ℕ) {base : Word} (h : base.toNat + stackSize < 2 ^ 64) :
    (newSavedSp base).toNat = (Task.new id base.toNat).savedSp := by
  have htop := toNat_stackTop base
  simp only [newSavedSp, Task.new, contextSize, stackSize] at h htop ⊢
  bv_omega

variable {m : Memory} {base entry taskTrampoline : Word}

/-- A new task is parked at its entry. -/
lemma stored_newStack :
    (newStack m base entry taskTrampoline).Stored (newSavedSp base)
      (newContext entry taskTrampoline) :=
  Memory.stored_writeWords (show 8 * 7 ≤ 2 ^ 64 by decide)

/-- Making a task writes its own stack only. -/
lemma eqOn_newStack {s : Set Word} (h : Disjoint s (span base stackSize)) :
    Set.EqOn (newStack m base entry taskTrampoline) m s := by
  refine (Memory.eqOn_writeWords (h.mono_right (span_subset (newSavedSp_room base)))).trans ?_
  intro x hx
  exact if_neg (Set.disjoint_left.mp h hx)

end ZiranOS
