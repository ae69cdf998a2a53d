import ZiranOS.Lib.Cpu
import ZiranOS.Syscall.Dispatch

/-!
# The interrupt path

The stubs and the shared tail of the interrupt service routines, and `interrupt_dispatch`, to which
they hand the saved registers.  The stubs bring the frames with and without an error code into one
layout; `contextAt_saveContext` says that this layout is the one of `InterruptContext`, and
`run_restoreContext` that the way out loads what the context then holds.
-/

namespace ZiranOS

open ProgLib

/-! ## The dispatcher -/

/-- Vector of the timer. -/
def timerVector : ℕ := 0x20
/-- Vector of the keyboard. -/
def keyboardVector : ℕ := 0x21
/-- Vector of the system calls. -/
def syscallVector : ℕ := 0x80

/-- What an interrupt changes: the state of the system calls, and the vector of the last violation
that was caught, `LAST_VIOLATION`. -/
structure DispatchState extends SyscallState where
  lastViolation : ℕ

/-- Why a dispatch does not come back. -/
inductive DispatchStop where
  | halted
  | syscall (why : SyscallStop)
  deriving DecidableEq, Repr

namespace Machine

/-- Record a violation and unwind to the kernel. -/
def recoverFromViolation (m : Machine) (st : DispatchState) (vector : ℕ) :
    Exec DispatchStop DispatchState := do
  let ctx ← (m.resumeKernel st.ctx).mapFail .syscall
  pure { st with ctx := ctx, lastViolation := vector }

/-- Handle an interrupt.  The timer and the keyboard come back with the context they were given. -/
def interruptDispatch (m : Machine) (fuel : ℕ) (st : DispatchState) :
    Exec DispatchStop DispatchState :=
  let vector := st.ctx.vector
  if vector = 3 then
    pure st
  else if (vector = 13 ∨ vector = 14) ∧ st.ctx.cpl = 3 then
    m.recoverFromViolation st vector
  else if vector = 14 then
    Exec.fail .halted
  else if vector = timerVector then
    pure st
  else if vector = keyboardVector then
    pure st
  else if vector = syscallVector then do
    let call ← (m.syscall fuel st.toSyscallState).out.mapFail .syscall
    pure { st with toSyscallState := call }
  else if 0x20 ≤ vector ∧ vector < 0x20 + 16 then
    -- a spurious interrupt
    pure st
  else
    Exec.fail .halted

end Machine

/-! ## The service routines -/

/-- The vectors for which the processor pushes an error code. -/
def errorVectors : List ℕ := [8, 10, 11, 12, 13, 14, 17, 21, 29, 30]

/-- The stub of a vector. -/
def isrStub (vector : ℕ) : List Instr :=
  if vector ∈ errorVectors then
    [.pushImm (BitVec.ofNat 64 vector)]
  else
    [.pushImm 0, .pushImm (BitVec.ofNat 64 vector)]

/-- `isr_common` up to the call of `interrupt_dispatch`. -/
def isrCommonSave : List Instr :=
  [.push .rax, .push .rbx, .push .rcx, .push .rdx, .push .rsi, .push .rdi, .push .rbp, .push .r8,
    .push .r9, .push .r10, .push .r11, .push .r12, .push .r13, .push .r14, .push .r15,
    .cld,
    .mov .rdi .rsp]

/-- `isr_common` after the call of `interrupt_dispatch`. -/
def isrCommonRestore : List Instr :=
  [.pop .r15, .pop .r14, .pop .r13, .pop .r12, .pop .r11, .pop .r10, .pop .r9, .pop .r8,
    .pop .rbp, .pop .rdi, .pop .rsi, .pop .rdx, .pop .rcx, .pop .rbx, .pop .rax,
    .addImm .rsp 16,
    .iretq]

/-- The fields of a context in the order of their declaration. -/
def InterruptContext.ofFields (field : ℕ → ℕ) : InterruptContext where
  r15 := field 0
  r14 := field 1
  r13 := field 2
  r12 := field 3
  r11 := field 4
  r10 := field 5
  r9 := field 6
  r8 := field 7
  rbp := field 8
  rdi := field 9
  rsi := field 10
  rdx := field 11
  rcx := field 12
  rbx := field 13
  rax := field 14
  vector := field 15
  errorCode := field 16
  rip := field 17
  cs := field 18
  rflags := field 19
  rsp := field 20
  ss := field 21

/-- The context at an address. -/
def contextAt (m : Memory) (a : Word) : InterruptContext :=
  .ofFields fun i => (m.read64 (a + BitVec.ofNat 64 (8 * i))).toNat

/-- Bytes of a context. -/
def interruptContextSize : ℕ := 22 * 8

/-- An interrupt from ring 3 up to the call of `interrupt_dispatch`. -/
def saveContext (c : Cpu) (rsp0 stub : Word) (vector : ℕ) (error : Word) : Cpu :=
  (c.interrupt rsp0 stub (BitVec.ofNat 16 kernelCode)
    (if vector ∈ errorVectors then some error else none)).run (isrStub vector ++ isrCommonSave)

/-! ## What they do -/

/-- The general registers of a context, from its first field on. -/
def contextRegs : List Reg :=
  [.r15, .r14, .r13, .r12, .r11, .r10, .r9, .r8, .rbp, .rdi, .rsi, .rdx, .rcx, .rbx, .rax]

lemma isrCommonSave_eq : isrCommonSave =
    contextRegs.reverse.map .push ++ [.cld, .mov .rdi .rsp] := rfl

lemma isrCommonRestore_eq : isrCommonRestore =
    contextRegs.map .pop ++ [.addImm .rsp 16, .iretq] := rfl

variable {c : Cpu} {rsp0 stub error : Word} {vector : ℕ}

/-- The words of the context of an interrupt, the last of them pushed first. -/
def contextWords (c : Cpu) (vector : ℕ) (error : Word) : List Word :=
  contextRegs.map c.reg ++
    [BitVec.ofNat 64 vector, if vector ∈ errorVectors then error else 0, c.rip,
      c.cs.setWidth 64, c.rflags, c.reg .rsp, c.ss.setWidth 64]

/-- Where the context of an interrupt lies. -/
def contextAddr (rsp0 : Word) : Word :=
  (rsp0 &&& ~~~0xF) - BitVec.ofNat 64 interruptContextSize

/-- What a stub pushes. -/
lemma run_isrStub (c : Cpu) (vector : ℕ) :
    c.run (isrStub vector) = c.pushWords ((if vector ∈ errorVectors then [] else [0]) ++
      [BitVec.ofNat 64 vector]) := by
  rw [isrStub]
  split_ifs
  · simp [Instr.exec, ← Cpu.push_pushWords, Cpu.pushWords_nil]
  · simp [Instr.exec, ← Cpu.push_pushWords, Cpu.pushWords_nil]

lemma length_contextWords : (contextWords c vector error).length = 22 := rfl

/-- The shared tail saves the registers that it finds and hands over the stack pointer. -/
lemma run_isrCommonSave (c : Cpu) (ws : List Word) :
    ((c.pushWords ws).run isrCommonSave).mem =
        c.mem.pushWords (c.reg .rsp) (ws ++ contextRegs.reverse.map c.reg) ∧
      ∀ r ∈ [Reg.rsp, .rdi], ((c.pushWords ws).run isrCommonSave).reg r =
        c.reg .rsp - BitVec.ofNat 64 (8 * (ws.length + 15)) := by
  have hregs : contextRegs.reverse.map (c.pushWords ws).reg = contextRegs.reverse.map c.reg :=
    List.map_congr_left fun r hr => Cpu.pushWords_reg (ne_of_mem_of_not_mem hr (by decide))
  have hlen : (ws ++ contextRegs.reverse.map c.reg).length = ws.length + 15 := by
    rw [List.length_append, List.length_map]
    rfl
  rw [isrCommonSave_eq, Cpu.run_append, Cpu.run_push (by decide), hregs, Cpu.pushWords_pushWords]
  refine ⟨rfl, fun r hr => ?_⟩
  rw [← hlen, ← Cpu.pushWords_rsp]
  rcases List.mem_pair.mp hr with rfl | rfl
  · simp [Instr.exec, Cpu.setReg]
  · simp [Instr.exec, Cpu.setReg]

/-- The processor, the stub and the shared tail push the context. -/
lemma saveContext_spec (c : Cpu) (rsp0 stub : Word) (vector : ℕ) (error : Word) :
    (saveContext c rsp0 stub vector error).mem =
        c.mem.pushWords (rsp0 &&& ~~~0xF) (contextWords c vector error).reverse ∧
      ∀ r ∈ [Reg.rsp, .rdi], (saveContext c rsp0 stub vector error).reg r = contextAddr rsp0 := by
  have hregs : contextRegs.reverse.map (c.setReg .rsp (rsp0 &&& ~~~0xF)).reg =
      contextRegs.reverse.map c.reg :=
    List.map_congr_left fun r hr =>
      Function.update_of_ne (ne_of_mem_of_not_mem hr (by decide)) _ _
  have hrsp : (c.setReg .rsp (rsp0 &&& ~~~0xF)).reg .rsp = rsp0 &&& ~~~0xF := by
    simp [Cpu.setReg]
  rw [saveContext, Cpu.run_append, run_isrStub, Cpu.interrupt, Cpu.pushWords_pushWords]
  obtain ⟨hmem, hreg⟩ := run_isrCommonSave
    { c.setReg .rsp (rsp0 &&& ~~~0xF) with
      rip := stub
      cs := BitVec.ofNat 16 kernelCode
      ss := 0
      rflags := c.rflags &&& ~~~Cpu.gateMask }
    ([c.ss.setWidth 64, c.reg .rsp, c.rflags, c.cs.setWidth 64, c.rip] ++
      (if vector ∈ errorVectors then some error else none).toList ++
      ((if vector ∈ errorVectors then [] else [0]) ++ [BitVec.ofNat 64 vector]))
  refine ⟨hmem.trans ?_, fun r hr => (hreg r hr).trans ?_⟩
  · rw [hrsp, hregs]
    refine congrArg (Memory.pushWords _ _) ?_
    split_ifs with herr <;> simp [contextWords, herr]
  · rw [hrsp, contextAddr, interruptContextSize]
    split_ifs <;> rfl

/-- The context that an interrupt saves, field by field. -/
def savedContext (c : Cpu) (vector : ℕ) (error : Word) : InterruptContext where
  r15 := (c.reg .r15).toNat
  r14 := (c.reg .r14).toNat
  r13 := (c.reg .r13).toNat
  r12 := (c.reg .r12).toNat
  r11 := (c.reg .r11).toNat
  r10 := (c.reg .r10).toNat
  r9 := (c.reg .r9).toNat
  r8 := (c.reg .r8).toNat
  rbp := (c.reg .rbp).toNat
  rdi := (c.reg .rdi).toNat
  rsi := (c.reg .rsi).toNat
  rdx := (c.reg .rdx).toNat
  rcx := (c.reg .rcx).toNat
  rbx := (c.reg .rbx).toNat
  rax := (c.reg .rax).toNat
  vector := vector
  errorCode := if vector ∈ errorVectors then error.toNat else 0
  rip := c.rip.toNat
  cs := c.cs.toNat
  rflags := c.rflags.toNat
  rsp := (c.reg .rsp).toNat
  ss := c.ss.toNat

lemma contextAt_of_stored {m : Memory} {a : Word} {ws : List Word} (h : m.Stored a ws)
    (hlen : ws.length = 22) : contextAt m a = .ofFields fun i => (ws.getD i 0).toNat := by
  have hfield : ∀ i < 22, m.read64 (a + BitVec.ofNat 64 (8 * i)) = ws.getD i 0 := by
    intro i hi
    rw [List.getD_eq_getElem _ _ (hlen ▸ hi)]
    exact h.read64 (hlen ▸ hi)
  simp only [contextAt, InterruptContext.ofFields, hfield, Nat.reduceLT]

/-- The context of an interrupt lies in memory word by word. -/
lemma stored_saveContext : (saveContext c rsp0 stub vector error).mem.Stored (contextAddr rsp0)
    (contextWords c vector error) := by
  have hpushed : (c.mem.pushWords (rsp0 &&& ~~~0xF) (contextWords c vector error).reverse).Stored
      (contextAddr rsp0) ((contextWords c vector error).reverse.reverse ++ []) :=
    Memory.stored_pushWords (show Memory.Stored _ _ [] from trivial)
      (show 8 * (22 + 0) ≤ 2 ^ 64 by decide)
  rwa [List.append_nil, List.reverse_reverse, ← (saveContext_spec c rsp0 stub vector error).1]
    at hpushed

/-- What the routines push, the dispatcher reads under the right names, for vectors with and
without an error code. -/
lemma contextAt_saveContext (hvector : vector < 256) :
    contextAt (saveContext c rsp0 stub vector error).mem (contextAddr rsp0) =
      savedContext c vector error := by
  have hvector' : (BitVec.ofNat 64 vector).toNat = vector := by
    rw [BitVec.toNat_ofNat]
    exact Nat.mod_eq_of_lt (by omega)
  have hselector : ∀ s : BitVec 16, s.toNat < 2 ^ 64 := fun s => s.isLt.trans (by decide)
  rw [contextAt_of_stored stored_saveContext length_contextWords]
  simp only [InterruptContext.ofFields, contextWords, contextRegs, savedContext]
  split_ifs <;> simp [hvector'] <;> exact ⟨hselector c.cs, hselector c.ss⟩

/-- The way out loads the registers of the context at the stack pointer. -/
lemma run_isrCommonRestore (c : Cpu) :
    (c.run isrCommonRestore).mem = c.mem ∧
      (c.run isrCommonRestore).rip.toNat = (contextAt c.mem (c.reg .rsp)).rip ∧
      (c.run isrCommonRestore).cs.toNat = (contextAt c.mem (c.reg .rsp)).cs % 2 ^ 16 ∧
      (c.run isrCommonRestore).rflags.toNat = (contextAt c.mem (c.reg .rsp)).rflags ∧
      ((c.run isrCommonRestore).reg .rsp).toNat = (contextAt c.mem (c.reg .rsp)).rsp := by
  have hrsp : Cpu.popRegs c.mem contextRegs c.reg .rsp = c.reg .rsp + 120 :=
    Cpu.popRegs_rsp (by decide)
  rw [isrCommonRestore_eq, Cpu.run_append, Cpu.run_pop]
  simp [Instr.exec, Cpu.setReg, Cpu.peek, hrsp, BitVec.add_assoc, contextAt,
    InterruptContext.ofFields]

end ZiranOS
