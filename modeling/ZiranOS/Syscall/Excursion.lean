import ZiranOS.Lib.Run
import ZiranOS.Syscall.Interrupt

/-!
# The excursion to ring 3

`usermode_enter` parks the kernel on the stack of its caller, notes the stack pointer and drops to
ring 3.  In ring 3 anything can happen to the registers and to the pages of the user; traps come
through the interrupt path.  The trap that ends the excursion finds its saved registers rewritten
and comes out at `usermode_resume`, on the stack that `usermode_enter` left.

What carries the proof is that no step of the excursion writes to the stack of the caller or to
`kernel_rsp` (`eqOn_of_step`).
-/

namespace ZiranOS

open ProgLib

/-! ## The code -/

/-- `usermode_enter`, with the entry in `rdi` and the top of the user stack in `rsi`. -/
def usermodeEnter (kernelRsp : Word) : List Instr :=
  [.push .rbx, .push .rbp, .push .r12, .push .r13, .push .r14, .push .r15,
    .storeAbs kernelRsp .rsp,
    .pushImm 0x23,
    .push .rsi,
    .pushImm 0x2,
    .pushImm 0x1b,
    .push .rdi,
    .iretq]

/-- `usermode_resume`. -/
def usermodeResume : List Instr :=
  [.pop .r15, .pop .r14, .pop .r13, .pop .r12, .pop .rbp, .pop .rbx, .ret]

/-- The registers that the kernel keeps on the stack, from the lowest address up. -/
def kernelRegs : List Reg := [.r15, .r14, .r13, .r12, .rbp, .rbx]

lemma usermodeEnter_eq (kernelRsp : Word) : usermodeEnter kernelRsp =
    kernelRegs.reverse.map .push ++
      [.storeAbs kernelRsp .rsp, .pushImm 0x23, .push .rsi, .pushImm 0x2, .pushImm 0x1b,
        .push .rdi, .iretq] := rfl

lemma usermodeResume_eq : usermodeResume = kernelRegs.map .pop ++ [.ret] := rfl

/-! ## The system -/

/-- Size of the stack of the task state segment. -/
def privStackSize : ℕ := 16 * 1024

/-- Where things lie: the stack `rsp0` of the task state segment, `kernel_rsp`, the label
`usermode_resume`, the stubs, the stack of the caller and the pages of the user. -/
structure Excursion where
  rsp0 : Word
  kernelRsp : Word
  usermodeResume : Word
  isrStubTable : ℕ → Word
  callerStack : Set Word
  userPages : Set Word
  priv_caller : Disjoint (span (rsp0 - BitVec.ofNat 64 privStackSize) privStackSize) callerStack
  priv_kernelRsp :
    Disjoint (span (rsp0 - BitVec.ofNat 64 privStackSize) privStackSize) (span kernelRsp 8)
  caller_kernelRsp : Disjoint callerStack (span kernelRsp 8)
  user_caller : Disjoint userPages callerStack
  user_kernelRsp : Disjoint userPages (span kernelRsp 8)

/-- What happens in ring 3. -/
inductive Ring3Event where
  /-- The program computes. -/
  | compute
  /-- The processor takes a trap. -/
  | trap (vector : ℕ) (error : Word)

namespace Excursion

/-- What the kernel needs to come back. -/
def kept (x : Excursion) : Set Word := x.callerStack ∪ span x.kernelRsp 8

/-- What the dispatcher reads: the page tables and the memory behind them, the label and
`kernel_rsp`. -/
def machine (x : Excursion) (m : Memory) (tables : Paging) (bytes : ℕ → UInt8) : Machine where
  tables := tables
  bytes := bytes
  usermodeResume := x.usermodeResume.toNat
  kernelRsp := (m.read64 x.kernelRsp).toNat

/-- A trap up to the call of `interrupt_dispatch`. -/
def save (x : Excursion) (c : Cpu) (vector : ℕ) (error : Word) : Cpu :=
  saveContext c x.rsp0 (x.isrStubTable vector) vector error

/-- The steps of ring 3.  The program writes its own pages only.  A trap is a system call or a
violation; the dispatcher returns with the stack pointer it was called with, writes the context it
was given and may write what the kernel does not need to come back. -/
inductive Step (x : Excursion) : Cpu → Ring3Event → Cpu → Prop
  | compute {c c' : Cpu} (hcpl : c.cpl = 3) (hcpl' : c'.cpl = 3)
      (hmem : Set.EqOn c'.mem c.mem (Compl.compl x.userPages)) : Step x c .compute c'
  | trap {c d : Cpu} {vector fuel : ℕ} {error : Word} {tables : Paging} {bytes : ℕ → UInt8}
      {capture : Capture} {lastViolation : ℕ} {st : DispatchState} (hcpl : c.cpl = 3)
      (hvector : vector = 13 ∨ vector = 14 ∨ vector = syscallVector)
      (hdispatch : (x.machine (x.save c vector error).mem tables bytes).interruptDispatch fuel
        { ctx := contextAt (x.save c vector error).mem ((x.save c vector error).reg .rdi)
          capture := capture
          lastViolation := lastViolation } = .ok st)
      (hrsp : d.reg .rsp = (x.save c vector error).reg .rsp)
      (hctx : contextAt d.mem ((x.save c vector error).reg .rdi) = st.ctx)
      (hkept : Set.EqOn d.mem (x.save c vector error).mem x.kept) :
      Step x c (.trap vector error) (d.run isrCommonRestore)

variable {x : Excursion} {c u t : Cpu} {e : Ring3Event} {vector : ℕ} {error ra : Word}

/-! ## What the steps keep -/

lemma disjoint_priv_kept (x : Excursion) :
    Disjoint (span (x.rsp0 - BitVec.ofNat 64 privStackSize) privStackSize) x.kept :=
  Set.disjoint_union_right.mpr ⟨x.priv_caller, x.priv_kernelRsp⟩

lemma disjoint_user_kept (x : Excursion) : Disjoint x.userPages x.kept :=
  Set.disjoint_union_right.mpr ⟨x.user_caller, x.user_kernelRsp⟩

/-- A trap is saved on the stack of the task state segment. -/
lemma eqOn_save (x : Excursion) (c : Cpu) (vector : ℕ) (error : Word) :
    Set.EqOn (x.save c vector error).mem c.mem x.kept := by
  rw [save, (saveContext_spec _ _ _ _ _).1]
  refine Memory.eqOn_pushWords (x.disjoint_priv_kept.symm.mono_right (span_subset ?_))
  have halign := toNat_and_not_fifteen x.rsp0
  rw [List.length_reverse, length_contextWords]
  simp only [privStackSize]
  bv_omega

/-- No step writes what the kernel needs to come back. -/
lemma eqOn_of_step (h : x.Step c e u) : Set.EqOn u.mem c.mem x.kept := by
  cases h with
  | compute _ _ hmem =>
    exact hmem.mono (Set.disjoint_right.mp x.disjoint_user_kept)
  | trap _ _ _ _ _ hkept =>
    rw [(run_isrCommonRestore _).1]
    exact hkept.trans (x.eqOn_save _ _ _)

/-- A run in ring 3 leaves the kernel what it needs to come back. -/
lemma eqOn_of_run {tr : List (Transition Cpu Ring3Event)} (h : Run x.Step c tr u) :
    Set.EqOn u.mem c.mem x.kept :=
  h.invariant (I := fun u => Set.EqOn u.mem c.mem x.kept)
    (fun _ _ _ hu hstep => (eqOn_of_step hstep).trans hu) (Set.eqOn_refl _ _)

/-! ## The way in -/

/-- The memory after `usermode_enter` has noted the stack pointer. -/
def enteredMem (x : Excursion) (c : Cpu) : Memory :=
  (c.mem.pushWords (c.reg .rsp) (kernelRegs.reverse.map c.reg)).write64 x.kernelRsp
    (c.reg .rsp - BitVec.ofNat 64 48)

/-- `usermode_enter` drops to ring 3 at the entry, on the user stack. -/
lemma run_usermodeEnter (x : Excursion) (c : Cpu) :
    (c.run (usermodeEnter x.kernelRsp)).cpl = 3 ∧
      (c.run (usermodeEnter x.kernelRsp)).rip = c.reg .rdi ∧
      (c.run (usermodeEnter x.kernelRsp)).reg .rsp = c.reg .rsi ∧
      (c.run (usermodeEnter x.kernelRsp)).mem =
        (x.enteredMem c).pushWords (c.reg .rsp - BitVec.ofNat 64 48)
          [0x23, c.reg .rsi, 0x2, 0x1b, c.reg .rdi] := by
  let noted : Cpu := { c.pushWords (kernelRegs.reverse.map c.reg) with mem := x.enteredMem c }
  have hpeek : ∀ i < 5, (noted.pushWords [0x23, c.reg .rsi, 0x2, 0x1b, c.reg .rdi]).peek i =
      [c.reg .rdi, 0x1b, 0x2, c.reg .rsi, 0x23].getD i 0 := by
    intro i hi
    have hroom : 8 * [0x23, c.reg .rsi, 0x2, 0x1b, c.reg .rdi].length ≤ 2 ^ 64 :=
      show 8 * 5 ≤ 2 ^ 64 by decide
    rw [Cpu.peek_pushWords hroom hi, List.getD_eq_getElem _ _ hi]
    rfl
  have hrun : c.run (usermodeEnter x.kernelRsp) =
      Instr.iretq.exec (noted.pushWords [0x23, c.reg .rsi, 0x2, 0x1b, c.reg .rdi]) := by
    rw [usermodeEnter_eq, Cpu.run_append, Cpu.run_push (by decide), Cpu.run_cons]
    have hnoted : (Instr.storeAbs x.kernelRsp .rsp).exec
        (c.pushWords (kernelRegs.reverse.map c.reg)) = noted := by
      rw [Instr.exec, Cpu.pushWords_rsp]
      rfl
    have hreg : ∀ r, r ≠ .rsp → noted.reg r = c.reg r := fun r hr => Cpu.pushWords_reg hr
    rw [hnoted]
    simp [Instr.exec, ← Cpu.push_pushWords, Cpu.pushWords_nil, Cpu.push, Cpu.setReg, hreg]
  rw [hrun]
  simp only [Instr.exec, hpeek, Nat.reduceLT]
  refine ⟨show BitVec.setWidth 16 (0x1b : Word) &&& 3 = 3 by decide, rfl, ?_, ?_⟩
  · simp [Cpu.setReg]
  · have hrsp : noted.reg .rsp = c.reg .rsp - BitVec.ofNat 64 48 := Cpu.pushWords_rsp c _
    rw [← hrsp]
    rfl

/-- A call of `usermode_enter` with the return address `ra`, up to the first instruction of
ring 3. -/
def enter (x : Excursion) (c : Cpu) (ra : Word) : Cpu :=
  (c.push ra).run (usermodeEnter x.kernelRsp)

/-- What `usermode_enter` leaves for the way back: the registers and the return address on the
stack, and where they lie. -/
lemma stored_usermodeEnter (hroom : span (c.reg .rsp - 96) 96 ⊆ x.callerStack) :
    (x.enter c ra).mem.read64 x.kernelRsp = c.reg .rsp - 56 ∧
      (x.enter c ra).mem.Stored (c.reg .rsp - 56) (kernelRegs.map c.reg ++ [ra]) := by
  have hpush : (c.push ra).reg .rsp = c.reg .rsp - 8 := by simp [Cpu.push, Cpu.setReg]
  have hrsp : (c.push ra).reg .rsp - BitVec.ofNat 64 48 = c.reg .rsp - 56 := by
    rw [hpush]
    bv_omega
  have hregs : kernelRegs.reverse.map (c.push ra).reg = kernelRegs.reverse.map c.reg :=
    List.map_congr_left fun r hr =>
      Function.update_of_ne (ne_of_mem_of_not_mem hr (by decide)) _ _
  have hbelow : span (c.reg .rsp - 56 - BitVec.ofNat 64 40) 40 ⊆ x.callerStack := by
    refine (span_subset ?_).trans hroom
    bv_omega
  have hframe : span (c.reg .rsp - 56) 56 ⊆ x.callerStack := by
    refine (span_subset ?_).trans hroom
    bv_omega
  have hiret : ∀ s, Disjoint s (span (c.reg .rsp - 56 - BitVec.ofNat 64 40) 40) →
      Set.EqOn (x.enter c ra).mem (x.enteredMem (c.push ra)) s := by
    intro s hs
    rw [enter, (run_usermodeEnter x (c.push ra)).2.2.2, hrsp]
    exact Memory.eqOn_pushWords hs
  have hpushed : (c.mem.pushWords (c.reg .rsp) (ra :: kernelRegs.reverse.map c.reg)).Stored
      (c.reg .rsp - 56) (kernelRegs.map c.reg ++ [ra]) :=
    Memory.stored_pushWords (show Memory.Stored _ _ [] from trivial)
      (show 8 * (7 + 0) ≤ 2 ^ 64 by decide)
  have hmem : x.enteredMem (c.push ra) =
      (c.mem.pushWords (c.reg .rsp) (ra :: kernelRegs.reverse.map c.reg)).write64 x.kernelRsp
        (c.reg .rsp - 56) := by
    rw [enteredMem, hrsp, hregs, hpush]
    rfl
  constructor
  · rw [Memory.read64_congr (hiret _ (x.caller_kernelRsp.symm.mono_right hbelow)), hmem,
      Memory.read64_write64]
  · refine (hpushed.congr ?_).congr (hiret _ ?_)
    · rw [hmem]
      exact Memory.eqOn_write64 (x.caller_kernelRsp.mono_left hframe)
    · refine (span_disjoint (a := c.reg .rsp - 56 - BitVec.ofNat 64 40) ?_ ?_).symm
      · bv_omega
      · show _ + 56 ≤ _
        bv_omega

/-! ## The way back -/

/-- The trap that ends the excursion: the system call that exits, or a violation. -/
def Ends (c : Cpu) (vector : ℕ) : Prop :=
  c.cpl = 3 ∧ (vector = 13 ∨ vector = 14 ∨
    vector = syscallVector ∧ c.reg .rax = BitVec.ofNat 64 Sys.exit)

/-- The context with which such a trap returns. -/
def resumed (m : Machine) (ctx : InterruptContext) : InterruptContext :=
  { ctx with
    rip := m.usermodeResume
    cs := kernelCode
    ss := kernelData
    rflags := 0x2
    rsp := m.kernelRsp }

/-- The dispatcher answers a trap that ends the excursion by rewriting its context. -/
lemma interruptDispatch_ends (m : Machine) (fuel : ℕ) (st : DispatchState)
    (hctx : st.ctx = savedContext c vector error) (h : Ends c vector) :
    ∃ st', m.interruptDispatch fuel st = .ok st' ∧ st'.ctx = resumed m st.ctx := by
  obtain ⟨hcpl, hvector⟩ := h
  have hring : st.ctx.cpl = 3 := by
    rw [hctx]
    exact congrArg BitVec.toNat hcpl
  have hresume : m.resumeKernel st.ctx = .ok (resumed m st.ctx) := if_pos hring
  have hvec : st.ctx.vector = vector := by rw [hctx, savedContext]
  rw [← or_assoc] at hvector
  rcases hvector with hviolation | ⟨rfl, hrax⟩
  · have hne : vector ≠ 3 := by omega
    refine ⟨{ st with ctx := resumed m st.ctx, lastViolation := vector }, ?_, rfl⟩
    rw [Machine.interruptDispatch, hvec, if_neg hne, if_pos ⟨hviolation, hring⟩,
      Machine.recoverFromViolation, hresume]
    rfl
  · have hnumber : st.ctx.rax = Sys.exit := by
      rw [hctx, savedContext, hrax]
      rfl
    have hcall : (m.syscall fuel st.toSyscallState).out =
        .ok { st.toSyscallState with ctx := resumed m st.ctx } := by
      rw [Machine.syscall, hnumber, if_neg (by decide), if_pos rfl, hresume]
      rfl
    refine ⟨{ st with ctx := resumed m st.ctx }, ?_, rfl⟩
    rw [Machine.interruptDispatch, hvec, if_neg (by decide), if_neg fun h => absurd h.1 (by decide),
      if_neg (by decide), if_neg (by decide), if_neg (by decide), if_pos rfl, hcall]
    rfl

lemma save_reg {r : Reg} (hr : r ∈ [Reg.rsp, .rdi]) :
    (x.save c vector error).reg r = contextAddr x.rsp0 := (saveContext_spec _ _ _ _ _).2 r hr

/-- A trap that ends the excursion comes out in the kernel, at `usermode_resume`. -/
lemma rewritten_of_step (h : x.Step u (.trap vector error) t) (hends : Ends u vector) :
    t.rip = x.usermodeResume ∧ t.cs = 8 ∧ t.rflags = 2 ∧
      t.reg .rsp = u.mem.read64 x.kernelRsp := by
  cases h with
  | @trap d _ fuel _ tables bytes capture lastViolation st hcpl hvector hdispatch hrsp hctx
      hkept =>
    have hvector' : vector < 256 := by
      rcases hvector with rfl | rfl | rfl <;> decide
    have hsaved : contextAt (x.save u vector error).mem ((x.save u vector error).reg .rdi) =
        savedContext u vector error := by
      rw [save_reg (by decide)]
      exact contextAt_saveContext hvector'
    obtain ⟨st', hok, hst'⟩ := interruptDispatch_ends
      (x.machine (x.save u vector error).mem tables bytes) fuel
      ⟨⟨_, capture⟩, lastViolation⟩ hsaved hends
    obtain rfl : st' = st := Except.ok.inj (hok.symm.trans hdispatch)
    have hout : contextAt d.mem (d.reg .rsp) = st'.ctx := by
      rw [hrsp, save_reg (by decide), ← hctx, save_reg (by decide)]
    obtain ⟨-, hrip, hcs, hflags, hsp⟩ := run_isrCommonRestore d
    rw [hout, hst'] at hrip hcs hflags hsp
    have hkernel : (x.save u vector error).mem.read64 x.kernelRsp = u.mem.read64 x.kernelRsp :=
      Memory.read64_congr ((x.eqOn_save u vector error).mono Set.subset_union_right)
    refine ⟨BitVec.eq_of_toNat_eq hrip, BitVec.eq_of_toNat_eq hcs, BitVec.eq_of_toNat_eq hflags, ?_⟩
    rw [← hkernel]
    exact BitVec.eq_of_toNat_eq hsp

/-- The words of a context that was rewritten to return to `resume` with the stack pointer `sp`. -/
def resumedWords (c : Cpu) (vector : ℕ) (error resume sp : Word) : List Word :=
  contextRegs.map c.reg ++
    [BitVec.ofNat 64 vector, if vector ∈ errorVectors then error else 0, resume, 8, 2, sp, 0x10]

lemma ofFields_resumed {m : Machine} {resume sp : Word} (hvector : vector < 256)
    (hresume : m.usermodeResume = resume.toNat) (hsp : m.kernelRsp = sp.toNat) :
    InterruptContext.ofFields (fun i => ((resumedWords c vector error resume sp).getD i 0).toNat) =
      resumed m (savedContext c vector error) := by
  have hvec : (BitVec.ofNat 64 vector).toNat = vector := by
    rw [BitVec.toNat_ofNat]
    exact Nat.mod_eq_of_lt (by omega)
  simp only [resumed, savedContext, InterruptContext.ofFields, resumedWords, contextRegs,
    kernelCode, kernelData, hresume, hsp]
  split_ifs <;> simp [hvec]

/-- Where a trap is saved. -/
lemma span_contextAddr (x : Excursion) : span (contextAddr x.rsp0) (8 * 22) ⊆
    span (x.rsp0 - BitVec.ofNat 64 privStackSize) privStackSize := by
  have halign := toNat_and_not_fifteen x.rsp0
  refine span_subset ?_
  simp only [contextAddr, interruptContextSize, privStackSize]
  bv_omega

/-- A trap that ends the excursion comes out. -/
lemma exists_step (hends : Ends u vector) (error : Word) :
    ∃ t, x.Step u (.trap vector error) t := by
  have hvector : vector = 13 ∨ vector = 14 ∨ vector = syscallVector := by
    obtain ⟨-, h | h | h⟩ := hends <;> simp [h]
  have hvector' : vector < 256 := by
    rcases hvector with rfl | rfl | rfl <;> decide
  have hsaved : contextAt (x.save u vector error).mem ((x.save u vector error).reg .rdi) =
      savedContext u vector error := by
    rw [save_reg (by decide)]
    exact contextAt_saveContext hvector'
  -- whatever the tables and the memory behind them are
  obtain ⟨st, hok, hst⟩ := interruptDispatch_ends
    (x.machine (x.save u vector error).mem ⟨fun _ => 0, 0, 0⟩ fun _ => 0) 0
    ⟨⟨_, ⟨fun _ => 0, 0⟩⟩, 0⟩ hsaved hends
  let words := resumedWords u vector error x.usermodeResume
    ((x.save u vector error).mem.read64 x.kernelRsp)
  let d : Cpu := { x.save u vector error with
    mem := (x.save u vector error).mem.writeWords (contextAddr x.rsp0) words }
  refine ⟨_, .trap (d := d) hends.1 hvector hok rfl ?_ ?_⟩
  · have hstored : d.mem.Stored (contextAddr x.rsp0) words :=
      Memory.stored_writeWords (show 8 * 22 ≤ 2 ^ 64 by decide)
    rw [save_reg (by decide), contextAt_of_stored hstored rfl, hst]
    exact (ofFields_resumed hvector' rfl rfl).trans (congrArg (resumed _) hsaved.symm)
  · exact Memory.eqOn_writeWords (x.disjoint_priv_kept.symm.mono_right x.span_contextAddr)

end Excursion

open Excursion

/-- **An excursion to ring 3 returns the kernel intact.**  Whatever the program does and however
many system calls it makes, the trap that ends the excursion comes out, at `usermode_resume`; from
there the kernel returns to the caller of `usermode_enter` with its registers, with interrupts
masked and in ring 0.  What the interrupt path pushes is what the dispatcher reads. -/
theorem usermode_returns (x : Excursion) (c : Cpu) (ra : Word)
    (hroom : span (c.reg .rsp - 96) 96 ⊆ x.callerStack) {u : Cpu}
    {tr : List (Transition Cpu Ring3Event)} (hrun : Run x.Step (x.enter c ra) tr u) {vector : ℕ}
    (hends : Ends u vector) (error : Word) :
    (∀ v < 256, ∀ (k : Cpu) (e : Word),
        contextAt (x.save k v e).mem ((x.save k v e).reg .rdi) = savedContext k v e) ∧
      (∃ t, x.Step u (.trap vector error) t) ∧
      ∀ t, x.Step u (.trap vector error) t →
        t.rip = x.usermodeResume ∧ (t.run usermodeResume).cpl = 0 ∧
        (t.run usermodeResume).rflags &&& 0x200 = 0 ∧
        (∀ r ∈ [Reg.rbx, .rbp, .r12, .r13, .r14, .r15],
          (t.run usermodeResume).reg r = c.reg r) ∧
        (t.run usermodeResume).reg .rsp = c.reg .rsp ∧ (t.run usermodeResume).rip = ra := by
  refine ⟨fun v hv k e => ?_, exists_step hends error, fun t ht => ?_⟩
  · rw [save_reg (by decide)]
    exact contextAt_saveContext hv
  obtain ⟨hrip, hcs, hflags, hsp⟩ := rewritten_of_step ht hends
  obtain ⟨hnoted, hstored⟩ : (x.enter c ra).mem.read64 x.kernelRsp = c.reg .rsp - 56 ∧ _ :=
    stored_usermodeEnter hroom
  have hkept : Set.EqOn t.mem (x.enter c ra).mem x.kept :=
    (eqOn_of_step ht).trans (eqOn_of_run hrun)
  have hsp' : t.reg .rsp = c.reg .rsp - 56 := by
    rw [hsp, Memory.read64_congr ((eqOn_of_run hrun).mono Set.subset_union_right), hnoted]
  have hframe : span (c.reg .rsp - 56) 56 ⊆ x.kept := by
    refine (span_subset ?_).trans (hroom.trans Set.subset_union_left)
    bv_omega
  have hparked : t.mem.Stored (t.reg .rsp) (kernelRegs.map c.reg ++ [ra]) :=
    hsp' ▸ hstored.congr (hkept.mono hframe)
  obtain ⟨hregs, hrsp, hra⟩ := Cpu.run_pop_ret (show Reg.rsp ∉ kernelRegs by decide) (by decide)
    hparked rfl
  rw [← usermodeResume_eq] at hregs hrsp hra
  refine ⟨hrip, ?_, ?_, fun r hr => List.map_inj_left.mp hregs r ?_, ?_, hra⟩
  · show t.cs &&& 3 = 0
    rw [hcs]
    decide
  · show t.rflags &&& 0x200 = 0
    rw [hflags]
    decide
  · revert r
    decide
  · rw [hrsp, hsp']
    exact BitVec.sub_add_cancel _ _

/-! ### An excursion that exits at once -/

/-- Stacks at `0x20000` and `0x34000`, and a page of the user. -/
def sampleExcursion : Excursion where
  rsp0 := 0x20000
  kernelRsp := 0x8000
  usermodeResume := 0x5000
  isrStubTable v := BitVec.ofNat 64 (0x6000 + 16 * v)
  callerStack := span 0x30000 0x4000
  userPages := span 0x50000000 0x1000
  priv_caller := span_disjoint (by decide) (by decide)
  priv_kernelRsp := (span_disjoint (by decide) (by decide)).symm
  caller_kernelRsp := (span_disjoint (by decide) (by decide)).symm
  user_caller := (span_disjoint (by decide) (by decide)).symm
  user_kernelRsp := (span_disjoint (by decide) (by decide)).symm

/-- The kernel at its call of `usermode_enter`. -/
def sampleCaller : Cpu where
  reg r := if r = .rsp then 0x33000 else 7
  rip := 0x4000
  rflags := 0x202
  cs := 0x08
  ss := 0x10
  mem _ := 0

/-- The program asks to exit, with a stack pointer of its own making. -/
def sampleExit : Cpu :=
  { sampleExcursion.enter sampleCaller 0x4005 with
    reg := fun r => if r = .rax then 2 else 0x30000 }

lemma run_sampleExit : Run sampleExcursion.Step (sampleExcursion.enter sampleCaller 0x4005)
    [⟨sampleExcursion.enter sampleCaller 0x4005, .compute, sampleExit⟩] sampleExit :=
  .cons (.compute (run_usermodeEnter sampleExcursion _).1 (run_usermodeEnter sampleExcursion _).1
    (Set.eqOn_refl _ _)) (.nil _)

/-- The kernel comes back. -/
theorem usermode_returns_sampleExcursion :
    ∃ t, sampleExcursion.Step sampleExit (.trap 0x80 0) t ∧ t.rip = 0x5000 ∧
      (t.run usermodeResume).reg .rsp = 0x33000 ∧ (t.run usermodeResume).rip = 0x4005 := by
  have hroom : span (sampleCaller.reg .rsp - 96) 96 ⊆ sampleExcursion.callerStack :=
    span_subset (by decide)
  have hends : Ends sampleExit 0x80 :=
    ⟨(run_usermodeEnter sampleExcursion _).1, .inr (.inr ⟨rfl, rfl⟩)⟩
  obtain ⟨-, ⟨t, ht⟩, hreturns⟩ := usermode_returns sampleExcursion sampleCaller 0x4005 hroom
    run_sampleExit hends 0
  obtain ⟨hrip, -, -, -, hrsp, hra⟩ := hreturns t ht
  exact ⟨t, ht, hrip, hrsp, hra⟩

end ZiranOS
