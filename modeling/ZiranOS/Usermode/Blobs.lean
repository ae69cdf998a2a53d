import ZiranOS.Syscall.Excursion
import ZiranOS.Usermode.Instr

/-!
# The blobs

The programs that the kernel runs in ring 3, byte for byte, and what an excursion with each of them
comes to.  All that make a system call are alike: they load registers, trap, and exit
(`UserRun.At.call`); the others are caught at their first instruction (`UserRun.At.violation`).
-/

namespace ZiranOS

open ProgLib

/-! ## The bytes -/

/-- Disable interrupts. -/
def blobCli : List UInt8 := [0xFA, 0xEB, 0xFE]

/-- Read the screen of the kernel. -/
def blobReadKernel : List UInt8 :=
  [0x48, 0xA1, 0x00, 0x80, 0x0B, 0x00, 0x00, 0x00, 0x00, 0x00, 0xEB, 0xFE]

/-- Read the secret. -/
def blobReadSecret : List UInt8 :=
  [0x48, 0xA1, 0x00, 0x00, 0x00, 0x60, 0x00, 0x00, 0x00, 0x00, 0xEB, 0xFE]

/-- Ask for the secret with the unchecked call. -/
def blobLeak : List UInt8 :=
  [0xB8, 0x04, 0x00, 0x00, 0x00,
    0xBF, 0x00, 0x00, 0x00, 0x60,
    0xBE, 0x20, 0x00, 0x00, 0x00,
    0xCD, 0x80,
    0xB8, 0x02, 0x00, 0x00, 0x00,
    0xCD, 0x80,
    0xEB, 0xFE]

/-- Ask for the secret with the checked call. -/
def blobWriteSecret : List UInt8 :=
  [0xB8, 0x03, 0x00, 0x00, 0x00,
    0xBF, 0x00, 0x00, 0x00, 0x60,
    0xBE, 0x20, 0x00, 0x00, 0x00,
    0xCD, 0x80,
    0xB8, 0x02, 0x00, 0x00, 0x00,
    0xCD, 0x80,
    0xEB, 0xFE]

/-- Ask for the start of the own stack page with the checked call. -/
def blobWriteUser : List UInt8 :=
  [0xB8, 0x03, 0x00, 0x00, 0x00,
    0xBF, 0x00, 0x00, 0x10, 0x50,
    0xBE, 0x12, 0x00, 0x00, 0x00,
    0xCD, 0x80,
    0xB8, 0x02, 0x00, 0x00, 0x00,
    0xCD, 0x80,
    0xEB, 0xFE]

/-- The contents of the buffer that it asks for. -/
def userMsg : List UInt8 := Text.utf8 "legit-user-buffer\n"

/-! ## Disassembly -/

/-- The instructions of a blob, one after the other from an offset on. -/
def disassemble (blob : List UInt8) : (n off : ℕ) → List UserInstr
  | 0, _ => []
  | n + 1, off =>
    match decode (fun i => blob[off + i]?) with
    | .ok (instr, length) => instr :: disassemble blob n (off + length)
    | .error _ => []

/-- A blob that loads registers, makes a system call and exits. -/
def CallBlob (blob : List UInt8) (args : List (Reg × Word)) : Prop :=
  disassemble blob (args.length + 3) 0 = args.map (fun arg => .movImm arg.1 arg.2) ++
    [.int syscallVector, .movImm .rax (BitVec.ofNat 64 Sys.exit), .int syscallVector]

/-- The first instruction of a disassembly. -/
lemma disassemble_cons {blob : List UInt8} {n off : ℕ} {instr : UserInstr} {rest : List UserInstr}
    (h : disassemble blob n off = instr :: rest) :
    ∃ m length, decode (fun i => blob[off + i]?) = .ok (instr, length) ∧
      disassemble blob m (off + length) = rest := by
  cases n with
  | zero => cases h
  | succ n =>
    rw [disassemble] at h
    cases hdecode : decode (fun i => blob[off + i]?) with
    | error e =>
      rw [hdecode] at h
      cases h
    | ok x =>
      rw [hdecode] at h
      obtain ⟨rfl, hrest⟩ := List.cons.inj h
      exact ⟨n, x.2, rfl, hrest⟩

/-! ## Traps of a blob -/

namespace UserRegs

/-- The registers without the instruction pointer. -/
def setAll (r : UserRegs) (args : List (Reg × Word)) : UserRegs :=
  args.foldl (fun r arg => r.set arg.1 arg.2) r

/-- Loading registers leaves the instruction pointer. -/
lemma setAll_rip (rip : Word) : ∀ (args : List (Reg × Word)) (r : UserRegs),
    setAll { r with rip := rip } args = { r.setAll args with rip := rip }
  | [], _ => rfl
  | arg :: args, r => setAll_rip rip args (r.set arg.1 arg.2)

/-- A register that was loaded. -/
@[simp] lemma set_reg (r : UserRegs) (reg : Reg) (value : Word) :
    (r.set reg value).reg reg = value := by
  simp [set]

/-- The registers that were loaded, each once. -/
lemma setAll_reg : ∀ {args : List (Reg × Word)}, (args.map Prod.fst).Nodup → ∀ {arg}, arg ∈ args →
    ∀ r : UserRegs, (r.setAll args).reg arg.1 = arg.2 := by
  -- a register that is not loaded keeps its value
  have hother : ∀ (args : List (Reg × Word)) (x : Reg), x ∉ args.map Prod.fst →
      ∀ r : UserRegs, (r.setAll args).reg x = r.reg x := by
    intro args
    induction args with
    | nil => exact fun _ _ _ => rfl
    | cons arg args ih =>
      intro x hx r
      rw [List.map_cons, List.mem_cons, not_or] at hx
      exact (ih x hx.2 (r.set arg.1 arg.2)).trans (Function.update_of_ne hx.1 _ _)
  intro args
  induction args with
  | nil => exact fun _ _ h => absurd h List.not_mem_nil
  | cons first args ih =>
    intro hdistinct arg harg r
    rw [List.map_cons, List.nodup_cons] at hdistinct
    rcases List.mem_cons.mp harg with rfl | harg
    · exact (hother args arg.1 hdistinct.1 _).trans (set_reg r arg.1 arg.2)
    · exact ih hdistinct.2 harg _

/-- A trap that returns another `rax` changes that register only. -/
lemma ofContext_rax (r : UserRegs) (vector : ℕ) (error : Word) (rax : ℕ) :
    ofContext { r.context vector error with rax := rax } = r.set .rax (BitVec.ofNat 64 rax) := by
  have hword : ∀ w : Word, BitVec.ofNat 64 w.toNat = w := fun w => by simp
  have hreg : (ofContext { r.context vector error with rax := rax }).reg =
      Function.update r.reg .rax (BitVec.ofNat 64 rax) := by
    funext x
    cases x <;> first | rfl | exact hword _
  rw [set, ← hreg]
  exact congrArg₂ (UserRegs.mk _) (hword _) (hword _)

/-- A trap of a program comes from ring 3. -/
lemma context_cpl (r : UserRegs) (vector : ℕ) (error : Word) :
    (r.context vector error).cpl = 3 :=
  show (0x1b : BitVec 16).toNat &&& 3 = 3 by decide

end UserRegs

namespace UserRun

variable {resume : Resume} {fuel : ℕ} {s s' : UserRun} {regs : UserRegs}

/-- An excursion is over, with the given capture and violation. -/
structure Ended (s s' : UserRun) (capture : Capture) (violation : ℕ) : Prop where
  kernel : s'.kernel = s.kernel
  capture : s'.capture = capture
  lastViolation : s'.lastViolation = violation
  returned : s'.returned = true

/-- **A system call that returns** puts its result into `rax`. -/
lemma trap_syscall {call : SyscallState} {rax : ℕ}
    (hcall : ((s.kernel.machine resume).syscall fuel
      (s.dispatchState syscallVector 0 regs).toSyscallState).out = .ok call)
    (hctx : call.ctx = { regs.context syscallVector 0 with rax := rax }) :
    ∃ log, s.trap resume fuel syscallVector 0 regs = .ok
      ⟨s.kernel, regs.set .rax (BitVec.ofNat 64 rax), call.capture, s.lastViolation, log,
        false⟩ := by
  have hregs : UserRegs.ofContext call.ctx = regs.set .rax (BitVec.ofNat 64 rax) := by
    rw [hctx, UserRegs.ofContext_rax]
  have hcpl : decide (call.ctx.cpl ≠ 3) = false := by
    have hring : call.ctx.cpl = 3 := by
      rw [hctx]
      exact regs.context_cpl syscallVector 0
    rw [hring]
    rfl
  rw [trap, Machine.interruptDispatch_syscall rfl hcall, ← hregs, ← hcpl]
  exact ⟨_, rfl⟩

/-- **The exit** ends the excursion. -/
lemma trap_exit (hrax : regs.reg .rax = BitVec.ofNat 64 Sys.exit) :
    ∃ s', s.trap resume fuel syscallVector 0 regs = .ok s' ∧
      Ended s s' s.capture s.lastViolation := by
  have hnumber : (s.dispatchState syscallVector 0 regs).ctx.rax = Sys.exit :=
    congrArg BitVec.toNat hrax
  have hring : (s.dispatchState syscallVector 0 regs).ctx.cpl = 3 := regs.context_cpl _ _
  have hcall : ((s.kernel.machine resume).syscall fuel
      (s.dispatchState syscallVector 0 regs).toSyscallState).out =
      .ok ⟨Excursion.resumed (s.kernel.machine resume) (s.dispatchState syscallVector 0 regs).ctx,
        s.capture⟩ := by
    rw [Machine.syscall, hnumber, if_neg (by decide), if_pos rfl, Machine.resumeKernel,
      if_pos hring]
    rfl
  have hout : (Excursion.resumed (s.kernel.machine resume)
      (s.dispatchState syscallVector 0 regs).ctx).cpl ≠ 3 := show kernelCode &&& 3 ≠ 3 by decide
  rw [trap, Machine.interruptDispatch_syscall rfl hcall]
  exact ⟨_, rfl, rfl, rfl, rfl, decide_eq_true hout⟩

/-- **A violation** ends the excursion and is recorded. -/
lemma trap_violation {vector : ℕ} {error : Word} (hvector : vector = 13 ∨ vector = 14) :
    ∃ s', s.trap resume fuel vector error regs = .ok s' ∧ Ended s s' s.capture vector := by
  have hring : (s.dispatchState vector error regs).ctx.cpl = 3 := regs.context_cpl _ _
  have hvec : (s.dispatchState vector error regs).ctx.vector = vector := rfl
  have hne : vector ≠ 3 := by omega
  have hdispatch : (s.kernel.machine resume).interruptDispatch fuel
      (s.dispatchState vector error regs) = .ok { s.dispatchState vector error regs with
        ctx := Excursion.resumed (s.kernel.machine resume) (s.dispatchState vector error regs).ctx
        lastViolation := vector } := by
    rw [Machine.interruptDispatch, hvec, if_neg hne, if_pos ⟨hvector, hring⟩,
      Machine.recoverFromViolation, Machine.resumeKernel, if_pos hring]
    rfl
  have hout : (Excursion.resumed (s.kernel.machine resume)
      (s.dispatchState vector error regs).ctx).cpl ≠ 3 := show kernelCode &&& 3 ≠ 3 by decide
  rw [trap, hdispatch]
  exact ⟨_, rfl, rfl, rfl, rfl, decide_eq_true hout⟩

/-! ## Steps of a blob -/

/-- The machine code stands at an offset of a blob. -/
structure At (blob : List UInt8) (off : ℕ) (s : UserRun) : Prop where
  running : s.returned = false
  loaded : Loaded s.kernel.userRead uvaCode blob
  rip : s.regs.rip = BitVec.ofNat 64 (uvaCode + off)

variable {blob : List UInt8} {n off length : ℕ} {instr : UserInstr} {rest : List UserInstr}

/-- One step from there. -/
lemma At.step (h : s.At blob off)
    (hdecode : decode (fun i => blob[off + i]?) = .ok (instr, length)) :
    s.step resume fuel machineCode =
      s.act resume fuel (instr.exec length s.regs s.kernel.userRead) := by
  rw [UserRun.step, h.running, if_neg Bool.false_ne_true, machineCode_at h.loaded h.rip hdecode]

/-- The offset behind an instruction. -/
lemma At.next (h : s.At blob off) :
    s.regs.rip + BitVec.ofNat 64 length = BitVec.ofNat 64 (uvaCode + (off + length)) := by
  rw [h.rip, ← BitVec.ofNat_add, Nat.add_assoc]

/-- Steps after a first one. -/
lemma steps_succ {code : UserCode} (hstep : s.step resume fuel code = .ok s') :
    s.steps resume fuel code (n + 1) = s'.steps resume fuel code n := by
  rw [steps, Exec.iterate, hstep]
  rfl

/-- An excursion that is over stays as it is. -/
lemma steps_returned {code : UserCode} (h : s.returned = true) :
    ∀ n, s.steps resume fuel code n = .ok s
  | 0 => rfl
  | n + 1 => by
    have hstep : s.step resume fuel code = .ok s := by
      rw [UserRun.step, if_pos h]
      rfl
    rw [steps_succ hstep, steps_returned h n]

/-- More steps change nothing once it is over. -/
lemma steps_of_returned {code : UserCode} : ∀ {m n : ℕ} {s s' : UserRun},
    s.steps resume fuel code m = .ok s' → s'.returned = true → m ≤ n →
      s.steps resume fuel code n = .ok s' := by
  intro m
  induction m with
  | zero =>
    intro n s s' hrun hreturned _
    obtain rfl := Except.ok.inj hrun
    exact steps_returned hreturned n
  | succ m ih =>
    intro n s s' hrun hreturned hle
    obtain ⟨n, rfl⟩ := Nat.exists_eq_add_of_le' (Nat.succ_pos m |>.trans_le hle)
    obtain ⟨s₁, hstep, hrest⟩ := Exec.bind_eq_ok.mp hrun
    rw [steps_succ hstep]
    exact ih hrest hreturned (by omega)

/-- **Loading registers.** -/
lemma At.movs : ∀ (args : List (Reg × Word)) (s : UserRun) (m off : ℕ), s.At blob off →
    disassemble blob m off = args.map (fun arg => .movImm arg.1 arg.2) ++ rest →
    ∃ rip m' off', (∀ n, s.steps resume fuel machineCode (args.length + n) =
        ({ s with regs := { s.regs.setAll args with rip := rip } } : UserRun).steps resume fuel
          machineCode n) ∧
      At blob off' { s with regs := { s.regs.setAll args with rip := rip } } ∧
      disassemble blob m' off' = rest := by
  intro args
  induction args with
  | nil =>
    intro s m off h hblob
    exact ⟨s.regs.rip, m, off, fun n => by rw [List.length_nil, Nat.zero_add]; rfl, h, hblob⟩
  | cons arg args ih =>
    intro s m off h hblob
    obtain ⟨m₁, length, hdecode, hrest⟩ := disassemble_cons hblob
    let regs : UserRegs :=
      { s.regs.set arg.1 arg.2 with rip := s.regs.rip + BitVec.ofNat 64 length }
    have hstep : s.step resume fuel machineCode = .ok { s with regs := regs } := h.step hdecode
    obtain ⟨rip, m', off', hsteps, hat, hend⟩ := ih { s with regs := regs } m₁ (off + length)
      ⟨h.running, h.loaded, h.next⟩ hrest
    have hall : regs.setAll args = { s.regs.setAll (arg :: args) with rip := regs.rip } :=
      UserRegs.setAll_rip _ _ _
    dsimp only at hsteps hat
    rw [hall] at hat
    refine ⟨rip, m', off', fun n => ?_, hat, hend⟩
    rw [List.length_cons, Nat.add_right_comm, steps_succ hstep, hsteps, hall]

/-- A step to a system call. -/
lemma At.int (h : s.At blob off)
    (hdecode : decode (fun i => blob[off + i]?) = .ok (.int syscallVector, length)) :
    s.step resume fuel machineCode = s.trap resume fuel syscallVector 0
      { s.regs with rip := s.regs.rip + BitVec.ofNat 64 length } := by
  rw [h.step hdecode, UserInstr.exec, if_pos rfl, UserRun.act]

/-- The end of a blob: the system call and the exit. -/
lemma At.callExit (h : s.At blob off) {m : ℕ}
    (hblob : disassemble blob m off =
      [.int syscallVector, .movImm .rax (BitVec.ofNat 64 Sys.exit), .int syscallVector])
    {capture : Capture} {rax : ℕ} (hcall : ∀ rip,
      ((s.kernel.machine resume).syscall fuel
        (s.dispatchState syscallVector 0 { s.regs with rip := rip }).toSyscallState).out =
        .ok ⟨{ UserRegs.context { s.regs with rip := rip } syscallVector 0 with rax := rax },
          capture⟩) :
    ∃ s', s.steps resume fuel machineCode 3 = .ok s' ∧ s.Ended s' capture s.lastViolation := by
  obtain ⟨m₁, length₁, hdecode₁, hblob₁⟩ := disassemble_cons hblob
  obtain ⟨m₂, length₂, hdecode₂, hblob₂⟩ := disassemble_cons hblob₁
  obtain ⟨m₃, length₃, hdecode₃, -⟩ := disassemble_cons hblob₂
  -- the call
  obtain ⟨log, htrap⟩ := trap_syscall (hcall (s.regs.rip + BitVec.ofNat 64 length₁)) rfl
  rw [← h.int hdecode₁] at htrap
  have hat₁ : UserRun.At blob (off + length₁) ⟨s.kernel, UserRegs.set { s.regs with
      rip := s.regs.rip + BitVec.ofNat 64 length₁ } .rax (BitVec.ofNat 64 rax), capture,
      s.lastViolation, log, false⟩ := ⟨rfl, h.loaded, h.next⟩
  rw [steps_succ htrap]
  generalize hs₁ : (⟨s.kernel, UserRegs.set { s.regs with
      rip := s.regs.rip + BitVec.ofNat 64 length₁ } .rax (BitVec.ofNat 64 rax), capture,
      s.lastViolation, log, false⟩ : UserRun) = s₁ at hat₁ ⊢
  -- the number of the exit
  let regs₂ : UserRegs := { s₁.regs.set .rax (BitVec.ofNat 64 Sys.exit) with
    rip := s₁.regs.rip + BitVec.ofNat 64 length₂ }
  have hstep₂ : s₁.step resume fuel machineCode = .ok { s₁ with regs := regs₂ } :=
    hat₁.step hdecode₂
  have hat₂ : UserRun.At blob (off + length₁ + length₂) { s₁ with regs := regs₂ } :=
    ⟨hat₁.running, hat₁.loaded, hat₁.next⟩
  rw [steps_succ hstep₂]
  -- the exit
  have hrax : regs₂.reg .rax = BitVec.ofNat 64 Sys.exit := s₁.regs.set_reg .rax _
  obtain ⟨s', hexit, hended⟩ : ∃ s', UserRun.trap resume fuel { s₁ with regs := regs₂ }
      syscallVector 0 { regs₂ with rip := regs₂.rip + BitVec.ofNat 64 length₃ } = .ok s' ∧
      Ended { s₁ with regs := regs₂ } s' s₁.capture s₁.lastViolation := trap_exit hrax
  rw [← hat₂.int hdecode₃] at hexit
  rw [steps_succ hexit]
  refine ⟨s', rfl, ?_⟩
  subst hs₁
  exact ⟨hended.kernel, hended.capture, hended.lastViolation, hended.returned⟩

/-- **A blob that makes a system call and exits** comes to its end, with what the call leaves in the
capture, if the call returns to ring 3. -/
lemma At.call {args : List (Reg × Word)} (hblob : CallBlob blob args) (h : s.At blob 0)
    {capture : Capture} {rax : ℕ} (hcall : ∀ rip,
      ((s.kernel.machine resume).syscall fuel (s.dispatchState syscallVector 0
        { s.regs.setAll args with rip := rip }).toSyscallState).out =
        .ok ⟨{ UserRegs.context { s.regs.setAll args with rip := rip } syscallVector 0 with
          rax := rax }, capture⟩) :
    ∃ s', s.steps resume fuel machineCode (args.length + 3) = .ok s' ∧
      s.Ended s' capture s.lastViolation := by
  obtain ⟨rip, m₁, off₁, hsteps, hat, hrest⟩ := At.movs args s _ 0 h hblob
  obtain ⟨s', hrun, hended⟩ := hat.callExit hrest hcall
  exact ⟨s', by rw [hsteps, hrun], hended.kernel, hended.capture, hended.lastViolation,
    hended.returned⟩

/-- **A blob that breaks the boundary** at its first instruction is caught there. -/
lemma At.violation (h : s.At blob 0) {vector : ℕ} {error : Word}
    (hdecode : decode (fun i => blob[0 + i]?) = .ok (instr, length))
    (hact : s.act resume fuel (instr.exec length s.regs s.kernel.userRead) =
      s.trap resume fuel vector error s.regs) (hvector : vector = 13 ∨ vector = 14) :
    ∃ s', s.steps resume fuel machineCode 1 = .ok s' ∧ s.Ended s' s.capture vector := by
  obtain ⟨s', htrap, hended⟩ : ∃ s', s.trap resume fuel vector error s.regs = .ok s' ∧
      s.Ended s' s.capture vector := trap_violation hvector
  rw [← hact, ← h.step hdecode] at htrap
  exact ⟨s', steps_succ htrap, hended⟩

end UserRun

/-! ## What the blobs are -/

/-- The registers of a write. -/
def writeArgs (number ptr len : ℕ) : List (Reg × Word) :=
  [(.rax, BitVec.ofNat 64 number), (.rdi, BitVec.ofNat 64 ptr), (.rsi, BitVec.ofNat 64 len)]

lemma callBlob_userBlob : CallBlob userBlob
    [(.rax, BitVec.ofNat 64 Sys.print), (.rdi, 0x5A)] := by
  unfold CallBlob
  decide +kernel

lemma callBlob_leak :
    CallBlob blobLeak (writeArgs Sys.writeUnchecked secretVa Kernel.secret.length) := by
  unfold CallBlob
  decide +kernel

lemma callBlob_writeSecret :
    CallBlob blobWriteSecret (writeArgs Sys.write secretVa Kernel.secret.length) := by
  unfold CallBlob
  decide +kernel

lemma callBlob_writeUser :
    CallBlob blobWriteUser (writeArgs Sys.write uvaStack userMsg.length) := by
  unfold CallBlob
  decide +kernel

end ZiranOS
