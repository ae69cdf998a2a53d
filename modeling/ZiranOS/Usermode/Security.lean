import ZiranOS.Boot.StandUp
import ZiranOS.Usermode.Blobs
import ZiranOS.Usermode.Kept

/-!
# The tests of ring 3

At boot the kernel runs its blobs in ring 3 one after the other and asserts what came of each: the
program of the self-test prints and leaves, privileged instructions and reads of kernel pages are
caught, the unchecked call leaks the secret, the checked one gives nothing of it away, and yet
passes a buffer of the program on.  All of them map a program, run its machine code, and take it
back (`TestBench.runProgram`), so one lemma is enough for the memory, and each blob needs only its
own excursion.  `ring3_tests_iff` says when the tests pass: always, given 268 frames at boot.
-/

namespace ZiranOS

open ProgLib

/-! ## What the tests work on -/

/-- Why a test does not come back: the kernel faults, the excursion faults, or it has not ended. -/
inductive TestStop where
  | kernel
  | excursion (why : DispatchStop)
  | running
  deriving DecidableEq

/-- What the tests change. -/
structure TestState where
  kernel : Kernel
  capture : Capture
  lastViolation : ℕ

/-- What the tests depend on besides: where the kernel goes on after an excursion, how far the check
of a range and an excursion are followed, and what the kernel leaves in the registers. -/
structure TestBench where
  resume : Resume
  fuel : ℕ
  steps : ℕ
  regs : TestState → Reg → Word

/-- The top of the stack of a program. -/
def uvaStackTop : ℕ := uvaStack + 0x1000

namespace Capture

/-- The empty capture. -/
def reset : Capture where
  buf _ := 0
  len := 0

/-- The latest write as far as it fits into a buffer of 64 bytes. -/
def lastWriteInto (c : Capture) : List UInt8 := (List.ofFn c.buf).take (min c.len 64)

end Capture

/-- A function of the kernel in a test. -/
def inTest {α : Type} (x : Exec Unit α) : Exec TestStop α := x.mapFail fun _ => .kernel

/-- Put bytes on the stack page, if there are any. -/
def preloadStack (k : Kernel) : Option (List UInt8) → Exec TestStop Kernel
  | none => pure k
  | some bytes => do
    Exec.assert (bytes.length ≤ 4096)
    inTest (k.copyBytes uvaStack bytes)

namespace TestBench

variable (b : TestBench)

/-- The start of an excursion: the registers that `usermode_enter` loads. -/
def enter (s : TestState) : UserRun where
  kernel := s.kernel
  regs := (((⟨b.regs s, BitVec.ofNat 64 uvaCode, 0x2⟩ : UserRegs).set .rdi
    (BitVec.ofNat 64 uvaCode)).set .rsi (BitVec.ofNat 64 uvaStackTop)).set .rsp
    (BitVec.ofNat 64 uvaStackTop)
  capture := s.capture
  lastViolation := s.lastViolation
  log := []
  returned := false

/-- An excursion to the program that is mapped. -/
def excursion (s : TestState) : Exec TestStop TestState := do
  let run ← ((b.enter s).steps b.resume b.fuel machineCode b.steps).mapFail .excursion
  if run.returned then pure ⟨run.kernel, run.capture, run.lastViolation⟩
  else Exec.fail .running

/-- Map a program, put bytes on its stack page, run it, make sure how it has ended, and take it
back. -/
def runProgram (s : TestState) (blob : List UInt8) (preload : Option (List UInt8))
    (expectVector : ℕ) : Exec TestStop TestState := do
  let (k, codeFrame, stackFrame) ← inTest (s.kernel.mapUserProgram blob)
  let k ← preloadStack k preload
  let s ← b.excursion ⟨k, s.capture, 0⟩
  Exec.assert (s.lastViolation = expectVector)
  let k ← inTest (s.kernel.unmapUserProgram codeFrame stackFrame)
  pure { s with kernel := k }

/-- A program that has to leave. -/
def runUserBlob (s : TestState) (blob : List UInt8) (preload : Option (List UInt8)) :
    Exec TestStop TestState :=
  b.runProgram s blob preload 0

/-- A program that has to be caught. -/
def runViolation (s : TestState) (blob : List UInt8) (expectVector : ℕ) :
    Exec TestStop TestState :=
  b.runProgram s blob none expectVector

/-! ## The tests -/

/-- A system call from ring 3, and back. -/
def selfTest (s : TestState) : Exec TestStop TestState := b.runProgram s userBlob none 0

/-- The processor stops a program at what it may not do. -/
def enforcementTest (s : TestState) : Exec TestStop TestState := do
  let s ← b.runViolation s blobCli 13
  b.runViolation s blobReadKernel 14

/-- The range is refused. -/
def expectRefused (k : Kernel) (uaddr : ℕ) : Exec TestStop Unit := do
  let allowed ← inTest (k.paging.userRangeOk b.fuel uaddr 1)
  Exec.assert (allowed = false)

/-- The secret and the attacks on it. -/
def securityTest (s : TestState) : Exec TestStop TestState := do
  let k ← inTest (s.kernel.plantSecret b.fuel)
  b.expectRefused k 0xb8000
  b.expectRefused k (2 ^ 47)
  b.expectRefused k (2 ^ 64 - 1)
  let s ← b.runViolation { s with kernel := k } blobReadSecret 14
  let s ← b.runUserBlob { s with capture := .reset } blobLeak none
  Exec.assert (s.capture.lastWriteInto = Kernel.secret)
  let s ← b.runUserBlob { s with capture := .reset } blobWriteSecret none
  Exec.assert (s.capture.lastWriteInto.length = 0)
  let s ← b.runUserBlob { s with capture := .reset } blobWriteUser (some userMsg)
  Exec.assert (s.capture.lastWriteInto = userMsg)
  pure s

/-- All tests of ring 3 in the order of the boot. -/
def userTests (s : TestState) : Exec TestStop TestState := do
  let s ← b.selfTest s
  let s ← b.enforcementTest s
  b.securityTest s

end TestBench

/-! ## Excursions -/

namespace Capture

/-- The capture after a write of some bytes. -/
def after (c : Capture) (bytes : List UInt8) : Capture where
  buf i := if i.val < bytes.length then bytes.getD i 0 else c.buf i
  len := bytes.length

/-- A short write is found in the buffer. -/
lemma lastWriteInto_after (c : Capture) {bytes : List UInt8} (h : bytes.length ≤ 64) :
    (c.after bytes).lastWriteInto = bytes := by
  have hmax : maxWrite = 256 := rfl
  refine List.ext_getElem ?_ fun i hi hi' => ?_
  · rw [lastWriteInto, List.length_take, List.length_ofFn, after]
    dsimp only
    omega
  · simp only [lastWriteInto, after, List.getElem_take, List.getElem_ofFn]
    rw [if_pos hi', List.getD_eq_getElem _ _ hi']

end Capture

namespace TestBench

variable {b : TestBench} {k : Kernel} {c : Capture} {v : ℕ} {blob : List UInt8}

/-- An excursion that has come to its end. -/
lemma excursion_of_ended {s : TestState} {run : UserRun} {n : ℕ} {capture : Capture} {violation : ℕ}
    (hrun : (b.enter s).steps b.resume b.fuel machineCode n = .ok run) (hn : n ≤ b.steps)
    (hended : (b.enter s).Ended run capture violation) :
    b.excursion s = .ok ⟨s.kernel, capture, violation⟩ := by
  rw [excursion, UserRun.steps_of_returned hrun hended.returned hn, Exec.mapFail_ok, Exec.bind_ok,
    if_pos hended.returned, hended.kernel, hended.capture, hended.lastViolation]
  rfl

/-- At first the processor stands at the first instruction of the blob. -/
lemma at_enter (hblob : Loaded k.userRead uvaCode blob) :
    (b.enter ⟨k, c, v⟩).At blob 0 := ⟨rfl, hblob, rfl⟩

/-- **A blob that makes a call** has the result of the call in the capture. -/
lemma excursion_call (hsteps : 6 ≤ b.steps) {args : List (Reg × Word)} (hcall : CallBlob blob args)
    (hblob : Loaded k.userRead uvaCode blob) (hargs : args.length ≤ 3) (capture : Capture) (rax : ℕ)
    (hsyscall : ∀ regs : UserRegs, (∀ arg ∈ args, regs.reg arg.1 = arg.2) →
      ((k.machine b.resume).syscall b.fuel ⟨regs.context syscallVector 0, c⟩).out =
        .ok ⟨{ regs.context syscallVector 0 with rax := rax }, capture⟩)
    (hdistinct : (args.map Prod.fst).Nodup) :
    b.excursion ⟨k, c, v⟩ = .ok ⟨k, capture, v⟩ := by
  have hat := at_enter (b := b) (c := c) (v := v) hblob
  obtain ⟨run, hrun, hended⟩ : ∃ run,
      (b.enter ⟨k, c, v⟩).steps b.resume b.fuel machineCode (args.length + 3) = .ok run ∧
        (b.enter ⟨k, c, v⟩).Ended run capture v :=
    hat.call hcall fun rip => hsyscall _ fun arg harg => UserRegs.setAll_reg hdistinct harg _
  exact excursion_of_ended hrun (by omega) hended

/-- A blob that prints. -/
lemma excursion_print (hsteps : 6 ≤ b.steps) (hblob : Loaded k.userRead uvaCode userBlob) :
    b.excursion ⟨k, c, v⟩ = .ok ⟨k, c, v⟩ := by
  refine excursion_call hsteps callBlob_userBlob hblob (by decide) c 0 (fun regs hregs => ?_)
    (by decide)
  exact Machine.syscall_print (congrArg BitVec.toNat (hregs _ (List.mem_cons_self ..)))

/-- The arguments of a write. -/
lemma context_write {regs : UserRegs} {number ptr len : ℕ}
    (hregs : ∀ arg ∈ writeArgs number ptr len, regs.reg arg.1 = arg.2)
    (hnumber : number < 2 ^ 64) (hptr : ptr < 2 ^ 64) (hlen : len < 2 ^ 64) :
    (regs.context syscallVector 0).rax = number ∧ (regs.context syscallVector 0).rdi = ptr ∧
      (regs.context syscallVector 0).rsi = len := by
  have hreg : ∀ {r : Reg} {x : ℕ}, regs.reg r = BitVec.ofNat 64 x → x < 2 ^ 64 →
      (regs.reg r).toNat = x := by
    intro r x hr hx
    rw [hr, BitVec.toNat_ofNat, Nat.mod_eq_of_lt hx]
  exact ⟨hreg (hregs (.rax, BitVec.ofNat 64 number) (by simp [writeArgs])) hnumber,
    hreg (hregs (.rdi, BitVec.ofNat 64 ptr) (by simp [writeArgs])) hptr,
    hreg (hregs (.rsi, BitVec.ofNat 64 len) (by simp [writeArgs])) hlen⟩

/-- They are three. -/
lemma writeArgs_three (number ptr len : ℕ) : (writeArgs number ptr len).length ≤ 3 ∧
    ((writeArgs number ptr len).map Prod.fst).Nodup :=
  ⟨le_rfl, show [Reg.rax, .rdi, .rsi].Nodup by decide⟩

/-- A blob that is refused its write. -/
lemma excursion_refused (hsteps : 6 ≤ b.steps) {ptr len : ℕ}
    (hcall : CallBlob blob (writeArgs Sys.write ptr len))
    (hblob : Loaded k.userRead uvaCode blob) (hptr : ptr < 2 ^ 64) (hlen : len ≤ maxWrite)
    (hcheck : k.paging.userRangeOk b.fuel ptr len = .ok false) :
    b.excursion ⟨k, c, v⟩ = .ok ⟨k, c, v⟩ := by
  have hmax : maxWrite = 256 := rfl
  refine excursion_call hsteps hcall hblob (writeArgs_three ..).1 c (2 ^ 64 - 1)
    (fun regs hregs => ?_) (writeArgs_three ..).2
  obtain ⟨hrax, hrdi, hrsi⟩ := context_write hregs (by decide) hptr (by omega)
  rw [Machine.syscall_write hrax, Machine.sysWrite_denied]
  · rfl
  · rwa [hrsi]
  · rw [hrdi, hrsi]
    exact hcheck

/-- A blob that is granted its checked write. -/
lemma excursion_granted (hsteps : 6 ≤ b.steps) {ptr : ℕ} {bytes : List UInt8}
    (hcall : CallBlob blob (writeArgs Sys.write ptr bytes.length))
    (hblob : Loaded k.userRead uvaCode blob) (hptr : ptr + bytes.length < 2 ^ 64)
    (hlen : bytes.length ≤ maxWrite)
    (hcheck : k.paging.userRangeOk b.fuel ptr bytes.length = .ok true)
    (hload : ∀ i < bytes.length, (k.machine b.resume).load (ptr + i) = .ok (bytes.getD i 0)) :
    b.excursion ⟨k, c, v⟩ = .ok ⟨k, c.after bytes, v⟩ := by
  have hmax : maxWrite = 256 := rfl
  refine excursion_call hsteps hcall hblob (writeArgs_three ..).1 (c.after bytes)
    bytes.length (fun regs hregs => ?_) (writeArgs_three ..).2
  obtain ⟨hrax, hrdi, hrsi⟩ := context_write hregs (by decide) (by omega) (by omega)
  have hwrite : (Machine.sysWrite (k.machine b.resume) b.fuel true
      ⟨regs.context syscallVector 0, c⟩).out =
      .ok (Machine.written ⟨regs.context syscallVector 0, c⟩ fun i => bytes.getD i 0) := by
    rw [Machine.sysWrite_delivered]
    · rwa [hrsi]
    · rw [hrdi, hrsi]
      exact hcheck
    · rw [hrdi, hrsi]
      omega
    · rw [hrdi, hrsi]
      exact hload
  rw [Machine.syscall_write hrax, hwrite]
  simp only [Machine.written, hrsi]
  rfl

/-- A blob that makes an unchecked write. -/
lemma excursion_unchecked (hsteps : 6 ≤ b.steps) {ptr : ℕ} {bytes : List UInt8}
    (hcall : CallBlob blob (writeArgs Sys.writeUnchecked ptr bytes.length))
    (hblob : Loaded k.userRead uvaCode blob) (hptr : ptr + bytes.length < 2 ^ 64)
    (hlen : bytes.length ≤ maxWrite)
    (hload : ∀ i < bytes.length, (k.machine b.resume).load (ptr + i) = .ok (bytes.getD i 0)) :
    b.excursion ⟨k, c, v⟩ = .ok ⟨k, c.after bytes, v⟩ := by
  have hmax : maxWrite = 256 := rfl
  refine excursion_call hsteps hcall hblob (writeArgs_three ..).1 (c.after bytes)
    bytes.length (fun regs hregs => ?_) (writeArgs_three ..).2
  obtain ⟨hrax, hrdi, hrsi⟩ := context_write hregs (by decide) (by omega) (by omega)
  have hwrite : (Machine.sysWrite (k.machine b.resume) b.fuel false
      ⟨regs.context syscallVector 0, c⟩).out =
      .ok (Machine.written ⟨regs.context syscallVector 0, c⟩ fun i => bytes.getD i 0) := by
    refine Machine.sysWrite_unchecked ?_ ?_ ?_
    · rwa [hrsi]
    · rw [hrdi, hrsi]
      omega
    · rw [hrdi, hrsi]
      exact hload
  rw [Machine.syscall, hrax, if_neg (by decide), if_neg (by decide), if_neg (by decide),
    if_pos rfl, hwrite]
  simp only [Machine.written, hrsi]
  rfl

/-- A blob that is caught at its first instruction. -/
lemma excursion_caught (hsteps : 6 ≤ b.steps) (hblob : Loaded k.userRead uvaCode blob)
    {instr : UserInstr} {length vector : ℕ} (error : Word)
    (hdecode : decode (fun i => blob[0 + i]?) = .ok (instr, length))
    (hvector : vector = 13 ∨ vector = 14)
    (hact : ∀ s : UserRun, s.kernel = k →
      s.act b.resume b.fuel (instr.exec length s.regs s.kernel.userRead) =
        s.trap b.resume b.fuel vector error s.regs) :
    b.excursion ⟨k, c, v⟩ = .ok ⟨k, c, vector⟩ := by
  have hat := at_enter (b := b) (c := c) (v := v) hblob
  obtain ⟨run, hrun, hended⟩ : ∃ run,
      (b.enter ⟨k, c, v⟩).steps b.resume b.fuel machineCode 1 = .ok run ∧
        (b.enter ⟨k, c, v⟩).Ended run c vector := hat.violation hdecode (hact _ rfl) hvector
  exact excursion_of_ended hrun (by omega) hended

/-- A blob that reads where it cannot. -/
lemma excursion_read (hsteps : 6 ≤ b.steps) (hblob : Loaded k.userRead uvaCode blob) {virt : ℕ}
    (hdecode : decode (fun i => blob[0 + i]?) = .ok (.movAbs (BitVec.ofNat 64 virt), 10))
    (hvirt : virt < 2 ^ 47) (hread : k.userByte virt = .ok none) :
    b.excursion ⟨k, c, v⟩ = .ok ⟨k, c, 14⟩ := by
  refine excursion_caught hsteps hblob (k.accessFault (BitVec.ofNat 64 virt) false).2 hdecode
    (.inr rfl) fun s hs => ?_
  have hfetch : fetchLe (viewFrom s.kernel.userRead (BitVec.ofNat 64 virt)) 0 8 =
      .error (.unreadable 0) := by
    have hnone : viewFrom s.kernel.userRead (BitVec.ofNat 64 virt) 0 = none := by
      rw [viewFrom, BitVec.add_zero, hs]
      exact Kernel.userRead_eq hvirt hread
    rw [fetchLe, fetch, hnone]
    rfl
  have hfault : (k.accessFault (BitVec.ofNat 64 virt) false).1 = 14 := by
    rw [Kernel.accessFault, if_pos (canonicalAddr_of_lt hvirt).1]
  have hexec : (UserInstr.movAbs (BitVec.ofNat 64 virt)).exec 10 s.regs s.kernel.userRead =
      .fault (BitVec.ofNat 64 virt) := by
    rw [UserInstr.exec]
    dsimp only
    rw [hfetch]
    exact congrArg UserAction.fault (BitVec.add_zero _)
  rw [hexec, UserRun.act, hs]
  dsimp only
  rw [hfault]

end TestBench

/-! ## The memory of a test -/

/-- A program that is mapped and taken back, on the account. -/
def Account.runProgram (a : Account) : Option Account := do
  let (a, codeFrame, stackFrame) ← a.mapUserProgram
  some (a.unmapUserProgram codeFrame stackFrame)

/-- Between two tests: no program is mapped, and the secret lies on its page once it is planted. -/
structure BetweenTests (F : Finset ℕ) (planted : Bool) (k : Kernel) (a : Account) : Prop where
  keeps : k.Keeps F ∅ a
  code : a.pages (uvaCode / 4096) = none
  stack : a.pages (uvaStack / 4096) = none
  secret : if planted then k.Planted a else a.pages (secretVa / 4096) = none

/-- The page of the secret is one of the kernel. -/
lemma BetweenTests.secret_page {F : Finset ℕ} {k : Kernel} {a : Account}
    (h : BetweenTests F true k a) :
    (a.pages (secretVa / 4096)).map Prod.fst = some .kernel := by
  obtain ⟨f, hpage, -⟩ := h.secret
  rw [hpage]
  rfl

/-- What a program leaves behind on the account. -/
lemma Account.runProgram_back {a a' : Account} (h : a.runProgram = some a')
    (hcode : a.pages (uvaCode / 4096) = none) (hstack : a.pages (uvaStack / 4096) = none) :
    a'.pages = a.pages ∧ a'.tables = a.tables ∪ walkTables uvaCode ∧
      a'.free.card + a.missing uvaCode = a.free.card := by
  obtain ⟨⟨a₁, c, d⟩, hmap, hret⟩ := Option.bind_eq_some_iff.mp h
  obtain rfl := Option.some.inj hret
  obtain ⟨hpages, htables, -, hcard⟩ := Account.mapUserProgram_back hmap hcode hstack
  exact ⟨hpages, htables, hcard⟩

namespace TestBench

variable {F : Finset ℕ} {b : TestBench} {s : TestState} {a : Account} {planted : Bool}
  {blob : List UInt8}

/-- **The secret stays where it is** as long as the bytes of the pages do. -/
lemma planted_of_sameBytes {k k' : Kernel} {a' : Account} (h : k.Planted a)
    (hsame : Kernel.SameBytes a k k')
    (hpage : a'.pages (secretVa / 4096) = a.pages (secretVa / 4096)) : k'.Planted a' := by
  obtain ⟨f, hsecret, hbytes⟩ := h
  have hlength : Kernel.secret.length = 32 := by decide
  refine ⟨f, hpage.trans hsecret, fun j hj => ?_⟩
  rw [hsame _ _ f hsecret j (by omega), hbytes j hj]

/-- **A test follows the account** if its excursion ends as it should. -/
lemma runProgram_follows (h : BetweenTests F planted s.kernel a) (hblob : blob.length ≤ 4096)
    {preload : Option (List UInt8)} (hpreload : ∀ bytes ∈ preload, bytes.length ≤ 4096)
    {expect : ℕ} {capture : Capture}
    (hexcursion : ∀ k a' codeFrame stackFrame,
      ProgramAt F s.kernel a blob k a' codeFrame stackFrame →
      (∀ bytes ∈ preload, ∀ j < bytes.length,
        Lanes.byteAt k.paging.mem (stackFrame.start + j) = bytes.getD j 0) →
      b.excursion ⟨k, s.capture, 0⟩ = .ok ⟨k, capture, expect⟩) :
    Follows (fun s' a' => BetweenTests F planted s'.kernel a' ∧ s'.capture = capture ∧
      s'.lastViolation = expect) (b.runProgram s blob preload expect) a.runProgram := by
  rw [runProgram, Account.runProgram]
  refine (Kernel.mapUserProgram_at h.keeps hblob h.code h.stack).mapFail.bind ?_
  rintro ⟨k, codeFrame, stackFrame⟩ ⟨a', frames⟩ hmap ⟨hframes, hat⟩
  obtain rfl : (codeFrame, stackFrame) = frames := hframes
  dsimp only at hat ⊢
  -- with the bytes on the stack page
  obtain ⟨k₂, hfill, hat₂, hbytes⟩ : ∃ k₂, preloadStack k preload = .ok k₂ ∧
      ProgramAt F s.kernel a blob k₂ a' codeFrame stackFrame ∧
      ∀ bytes ∈ preload, ∀ j < bytes.length,
        Lanes.byteAt k₂.paging.mem (stackFrame.start + j) = bytes.getD j 0 := by
    cases preload with
    | none => exact ⟨k, rfl, hat, fun _ h => absurd h (Option.not_mem_none _)⟩
    | some bytes =>
      obtain ⟨k₂, hcopy, hat₂, hbytes⟩ := hat.preload h.code h.stack hblob (hpreload bytes rfl)
      refine ⟨k₂, ?_, hat₂, fun bytes' hsome => ?_⟩
      · rw [preloadStack, Exec.assert_bind (hpreload bytes rfl), hcopy]
        rfl
      · obtain rfl := Option.some.inj hsome
        exact hbytes
  obtain ⟨k₃, hunmap, hkeeps, hsame⟩ := hat₂.unmap h.code h.stack
  rw [hfill, Exec.bind_ok, hexcursion k₂ a' codeFrame stackFrame hat₂ hbytes, Exec.bind_ok]
  dsimp only
  rw [Exec.assert_bind rfl, hunmap]
  have hback : a.runProgram = some (a'.unmapUserProgram codeFrame stackFrame) := by
    rw [Account.runProgram, hmap]
    rfl
  obtain ⟨hpages, -, -⟩ := Account.runProgram_back hback h.code h.stack
  refine Follows.of_ok ⟨⟨hkeeps, by rw [hpages, h.code], by rw [hpages, h.stack], ?_⟩, rfl, rfl⟩
  have hsecret := h.secret
  cases planted with
  | false => exact (congrFun hpages _).trans hsecret
  | true => exact planted_of_sameBytes hsecret hsame (congrFun hpages _)

end TestBench

/-! ## What the kernel finds on the pages -/

namespace Books

variable {F H : Finset ℕ} {k : Kernel} {frames : ℕ → Option ℕ} {T : TableTree} {a : Account}

/-- The identity map has no pages. -/
lemma page_low (h : Books F H k frames T a) {n : ℕ} (hn : n * 4096 < identityLimit) :
    a.pages n = none := by
  have hnone := h.noTable (slot_of_lt.mpr hn)
  rw [slot_succ, slot_zero, Nat.mul_div_cancel n (by norm_num)] at hnone
  have hpage := h.pageAt n
  rw [Paging.pageAt, Paging.word, hnone] at hpage
  exact Option.map_eq_none_iff.mp hpage.symm

/-- **The check of a range**, from the account. -/
lemma userRangeOk_eq (h : Books F H k frames T a) (uaddr len fuel : ℕ) (haddr : uaddr < 2 ^ 64)
    (hfuel : (uaddr + len - 1) / 4096 - uaddr / 4096 < fuel) :
    ∃ b, k.paging.userRangeOk fuel uaddr len = .ok b ∧
      (b = true ↔ RangeAccessible (fun n => (a.pages n).map Prod.fst = some .user) uaddr len) := by
  refine ZiranOS.userRangeOk_eq _ (fun n hn => ?_) haddr (.inl hfuel)
  refine ⟨_, h.guards.pageUserAccessible_eq h.fresh (by omega), ?_⟩
  rw [Nat.mul_div_cancel n (by norm_num)]
  exact decide_eq_true_iff

/-- The check of a range on one page. -/
lemma userRangeOk_page (h : Books F H k frames T a) {uaddr len fuel : ℕ} (hfuel : 0 < fuel)
    (haddr : uaddr + len ≤ 2 ^ 47) (hlen : 0 < len)
    (hpage : (uaddr + len - 1) / 4096 = uaddr / 4096) :
    k.paging.userRangeOk fuel uaddr len =
      .ok (decide ((a.pages (uaddr / 4096)).map Prod.fst = some .user)) := by
  obtain ⟨b, hb, hiff⟩ := h.userRangeOk_eq uaddr len fuel (by omega) (by omega)
  rw [hb, Except.ok.injEq, Bool.eq_iff_iff, hiff, decide_eq_true_iff]
  constructor
  · rintro (hzero | ⟨-, -, hall⟩)
    · omega
    · exact hall _ le_rfl (by omega)
  · intro huser
    refine .inr ⟨by omega, haddr, fun n hge hle => ?_⟩
    obtain rfl : n = uaddr / 4096 := by omega
    exact huser

/-- **The dispatcher reads the bytes of a page.** -/
lemma load_eq (h : Books F H k frames T a) (resume : Resume) {virt f : ℕ} {ring : Ring}
    (hlow : identityLimit ≤ virt) (hvirt : virt < 2 ^ 47)
    (hpage : a.pages (virt / 4096) = some (ring, f)) :
    (k.machine resume).load virt = .ok (Lanes.byteAt k.paging.mem (f + virt % 4096)) := by
  refine Machine.load_eq hvirt ?_
  have htranslate := h.translate_eq (show virt < 2 ^ 48 by omega)
  rw [Account.lookup, if_neg (not_lt.mpr hlow), hpage] at htranslate
  exact htranslate

end Books

/-! ## Each test -/

namespace TestBench

variable {F : Finset ℕ} {b : TestBench} {s : TestState} {a : Account} {planted : Bool}

/-- Between two tests, with what the last program has left. -/
def After (F : Finset ℕ) (planted : Bool) (capture : Capture) (violation : ℕ) (s : TestState)
    (a : Account) : Prop :=
  BetweenTests F planted s.kernel a ∧ s.capture = capture ∧ s.lastViolation = violation

/-- **The self-test.** -/
lemma selfTest_follows (hsteps : 6 ≤ b.steps) (h : BetweenTests F planted s.kernel a) :
    Follows (After F planted s.capture 0) (b.selfTest s) a.runProgram :=
  runProgram_follows h (by decide) (fun _ h => absurd h (Option.not_mem_none _))
    fun _ _ _ _ hat _ => excursion_print hsteps (hat.loaded (by decide))

/-- A privileged instruction. -/
lemma cli_follows (hsteps : 6 ≤ b.steps) (h : BetweenTests F planted s.kernel a) :
    Follows (After F planted s.capture 13) (b.runViolation s blobCli 13) a.runProgram := by
  have hdecode : decode (fun i => blobCli[0 + i]?) = .ok (.cli, 1) := by decide +kernel
  exact runProgram_follows h (by decide) (fun _ h => absurd h (Option.not_mem_none _))
    fun _ _ _ _ hat _ => excursion_caught hsteps (hat.loaded (by decide)) 0 hdecode (.inl rfl)
      fun _ _ => rfl

/-- A read of a page that is not for ring 3. -/
lemma read_follows (hsteps : 6 ≤ b.steps) (h : BetweenTests F planted s.kernel a)
    {blob : List UInt8} (hblob : blob.length ≤ 4096) {virt : ℕ}
    (hdecode : decode (fun i => blob[0 + i]?) = .ok (.movAbs (BitVec.ofNat 64 virt), 10))
    (hvirt : virt < 2 ^ 47) (hcode : virt / 4096 ≠ uvaCode / 4096)
    (hstack : virt / 4096 ≠ uvaStack / 4096)
    (hpage : (a.pages (virt / 4096)).map Prod.fst ≠ some .user) :
    Follows (After F planted s.capture 14) (b.runViolation s blob 14) a.runProgram := by
  refine runProgram_follows h hblob (fun _ h => absurd h (Option.not_mem_none _))
    fun k a' _ _ hat _ => excursion_read hsteps (hat.loaded hblob) hdecode hvirt ?_
  obtain ⟨frames, T, hbooks⟩ := hat.keeps
  refine hbooks.userByte_none (by omega) ?_
  rwa [hat.other_page hcode hstack]

/-- **The processor stops a program at what it may not do.** -/
lemma enforcementTest_follows (hsteps : 6 ≤ b.steps) (h : BetweenTests F planted s.kernel a) :
    Follows (After F planted s.capture 14) (b.enforcementTest s)
      (a.runProgram >>= Account.runProgram) := by
  have hdecode : decode (fun i => blobReadKernel[0 + i]?) =
      .ok (.movAbs (BitVec.ofNat 64 0xb8000), 10) := by decide +kernel
  refine (cli_follows hsteps h).bind fun s₁ a₁ _ ⟨h₁, hcapture, _⟩ => ?_
  rw [← hcapture]
  refine read_follows hsteps h₁ (by decide) hdecode (by decide) (by decide) (by decide) ?_
  obtain ⟨frames, T, hbooks⟩ := h₁.keeps
  rw [hbooks.page_low (by decide)]
  exact Option.some_ne_none _ |>.symm

/-- The secret is read and written. -/
lemma length_secret : Kernel.secret.length = 32 := by decide

/-- While a program runs, too. -/
lemma planted_of_programAt {k : Kernel} {a' : Account} {blob : List UInt8}
    {codeFrame stackFrame : PhysFrame} (h : BetweenTests F true s.kernel a)
    (hat : ProgramAt F s.kernel a blob k a' codeFrame stackFrame) : k.Planted a' :=
  planted_of_sameBytes h.secret hat.same (hat.other_page (by decide) (by decide))

/-- **The unchecked call leaks the secret.** -/
lemma leak_follows (hsteps : 6 ≤ b.steps) (h : BetweenTests F true s.kernel a) :
    Follows (After F true (s.capture.after Kernel.secret) 0) (b.runUserBlob s blobLeak none)
      a.runProgram := by
  have hva : secretVa = 0x60000000 := rfl
  have h30 := identityLimit_eq
  have hlength := length_secret
  refine runProgram_follows h (by decide) (fun _ h => absurd h (Option.not_mem_none _))
    fun k a' _ _ hat _ => excursion_unchecked hsteps callBlob_leak (hat.loaded (by decide))
      (by omega) (by decide) fun i hi => ?_
  obtain ⟨f, hpage, hbytes⟩ := planted_of_programAt h hat
  obtain ⟨frames, T, hbooks⟩ := hat.keeps
  have hpage' : a'.pages ((secretVa + i) / 4096) = some (.kernel, f) := by
    rw [show (secretVa + i) / 4096 = secretVa / 4096 by omega, hpage]
  rw [hbooks.load_eq b.resume (by omega) (by omega) hpage',
    show (secretVa + i) % 4096 = i by omega, hbytes i hi]

/-- **The checked call refuses it.** -/
lemma writeSecret_follows (hsteps : 6 ≤ b.steps) (hfuel : 0 < b.fuel)
    (h : BetweenTests F true s.kernel a) :
    Follows (After F true s.capture 0) (b.runUserBlob s blobWriteSecret none) a.runProgram := by
  have hva : secretVa = 0x60000000 := rfl
  have hlength := length_secret
  refine runProgram_follows h (by decide) (fun _ h => absurd h (Option.not_mem_none _))
    fun k a' _ _ hat _ => excursion_refused hsteps callBlob_writeSecret (hat.loaded (by decide))
      (by omega) (by decide) ?_
  obtain ⟨f, hpage, -⟩ := planted_of_programAt h hat
  obtain ⟨frames, T, hbooks⟩ := hat.keeps
  rw [hbooks.userRangeOk_page hfuel (by omega) (by omega) (by omega), hpage]
  rfl

/-- **The checked call passes on a buffer of the program.** -/
lemma writeUser_follows (hsteps : 6 ≤ b.steps) (hfuel : 0 < b.fuel)
    (h : BetweenTests F planted s.kernel a) :
    Follows (After F planted (s.capture.after userMsg) 0)
      (b.runUserBlob s blobWriteUser (some userMsg)) a.runProgram := by
  have hva : uvaStack = 0x50100000 := rfl
  have h30 := identityLimit_eq
  have hlength : userMsg.length = 18 := by decide
  refine runProgram_follows h (by decide) (fun bytes hbytes => ?_)
    fun k a' _ stackFrame hat hbytes => excursion_granted hsteps callBlob_writeUser
      (hat.loaded (by decide)) (by omega) (by decide) ?_ fun i hi => ?_
  · obtain rfl := Option.some.inj hbytes
    omega
  · obtain ⟨frames, T, hbooks⟩ := hat.keeps
    rw [hbooks.userRangeOk_page hfuel (by omega) (by omega) (by omega), hat.stack_page]
    rfl
  · obtain ⟨frames, T, hbooks⟩ := hat.keeps
    have hpage : a'.pages ((uvaStack + i) / 4096) = some (.user, stackFrame.start) := by
      rw [show (uvaStack + i) / 4096 = uvaStack / 4096 by omega, hat.stack_page]
    rw [hbooks.load_eq b.resume (by omega) (by omega) hpage,
      show (uvaStack + i) % 4096 = i by omega, hbytes userMsg rfl i hi]

/-- A range that is not for ring 3 is refused. -/
lemma expectRefused_eq {k : Kernel} (hfuel : 0 < b.fuel) (h : BetweenTests F planted k a)
    {uaddr : ℕ} (huaddr : uaddr < 2 ^ 64) (hrange : uaddr < identityLimit ∨ 2 ^ 47 ≤ uaddr) :
    b.expectRefused k uaddr = .ok () := by
  obtain ⟨frames, T, hbooks⟩ := h.keeps
  obtain ⟨allowed, hcheck, hiff⟩ := hbooks.userRangeOk_eq uaddr 1 b.fuel huaddr (by omega)
  have hno : allowed = false := by
    rw [Bool.eq_false_iff, Ne, hiff]
    rintro (hzero | ⟨-, hle, hall⟩)
    · omega
    · have huser : (a.pages (uaddr / 4096)).map Prod.fst = some .user :=
        hall _ le_rfl (by omega)
      rw [hbooks.page_low (by omega)] at huser
      cases huser
  rw [expectRefused, hcheck, hno]
  rfl

/-- The secret is planted. -/
lemma plantSecret_follows (hfuel : 0 < b.fuel) {k : Kernel} (h : BetweenTests F false k a) :
    Follows (BetweenTests F true) (k.plantSecret b.fuel) a.plantSecret := by
  refine (Kernel.plantSecret_follows h.keeps hfuel h.secret).mono
    fun k' a' _ ⟨hnew, hplanted⟩ => ⟨hnew.keeps, ?_, ?_, hplanted⟩
  · rw [hnew.outside _ (by decide), h.code]
  · rw [hnew.outside _ (by decide), h.stack]

end TestBench

/-! ## The whole -/

namespace Account

/-- The tests of the boundary on the account. -/
def securityTest (a : Account) : Option Account := do
  let a ← a.plantSecret
  let a ← a.runProgram
  let a ← a.runProgram
  let a ← a.runProgram
  a.runProgram

/-- All tests of ring 3 on the account. -/
def userTests (a : Account) : Option Account := do
  let a ← a.runProgram
  let a ← a.runProgram >>= runProgram
  a.securityTest

variable {a : Account}

/-- A program needs two frames and those for the missing tables, and keeps the latter. -/
lemma runProgram_eq (hcode : a.pages (uvaCode / 4096) = none)
    (hstack : a.pages (uvaStack / 4096) = none) :
    if 2 + a.missing uvaCode ≤ a.free.card then
      ∃ a', a.runProgram = some a' ∧ a'.free.card + a.missing uvaCode = a.free.card ∧
        a'.tables = a.tables ∪ walkTables uvaCode ∧ a'.pages = a.pages
    else a.runProgram = none := by
  have hsome := a.mapUserProgram_isSome
  cases hmap : a.mapUserProgram with
  | none =>
    rw [hmap] at hsome
    rw [if_neg (hsome.not.mp Bool.false_ne_true), runProgram, hmap]
    rfl
  | some x =>
    rw [hmap] at hsome
    have hrun : a.runProgram = some (x.1.unmapUserProgram x.2.1 x.2.2) := by
      rw [runProgram, hmap]
      rfl
    obtain ⟨hpages, htables, hcard⟩ := runProgram_back hrun hcode hstack
    rw [if_pos (hsome.mp rfl)]
    exact ⟨_, hrun, hcard, htables, hpages⟩

/-- Once the tables of the programs are there a program costs nothing. -/
lemma runProgram_again (hcode : a.pages (uvaCode / 4096) = none)
    (hstack : a.pages (uvaStack / 4096) = none) (htables : walkTables uvaCode ⊆ a.tables) :
    if 2 ≤ a.free.card then
      ∃ a', a.runProgram = some a' ∧ a'.free.card = a.free.card ∧ a'.tables = a.tables ∧
        a'.pages = a.pages
    else a.runProgram = none := by
  have hmissing : a.missing uvaCode = 0 := by
    rw [missing, Finset.sdiff_eq_empty_iff_subset.mpr htables, Finset.card_empty]
  have hrun := runProgram_eq hcode hstack
  rwa [hmissing, Finset.union_eq_left.mpr htables] at hrun

/-- The secret needs a frame and those for the missing tables. -/
lemma plantSecret_eq (a : Account) :
    if 1 + a.missing secretVa ≤ a.free.card then
      ∃ a' f, a.plantSecret = some a' ∧ a'.free.card + 1 + a.missing secretVa = a.free.card ∧
        a'.tables = a.tables ∪ walkTables secretVa ∧
        ∀ n, a'.pages n = if n = secretVa / 4096 then some (.kernel, f) else a.pages n
    else a.plantSecret = none := by
  have hsome := mapFresh_isSome a .kernel secretVa
  rw [plantSecret]
  cases hmap : a.mapFresh .kernel secretVa with
  | none =>
    rw [hmap] at hsome
    rw [if_neg (hsome.not.mp Bool.false_ne_true)]
    rfl
  | some x =>
    rw [hmap] at hsome
    obtain ⟨hcard, htables⟩ := mapFresh_card hmap
    rw [if_pos (hsome.mp rfl)]
    exact ⟨x.1, _, rfl, hcard, htables, mapFresh_pages hmap⟩

/-- **The tests of the boundary** need two frames for the secret and two for a program. -/
lemma securityTest_eq (hcode : a.pages (uvaCode / 4096) = none)
    (hstack : a.pages (uvaStack / 4096) = none) (htables : walkTables uvaCode ⊆ a.tables)
    (hmissing : a.missing secretVa = 1) :
    if 4 ≤ a.free.card then
      ∃ a' f, a.securityTest = some a' ∧ a'.free.card + 2 = a.free.card ∧
        ∀ n, a'.pages n = if n = secretVa / 4096 then some (.kernel, f) else a.pages n
    else a.securityTest = none := by
  have hplant := a.plantSecret_eq
  rw [hmissing] at hplant
  rw [securityTest]
  by_cases htwo : 1 + 1 ≤ a.free.card
  swap
  · rw [if_neg htwo] at hplant
    rw [if_neg (by omega), hplant]
    rfl
  rw [if_pos htwo] at hplant
  obtain ⟨a₀, f, hrun₀, hcard₀, htables₀, hpages₀⟩ := hplant
  rw [hrun₀, Option.bind_eq_bind, Option.bind_some]
  have hcode₀ : a₀.pages (uvaCode / 4096) = none := by rw [hpages₀, if_neg (by decide), hcode]
  have hstack₀ : a₀.pages (uvaStack / 4096) = none := by rw [hpages₀, if_neg (by decide), hstack]
  have hsub₀ : walkTables uvaCode ⊆ a₀.tables := htables₀ ▸ htables.trans Finset.subset_union_left
  have hrun₁ := runProgram_again hcode₀ hstack₀ hsub₀
  by_cases hfour : 4 ≤ a.free.card
  swap
  · rw [if_neg (show ¬ 2 ≤ a₀.free.card by omega)] at hrun₁
    rw [if_neg hfour, hrun₁]
    rfl
  rw [if_pos hfour]
  rw [if_pos (show 2 ≤ a₀.free.card by omega)] at hrun₁
  obtain ⟨a₁, hrun₁, hcard₁, htables₁, hpages₁⟩ := hrun₁
  have hrun₂ := runProgram_again (a := a₁) (hpages₁ ▸ hcode₀) (hpages₁ ▸ hstack₀)
    (htables₁ ▸ hsub₀)
  rw [if_pos (show 2 ≤ a₁.free.card by omega)] at hrun₂
  obtain ⟨a₂, hrun₂, hcard₂, htables₂, hpages₂⟩ := hrun₂
  rw [hpages₁] at hpages₂
  rw [htables₁] at htables₂
  have hrun₃ := runProgram_again (a := a₂) (hpages₂ ▸ hcode₀) (hpages₂ ▸ hstack₀)
    (htables₂ ▸ hsub₀)
  rw [if_pos (show 2 ≤ a₂.free.card by omega)] at hrun₃
  obtain ⟨a₃, hrun₃, hcard₃, htables₃, hpages₃⟩ := hrun₃
  rw [hpages₂] at hpages₃
  rw [htables₂] at htables₃
  have hrun₄ := runProgram_again (a := a₃) (hpages₃ ▸ hcode₀) (hpages₃ ▸ hstack₀)
    (htables₃ ▸ hsub₀)
  rw [if_pos (show 2 ≤ a₃.free.card by omega)] at hrun₄
  obtain ⟨a₄, hrun₄, hcard₄, -, hpages₄⟩ := hrun₄
  refine ⟨a₄, f, ?_, by omega, fun n => by rw [hpages₄, hpages₃, hpages₀]⟩
  rw [hrun₁, Option.bind_some, hrun₂, Option.bind_some, hrun₃, Option.bind_some, hrun₄]

/-- **All tests of ring 3** need one frame more, for the table of the programs. -/
lemma userTests_eq (hcode : a.pages (uvaCode / 4096) = none)
    (hstack : a.pages (uvaStack / 4096) = none) (hmissing : a.missing uvaCode = 1)
    (hsecret : (walkTables secretVa \ (a.tables ∪ walkTables uvaCode)).card = 1) :
    if 5 ≤ a.free.card then
      ∃ a' f, a.userTests = some a' ∧ a'.free.card + 3 = a.free.card ∧
        ∀ n, a'.pages n = if n = secretVa / 4096 then some (.kernel, f) else a.pages n
    else a.userTests = none := by
  have hrun₁ := runProgram_eq hcode hstack
  rw [hmissing] at hrun₁
  rw [userTests]
  by_cases hthree : 2 + 1 ≤ a.free.card
  swap
  · rw [if_neg hthree] at hrun₁
    rw [if_neg (by omega), hrun₁]
    rfl
  rw [if_pos hthree] at hrun₁
  obtain ⟨a₁, hrun₁, hcard₁, htables₁, hpages₁⟩ := hrun₁
  have hsub₁ : walkTables uvaCode ⊆ a₁.tables := htables₁ ▸ Finset.subset_union_right
  have hrun₂ := runProgram_again (a := a₁) (hpages₁ ▸ hcode) (hpages₁ ▸ hstack) hsub₁
  rw [if_pos (show 2 ≤ a₁.free.card by omega)] at hrun₂
  obtain ⟨a₂, hrun₂, hcard₂, htables₂, hpages₂⟩ := hrun₂
  rw [hpages₁] at hpages₂
  have hrun₃ := runProgram_again (a := a₂) (hpages₂ ▸ hcode) (hpages₂ ▸ hstack)
    (htables₂ ▸ hsub₁)
  rw [if_pos (show 2 ≤ a₂.free.card by omega)] at hrun₃
  obtain ⟨a₃, hrun₃, hcard₃, htables₃, hpages₃⟩ := hrun₃
  rw [hpages₂] at hpages₃
  rw [htables₂] at htables₃
  have hlast := securityTest_eq (a := a₃) (hpages₃ ▸ hcode) (hpages₃ ▸ hstack)
    (htables₃ ▸ hsub₁) (by rw [missing, htables₃, htables₁, hsecret])
  rw [hpages₃] at hlast
  rw [hrun₁, Option.bind_eq_bind, Option.bind_some, hrun₂, Option.bind_some, hrun₃,
    Option.bind_some]
  by_cases hfive : 5 ≤ a.free.card
  · rw [if_pos (show 4 ≤ a₃.free.card by omega)] at hlast
    obtain ⟨a', f, hrun, hcard, hpages⟩ := hlast
    rw [if_pos hfive]
    exact ⟨a', f, hrun, by omega, hpages⟩
  · rw [if_neg (show ¬ 4 ≤ a₃.free.card by omega)] at hlast
    rw [if_neg hfive, hlast]

end Account

namespace TestBench

variable {F : Finset ℕ} {b : TestBench} {s : TestState} {a : Account}

/-- **The tests of the boundary.** -/
lemma securityTest_follows (hsteps : 6 ≤ b.steps) (hfuel : 0 < b.fuel)
    (h : BetweenTests F false s.kernel a) :
    Follows (After F true (Capture.reset.after userMsg) 0) (b.securityTest s) a.securityTest := by
  have hdecode : decode (fun i => blobReadSecret[0 + i]?) =
      .ok (.movAbs (BitVec.ofNat 64 secretVa), 10) := by decide +kernel
  have hlength := length_secret
  rw [securityTest, Account.securityTest]
  refine (plantSecret_follows hfuel h).mapFail.bind fun k a₀ _ h₀ => ?_
  rw [expectRefused_eq hfuel h₀ (by norm_num) (.inl (by decide)), Exec.bind_ok,
    expectRefused_eq hfuel h₀ (by norm_num) (.inr le_rfl), Exec.bind_ok,
    expectRefused_eq hfuel h₀ (by norm_num) (.inr (by norm_num)), Exec.bind_ok]
  -- the direct read
  refine (read_follows (s := { s with kernel := k }) hsteps h₀ (by decide) hdecode (by decide)
    (by decide) (by decide) ?_).bind fun s₁ a₁ _ ⟨h₁, _, _⟩ => ?_
  · rw [h₀.secret_page]
    exact fun hring => Ring.noConfusion (Option.some.inj hring)
  -- the unchecked call
  refine (leak_follows (s := { s₁ with capture := .reset }) hsteps h₁).bind
    fun s₂ a₂ _ ⟨h₂, hcapture₂, _⟩ => ?_
  dsimp only at hcapture₂
  rw [hcapture₂, Exec.assert_bind (Capture.lastWriteInto_after _ (by omega))]
  -- the checked call, on the secret and on the buffer
  refine (writeSecret_follows (s := { s₂ with capture := .reset }) hsteps hfuel h₂).bind
    fun s₃ a₃ _ ⟨h₃, hcapture₃, _⟩ => ?_
  dsimp only at hcapture₃
  have hnothing : Capture.reset.lastWriteInto.length = 0 := by
    rw [Capture.lastWriteInto, Capture.reset, Nat.zero_min, List.take_zero, List.length_nil]
  rw [hcapture₃, Exec.assert_bind hnothing, ← bind_pure (a₃.runProgram)]
  refine (writeUser_follows (s := { s₃ with capture := .reset }) hsteps hfuel h₃).bind
    fun s₄ a₄ _ h₄ => ?_
  have hcapture₄ : s₄.capture = Capture.reset.after userMsg := h₄.2.1
  have hmsg : userMsg.length ≤ 64 := by decide
  rw [Exec.assert_bind (hcapture₄ ▸ Capture.lastWriteInto_after _ hmsg)]
  exact Follows.of_ok h₄

/-- **All tests of ring 3.** -/
lemma userTests_follows (hsteps : 6 ≤ b.steps) (hfuel : 0 < b.fuel)
    (h : BetweenTests F false s.kernel a) :
    Follows (After F true (Capture.reset.after userMsg) 0) (b.userTests s) a.userTests := by
  rw [userTests, Account.userTests]
  refine (selfTest_follows hsteps h).bind fun s₁ a₁ _ ⟨h₁, _, _⟩ => ?_
  refine (enforcementTest_follows hsteps h₁).bind fun s₂ a₂ _ ⟨h₂, _, _⟩ => ?_
  exact securityTest_follows hsteps hfuel h₂

end TestBench

/-- The pages of the heap and of the secret. -/
lemma MemoryUse.rings_tested (k : Kernel) (n : ℕ) : MemoryUse.rings ⟨k, true, true, none⟩ n =
    if HeapPage n ∨ n = secretVa / 4096 then some .kernel else none := by
  simp only [MemoryUse.rings, Option.map_none, if_true, ite_self]
  split_ifs <;> simp_all

/-- **The tests of ring 3 pass exactly on 268 frames.**  Let the kernel boot on any memory map whose
usable memory lies below 1 GiB, and stand up its memory; since then memory may have changed in any
way outside of the tables.  If at least 268 frames were free at boot, the self-test, the test of
enforcement and the test of the boundary all pass: the programs that break the boundary are caught,
the unchecked call leaks exactly the secret, the checked one nothing of it, and it passes on the
buffer of a program, which is the last that was captured.  Then each frame has one use, 266 frames
less are free than at boot, and above the identity map the pages of the heap and of the secret are
mapped and no other, none of them for ring 3.  With fewer frames a test runs out of them and the
kernel panics. -/
theorem ring3_tests_iff (regions : List MemoryRegion) (kernelStart kernelEnd : ℕ)
    (bootInfo : ℕ × ℕ) (al : FrameAllocator) (report : InitReport)
    (hframes : FrameAllocator.init (some regions) kernelStart kernelEnd bootInfo =
      .ok (al, report))
    (hlow : ∀ i ∈ freeFrames regions kernelStart kernelEnd bootInfo,
      i * physFrameSize < identityLimit)
    (mem : ℕ → ℕ) (cr3 : ℕ) (k₀ k : Kernel) (hup : standUp mem cr3 al = .ok k₀)
    (hsame : k₀.SameButMemory k) (b : TestBench) (hsteps : 6 ≤ b.steps) (hfuel : 0 < b.fuel)
    (capture : Capture) (lastViolation : ℕ) :
    if 268 ≤ report.freeFrames then
      ∃ s, b.userTests ⟨k, capture, lastViolation⟩ = .ok s ∧
        s.capture.lastWriteInto = userMsg ∧ s.lastViolation = 0 ∧
        s.kernel.allocator.freeFrames + 266 = report.freeFrames ∧
        (∀ i ∈ freeFrames regions kernelStart kernelEnd bootInfo, ∃! u, s.kernel.Uses i u) ∧
        ∀ virt, identityLimit ≤ virt → virt < 2 ^ 48 →
          (∃ p, s.kernel.paging.translate virt = .ok p ∧
            (p.isSome ↔ HeapPage (virt / 4096) ∨ virt / 4096 = secretVa / 4096)) ∧
          s.kernel.paging.pageUserAccessible virt = .ok false
    else b.userTests ⟨k, capture, lastViolation⟩ = Exec.panic .assertion := by
  have hrefines := refines_of_init hframes
  have hreport : report.freeFrames = (freeFrames regions kernelStart kernelEnd bootInfo).card := by
    rw [report_of_init hframes, hrefines.count]
  rw [hreport]
  generalize freeFrames regions kernelStart kernelEnd bootInfo = F at *
  -- the account of the memory that stands
  have hstand := standUp_follows mem cr3 hrefines hlow
  have hcount := Account.standUp_eq F
  rw [hup] at hstand
  obtain ⟨a, ha, hfits⟩ := hstand.exists_of_ok
  rw [ha] at hcount
  by_cases henough : 263 ≤ F.card
  swap
  · rw [if_neg henough] at hcount
    cases hcount
  rw [if_pos henough] at hcount
  obtain ⟨a', ha', hcard, htables⟩ := hcount
  obtain rfl := Option.some.inj ha'
  have hnone : ∀ n, ¬ HeapPage n → a.pages n = none := fun n hn => hfits.page_none <| by
    rw [MemoryUse.rings_heap, if_neg hn]
  obtain ⟨hheapSecret, hheapCode, hheapStack, -, -⟩ := MemoryUse.not_heapPage
  have hbetween : BetweenTests F false k a := by
    obtain ⟨frames, T, hbooks⟩ := hfits.keeps
    exact ⟨⟨frames, T, hbooks.sameButMemory hsame⟩, hnone _ hheapCode, hnone _ hheapStack,
      hnone _ hheapSecret⟩
  have hfollows := TestBench.userTests_follows (s := ⟨k, capture, lastViolation⟩) hsteps hfuel
    hbetween
  have hneed := a.userTests_eq hbetween.code hbetween.stack
    (by rw [Account.missing, htables]; decide) (by rw [htables]; decide)
  split_ifs with hcard'
  · rw [if_pos (show 5 ≤ a.free.card by omega)] at hneed
    obtain ⟨a₁, f, hrun, hcard₁, hpages⟩ := hneed
    rw [hrun] at hfollows
    obtain ⟨s, hs, hafter, hcapture, hviolation⟩ := hfollows
    have hfits₁ : MemoryUse.Fits F ⟨s.kernel, true, true, none⟩ a₁ := by
      refine ⟨hafter.keeps, fun n => ?_, fun _ hsome => absurd hsome (Option.some_ne_none _).symm⟩
      rw [hpages, MemoryUse.rings_tested]
      by_cases hn : n = secretVa / 4096
      · rw [if_pos hn, if_pos (.inr hn)]
        rfl
      · rw [if_neg hn, hfits.pages, MemoryUse.rings_heap]
        simp only [hn, or_false]
    obtain ⟨hone, -, hview⟩ := hfits₁.conserved
    refine ⟨s, hs, ?_, hviolation, ?_, hone, fun virt hid hvirt => ?_⟩
    · rw [hcapture]
      exact Capture.lastWriteInto_after _ (by decide)
    · obtain ⟨frames, T, hbooks⟩ := hafter.keeps
      rw [hbooks.refines.count]
      omega
    · obtain ⟨⟨p, htranslate, hsome⟩, huser⟩ := hview virt hid hvirt
      rw [MemoryUse.rings_tested] at hsome huser
      refine ⟨⟨p, htranslate, ?_⟩, ?_⟩
      · rw [hsome]
        split_ifs with hn <;> simp [hn]
      · rw [huser]
        split_ifs <;> rfl
  · rw [if_neg (show ¬ 5 ≤ a.free.card by omega)] at hneed
    rw [hneed] at hfollows
    exact hfollows

/-! ### A sample machine -/

/-- A memory map with 268 usable frames. -/
def testRegions : List MemoryRegion := [⟨0x100 * 4096, 268 * 4096, memoryKindUsable⟩]

/-- The sample machine passes the tests, and has two frames left. -/
theorem ring3_tests_iff_testRegions : ∃ al report k s,
    FrameAllocator.init (some testRegions) 0 0 (0, 0) = .ok (al, report) ∧
      standUp (fun _ => 0) 0 al = .ok k ∧
      (⟨⟨0, 0⟩, 1, 6, fun _ _ => 0⟩ : TestBench).userTests ⟨k, .reset, 0⟩ = .ok s ∧
      s.capture.lastWriteInto = userMsg ∧ s.kernel.allocator.freeFrames = 2 := by
  have hfree : freeFrames testRegions 0 0 (0, 0) = Finset.Ico 0x100 (0x100 + 268) :=
    freeFrames_region (by norm_num) (by rw [frameCount_eq]; norm_num)
  have hmem : 0x100 ∈ freeFrames testRegions 0 0 (0, 0) := by
    rw [hfree]
    decide
  have husable : (usableFrames testRegions).Nonempty := ⟨0x100, (Finset.mem_filter.mp hmem).1⟩
  obtain ⟨al, report, hinit, hrefines, -⟩ := init_refines husable 0 0 (0, 0)
  have hlow : ∀ i ∈ freeFrames testRegions 0 0 (0, 0), i * physFrameSize < identityLimit := by
    intro i hi
    have h30 := identityLimit_eq
    rw [hfree, Finset.mem_Ico] at hi
    rw [physFrameSize]
    omega
  have hcard : (freeFrames testRegions 0 0 (0, 0)).card = 268 := by rw [hfree, Nat.card_Ico]
  have hreport : report.freeFrames = 268 := by
    rw [report_of_init hinit, hrefines.count, hcard]
  -- the memory stands
  obtain ⟨k, hup⟩ : ∃ k, standUp (fun _ => 0) 0 al = .ok k := by
    generalize freeFrames testRegions 0 0 (0, 0) = F at hrefines hlow hcard
    have hstand := standUp_follows (fun _ => 0) 0 hrefines hlow
    have hcount := Account.standUp_eq F
    rw [if_pos (by omega)] at hcount
    obtain ⟨a, ha, -, -⟩ := hcount
    rw [ha] at hstand
    obtain ⟨k, hup, -⟩ := hstand
    exact ⟨k, hup⟩
  have htests := ring3_tests_iff testRegions 0 0 (0, 0) al report hinit hlow (fun _ => 0) 0 k k hup
    (.refl k) ⟨⟨0, 0⟩, 1, 6, fun _ _ => 0⟩ le_rfl one_pos .reset 0
  rw [hreport, if_pos le_rfl] at htests
  obtain ⟨s, hs, hcapture, -, hleft, -⟩ := htests
  exact ⟨al, report, k, s, hinit, hup, hs, hcapture, by omega⟩

end ZiranOS
