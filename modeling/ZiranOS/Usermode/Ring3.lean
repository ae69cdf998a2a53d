import ZiranOS.Syscall.Interrupt
import ZiranOS.Usermode.Alike

/-!
# What ring 3 can learn and change

A program of ring 3 is any function from its registers and from what it can read to what it does
next: it computes, it stores a byte, it takes a fault, or it traps.  The processor lets a store
through where all entries of the walk are for the user and writable, and takes a fault elsewhere;
faults and traps go through `interrupt_dispatch`, and the excursion is over when that returns to
ring 0.

A trap changes the state of the system calls; what the kernel writes to memory of its own meanwhile
(the saved registers on its stack, the statics behind that state, the screen) are separate events of
an excursion (`UserRun.Steps`), which may come between the steps of the program in any order.

Whatever the program does, memory changes in the frames of its own two pages only, apart from the
memory of the kernel (`ring3_confined`).  With the checked calls it can tell two kernels apart
exactly if they differ at a byte that it could have read itself, and with the unchecked one exactly
if they differ at a byte that the tables map at all (`ring3_learns_iff`).
-/

namespace ZiranOS

open ProgLib

/-! ## The registers of a program -/

/-- The registers of a program of ring 3. -/
structure UserRegs where
  reg : Reg → Word
  rip : Word
  rflags : Word

namespace UserRegs

/-- The processor in ring 3, with the selectors that `usermode_enter` loads. -/
def cpu (r : UserRegs) : Cpu where
  reg := r.reg
  rip := r.rip
  rflags := r.rflags
  cs := 0x1b
  ss := 0x23
  mem := fun _ => 0

/-- What a trap saves. -/
def context (r : UserRegs) (vector : ℕ) (error : Word) : InterruptContext :=
  savedContext r.cpu vector error

/-- What the way out of a trap loads. -/
def ofContext (ctx : InterruptContext) : UserRegs where
  reg
    | .rax => BitVec.ofNat 64 ctx.rax
    | .rbx => BitVec.ofNat 64 ctx.rbx
    | .rcx => BitVec.ofNat 64 ctx.rcx
    | .rdx => BitVec.ofNat 64 ctx.rdx
    | .rsi => BitVec.ofNat 64 ctx.rsi
    | .rdi => BitVec.ofNat 64 ctx.rdi
    | .rbp => BitVec.ofNat 64 ctx.rbp
    | .rsp => BitVec.ofNat 64 ctx.rsp
    | .r8 => BitVec.ofNat 64 ctx.r8
    | .r9 => BitVec.ofNat 64 ctx.r9
    | .r10 => BitVec.ofNat 64 ctx.r10
    | .r11 => BitVec.ofNat 64 ctx.r11
    | .r12 => BitVec.ofNat 64 ctx.r12
    | .r13 => BitVec.ofNat 64 ctx.r13
    | .r14 => BitVec.ofNat 64 ctx.r14
    | .r15 => BitVec.ofNat 64 ctx.r15
  rip := BitVec.ofNat 64 ctx.rip
  rflags := BitVec.ofNat 64 ctx.rflags

/-- The registers with another value in one of them. -/
def set (r : UserRegs) (reg : Reg) (value : Word) : UserRegs :=
  { r with reg := Function.update r.reg reg value }

end UserRegs

/-! ## The memory of a program -/

/-- The addresses of which the processor takes the low 48 bits; the others are faults. -/
def CanonicalAddr (addr : Word) : Prop :=
  addr.toNat < userAddrLimit ∨ 2 ^ 64 - userAddrLimit ≤ addr.toNat

instance (addr : Word) : Decidable (CanonicalAddr addr) := inferInstanceAs (Decidable (_ ∨ _))

/-- The bits of an address that are translated. -/
def lowBits (addr : Word) : ℕ := addr.toNat % 2 ^ 48

namespace Kernel

/-- The byte that a program reads at an address, if it can read there. -/
def userRead (k : Kernel) (addr : Word) : Option UInt8 :=
  if CanonicalAddr addr then (k.userByte (lowBits addr)).toOption.join else none

/-- The physical address to which a store of a program goes, if the processor lets it through. -/
def userTarget (k : Kernel) (addr : Word) : Option ℕ :=
  if CanonicalAddr addr ∧
      ∀ entry ∈ k.paging.walk (lowBits addr), UserEntry entry ∧ entry &&& writable ≠ 0 then
    (k.paging.translate (lowBits addr)).toOption.join
  else
    none

/-- The fault of an access of a program that is not let through, with its error code: whether the
page is there, whether the access was a write, and that it came from ring 3. -/
def accessFault (k : Kernel) (addr : Word) (write : Bool) : ℕ × Word :=
  if CanonicalAddr addr then
    (14, (if (k.paging.translate (lowBits addr)).toOption.join.isSome then 1 else 0) |||
      (if write then 2 else 0) ||| 4)
  else
    (13, 0)

end Kernel

/-! ## The programs -/

/-- What a program does next. -/
inductive UserAction where
  /-- It computes. -/
  | compute (regs : UserRegs)
  /-- It stores a byte. -/
  | store (addr : Word) (b : UInt8) (regs : UserRegs)
  /-- It reads where it cannot. -/
  | fault (addr : Word)
  /-- It traps: a system call, or an instruction that it may not execute. -/
  | trap (vector : ℕ) (error : Word) (regs : UserRegs)

/-- A program: what it does with its registers and with what it can read. -/
abbrev UserCode := UserRegs → (Word → Option UInt8) → UserAction

/-- Where the kernel goes on when the excursion is over. -/
structure Resume where
  usermodeResume : ℕ
  kernelRsp : ℕ

/-- What the dispatcher reads. -/
def Kernel.machine (k : Kernel) (resume : Resume) : Machine where
  tables := k.paging
  bytes := Lanes.byteAt k.paging.mem
  usermodeResume := resume.usermodeResume
  kernelRsp := resume.kernelRsp

/-- An excursion to ring 3: the kernel, the registers, what the system calls change, their log, and
whether the excursion is over. -/
structure UserRun where
  kernel : Kernel
  regs : UserRegs
  capture : Capture
  lastViolation : ℕ
  log : List SyscallEvent
  returned : Bool

namespace UserRun

variable (resume : Resume) (fuel : ℕ) (code : UserCode)

/-- What a trap hands to the dispatcher. -/
def dispatchState (s : UserRun) (vector : ℕ) (error : Word) (regs : UserRegs) : DispatchState where
  ctx := regs.context vector error
  capture := s.capture
  lastViolation := s.lastViolation

/-- Take a trap.  The memory of the kernel, to which it writes meanwhile, is left to
`UserRun.Steps`. -/
def trap (s : UserRun) (vector : ℕ) (error : Word) (regs : UserRegs) :
    Exec DispatchStop UserRun := do
  let m := s.kernel.machine resume
  let st := s.dispatchState vector error regs
  let log := if vector = syscallVector then (m.syscall fuel st.toSyscallState).log else []
  let st ← m.interruptDispatch fuel st
  pure
    { s with
      regs := .ofContext st.ctx
      capture := st.capture
      lastViolation := st.lastViolation
      log := s.log ++ log
      returned := decide (st.ctx.cpl ≠ 3) }

/-- What the processor makes of an action of a program. -/
def act (s : UserRun) : UserAction → Exec DispatchStop UserRun
  | .compute regs => pure { s with regs := regs }
  | .store addr b regs =>
    match s.kernel.userTarget addr with
    | some phys =>
      pure { s with
        kernel := s.kernel.withMem (Lanes.setByte s.kernel.paging.mem phys b), regs := regs }
    | none =>
      let (vector, error) := s.kernel.accessFault addr true
      s.trap resume fuel vector error s.regs
  | .fault addr =>
    let (vector, error) := s.kernel.accessFault addr false
    s.trap resume fuel vector error s.regs
  | .trap vector error regs => s.trap resume fuel vector error regs

/-- One step of a program. -/
def step (s : UserRun) : Exec DispatchStop UserRun :=
  if s.returned then pure s else s.act resume fuel (code s.regs s.kernel.userRead)

/-- Some steps of a program. -/
def steps (n : ℕ) (s : UserRun) : Exec DispatchStop UserRun :=
  Exec.iterate (step resume fuel code) n s

end UserRun

/-- What happens during an excursion. -/
inductive ExcursionEvent where
  /-- The program takes a step. -/
  | step
  /-- The kernel stores a byte to memory of its own. -/
  | kernelStore (phys : ℕ) (b : UInt8)

/-- One event of an excursion; `own` are the physical addresses of the stack, the statics and the
screen of the kernel. -/
def UserRun.Steps (resume : Resume) (fuel : ℕ) (code : UserCode) (own : Set ℕ) (s : UserRun) :
    ExcursionEvent → UserRun → Prop
  | .step, s' => s.step resume fuel code = .ok s'
  | .kernelStore phys b, s' => phys ∈ own ∧
      s' = { s with kernel := s.kernel.withMem (Lanes.setByte s.kernel.paging.mem phys b) }

/-! ## What the memory holds for whom -/

namespace Kernel

/-- A program can read at the physical address. -/
def Shows (k : Kernel) (phys : ℕ) : Prop :=
  ∃ addr, CanonicalAddr addr ∧ k.paging.pageUserAccessible (lowBits addr) = .ok true ∧
    k.paging.translate (lowBits addr) = .ok (some phys)

/-- The kernel can read at the physical address through some pointer. -/
def Reaches (k : Kernel) (phys : ℕ) : Prop :=
  ∃ addr, CanonicalAddr addr ∧ k.paging.translate addr.toNat = .ok (some phys)

/-- The memories agree at the physical addresses `P`. -/
def AgreesOn (P : ℕ → Prop) (k k' : Kernel) : Prop :=
  ∀ phys, P phys → Lanes.byteAt k'.paging.mem phys = Lanes.byteAt k.paging.mem phys

variable {k k' : Kernel} {P : ℕ → Prop} {addr : Word}

/-- The fault of an access is no system call. -/
lemma accessFault_ne (k : Kernel) (addr : Word) (write : Bool) :
    (k.accessFault addr write).1 ≠ syscallVector := by
  unfold accessFault
  split_ifs <;> exact ne_of_beq_false rfl

namespace SameButMemory

/-- The same addresses can be read by a program. -/
lemma shows_eq (h : k.SameButMemory k') : k'.Shows = k.Shows := by
  funext phys
  rw [Shows, Shows, h.pageUserAccessible_eq, h.translate_eq]

/-- The same addresses can be read by the kernel. -/
lemma reaches_eq (h : k.SameButMemory k') : k'.Reaches = k.Reaches := by
  funext phys
  rw [Reaches, Reaches, h.translate_eq]

/-- A store goes to the same place. -/
lemma userTarget_eq (h : k.SameButMemory k') : k'.userTarget = k.userTarget := by
  funext addr
  rw [userTarget, userTarget, h.walk_eq, h.translate_eq]

/-- An access that is not let through is the same fault. -/
lemma accessFault_eq (h : k.SameButMemory k') : k'.accessFault = k.accessFault := by
  funext addr write
  rw [accessFault, accessFault, h.translate_eq]

/-- **A program reads the same** if the memories agree where it can read. -/
lemma userRead_eq (h : k.SameButMemory k') (hbytes : k.AgreesOn P k')
    (hshow : ∀ phys, k.Shows phys → P phys) : k'.userRead = k.userRead := by
  funext addr
  rw [userRead, userRead]
  split_ifs with hcanonical
  · rw [userByte, userByte, h.pageUserAccessible_eq, h.translate_eq]
    cases haccess : k.paging.pageUserAccessible (lowBits addr) with
    | error e => rfl
    | ok open' =>
      cases open' with
      | false => rfl
      | true =>
        cases htranslate : k.paging.translate (lowBits addr) with
        | error e => rfl
        | ok target =>
          cases target with
          | none => rfl
          | some phys =>
            exact congrArg some (hbytes phys (hshow phys ⟨addr, hcanonical, haccess, htranslate⟩))
  · rfl

/-- The checks of a system call are the same. -/
lemma sameChecks (h : k.SameButMemory k') (resume : Resume) :
    (k.machine resume).SameChecks (k'.machine resume) := ⟨h.userRangeOk_eq, rfl, rfl⟩

/-- **The kernel reads the same** where the memories agree. -/
lemma load_eq (h : k.SameButMemory k') (hbytes : k.AgreesOn P k') {resume : Resume} {virt : ℕ}
    (hvirt : ∀ phys, k.paging.translate virt = .ok (some phys) →
      ¬ (userAddrLimit ≤ virt ∧ virt < 2 ^ 64 - userAddrLimit) → P phys) :
    (k'.machine resume).load virt = (k.machine resume).load virt := by
  have htables : (k'.machine resume).tables.translate virt =
      (k.machine resume).tables.translate virt := congrFun h.translate_eq virt
  unfold Machine.load
  split_ifs with hcanonical
  · rfl
  · rw [htables]
    cases htranslate : k.paging.translate virt with
    | error e =>
      have hrun : (k.machine resume).tables.translate virt = .error e := htranslate
      rw [hrun]
      cases e <;> rfl
    | ok target =>
      have hrun : (k.machine resume).tables.translate virt = .ok target := htranslate
      rw [hrun]
      cases target with
      | none => rfl
      | some phys => exact congrArg Except.ok (hbytes phys (hvirt phys htranslate hcanonical))

end SameButMemory

end Kernel

/-! ## Traps -/

/-- The tables lie in the identity map. -/
lemma Sound.lowTables {k : Kernel} {frames : ℕ → Option ℕ} {T : TableTree} {S : Finset ℕ}
    (h : Sound k frames T S) : k.paging.LowTables := by
  intro level table ht
  obtain ⟨q, hq⟩ := h.isTable_iff.mp ht
  exact h.toPlaced.low h.fresh hq

/-- An address below 2^47. -/
lemma canonicalAddr_of_lt {virt : ℕ} (h : virt < 2 ^ 47) :
    CanonicalAddr (BitVec.ofNat 64 virt) ∧ lowBits (BitVec.ofNat 64 virt) = virt := by
  have h47 := userAddrLimit_eq
  have hvirt : (BitVec.ofNat 64 virt).toNat = virt := by
    rw [BitVec.toNat_ofNat]
    exact Nat.mod_eq_of_lt (by omega)
  rw [CanonicalAddr, lowBits, hvirt]
  exact ⟨.inl (by omega), Nat.mod_eq_of_lt (by omega)⟩

/-- An address that the processor takes. -/
lemma canonicalAddr_iff {virt : ℕ} (h : virt < 2 ^ 64) :
    CanonicalAddr (BitVec.ofNat 64 virt) ↔
      ¬ (userAddrLimit ≤ virt ∧ virt < 2 ^ 64 - userAddrLimit) := by
  have hvirt : (BitVec.ofNat 64 virt).toNat = virt := by
    rw [BitVec.toNat_ofNat]
    exact Nat.mod_eq_of_lt h
  rw [CanonicalAddr, hvirt]
  omega

namespace Kernel

variable {k k' : Kernel} {P : ℕ → Prop} {resume : Resume} {fuel : ℕ}

/-- An accepted range shows its bytes. -/
lemma shows_of_userRangeOk (hlow : k.paging.LowTables) {uaddr len i phys : ℕ}
    (haddr : uaddr < 2 ^ 64) (hshort : len ≤ maxWrite) (hfuel : 2 ≤ fuel)
    (hok : k.paging.userRangeOk fuel uaddr len = .ok true) (hi : i < len)
    (htranslate : k.paging.translate (uaddr + i) = .ok (some phys)) : k.Shows phys := by
  have hpages : (uaddr + len - 1) / 4096 - uaddr / 4096 < fuel := by
    unfold maxWrite at hshort
    omega
  obtain ⟨allowed, hcheck, hallowed⟩ := ZiranOS.userRangeOk_eq
    (fun n => k.paging.UserReadable (n * 4096))
    (fun n _ => hlow.pageUserAccessible_eq (n * 4096)) haddr (Or.inl hpages)
  obtain rfl : allowed = true := Except.ok.inj (hcheck.symm.trans hok)
  obtain ⟨-, hend, hall⟩ := (hallowed.mp rfl).resolve_left (by omega)
  have hreadable := hlow.userReadable_of_page (hall ((uaddr + i) / 4096) (by omega) (by omega))
  obtain ⟨b, hb, hiff⟩ := hlow.pageUserAccessible_eq (uaddr + i)
  obtain ⟨hcanonical, hbits⟩ := canonicalAddr_of_lt (show uaddr + i < 2 ^ 47 by omega)
  exact ⟨_, hcanonical, by rw [hbits, hb, hiff.mpr hreadable], by rw [hbits, htranslate]⟩

/-- **A system call is the same** where the memories agree: where a program can read, and for the
unchecked write wherever the kernel can. -/
lemma SameButMemory.syscall_eq (h : k.SameButMemory k') (hbytes : k.AgreesOn P k')
    (hlow : k.paging.LowTables) (hfuel : 2 ≤ fuel) {st : SyscallState}
    (hrdi : st.ctx.rdi < 2 ^ 64) (hshow : ∀ phys, k.Shows phys → P phys)
    (hreach : st.ctx.rax = Sys.writeUnchecked → ∀ phys, k.Reaches phys → P phys) :
    (k'.machine resume).syscall fuel st = (k.machine resume).syscall fuel st := by
  have hmod : ∀ i, (st.ctx.rdi + i) % 2 ^ 64 < 2 ^ 64 := fun i => Nat.mod_lt _ (by norm_num)
  refine Machine.syscall_congr (h.sameChecks resume) fun hcall hshort hcheck i hi =>
    h.load_eq hbytes fun phys htranslate hcanonical => ?_
  rcases hcall with hwrite | hunchecked
  · have hok := hcheck hwrite
    have hrange : st.ctx.rdi + i < 2 ^ 64 := by
      by_contra hover
      have hno : (k.machine resume).tables.userRangeOk fuel st.ctx.rdi st.ctx.rsi = .ok false := by
        unfold Paging.userRangeOk
        rw [if_neg (by omega), if_pos (by omega)]
        rfl
      rw [hno] at hok
      exact absurd (Except.ok.inj hok) Bool.false_ne_true
    rw [Nat.mod_eq_of_lt hrange] at htranslate
    exact hshow phys (shows_of_userRangeOk hlow hrdi hshort hfuel hok hi htranslate)
  · refine hreach hunchecked phys
      ⟨BitVec.ofNat 64 _, (canonicalAddr_iff (hmod i)).mpr hcanonical, ?_⟩
    rw [BitVec.toNat_ofNat, Nat.mod_mod]
    exact htranslate

/-- **A trap is handled alike.** -/
lemma interruptDispatch_congr {st : DispatchState}
    (hcall : st.ctx.vector = syscallVector → (k'.machine resume).syscall fuel st.toSyscallState =
      (k.machine resume).syscall fuel st.toSyscallState) :
    (k'.machine resume).interruptDispatch fuel st =
      (k.machine resume).interruptDispatch fuel st := by
  unfold Machine.interruptDispatch
  dsimp only
  split_ifs with hbreak hviolation hfault htimer hkeyboard hsyscall hspurious
  · rfl
  · rfl
  · rfl
  · rfl
  · rfl
  · rw [hcall hsyscall]
  · rfl
  · rfl

end Kernel

/-! ## Two excursions side by side -/

/-- A program never makes the unchecked call. -/
def UserCode.NeverUnchecked (code : UserCode) : Prop :=
  ∀ regs view error regs', code regs view = .trap syscallVector error regs' →
    regs'.reg .rax ≠ BitVec.ofNat 64 Sys.writeUnchecked

/-- Two excursions that differ in memory only, and not at the physical addresses `P`. -/
structure UserRun.Alike (P : ℕ → Prop) (s t : UserRun) : Prop where
  /-- Everything but the memory is the same. -/
  state : t = { s with kernel := t.kernel }
  /-- The tables are the same. -/
  tables : s.kernel.SameButMemory t.kernel
  /-- The memories agree. -/
  bytes : s.kernel.AgreesOn P t.kernel

namespace UserRun

variable {P : ℕ → Prop} {s t : UserRun} {resume : Resume} {fuel : ℕ} {code : UserCode}

/-- **A trap of two excursions.** -/
lemma Alike.trap (h : s.Alike P t) (hlow : s.kernel.paging.LowTables) (hfuel : 2 ≤ fuel)
    (hshow : ∀ phys, s.kernel.Shows phys → P phys) {vector : ℕ} {error : Word} {regs : UserRegs}
    (hreach : vector = syscallVector → regs.reg .rax = BitVec.ofNat 64 Sys.writeUnchecked →
      ∀ phys, s.kernel.Reaches phys → P phys) :
    Exec.Both (fun s' t' => s'.kernel = s.kernel ∧ s'.Alike P t')
      (s.trap resume fuel vector error regs) (t.trap resume fuel vector error regs) := by
  have hst : t.dispatchState vector error regs = s.dispatchState vector error regs := by
    rw [h.state]
    rfl
  have hcall : vector = syscallVector →
      (t.kernel.machine resume).syscall fuel (s.dispatchState vector error regs).toSyscallState =
        (s.kernel.machine resume).syscall fuel
          (s.dispatchState vector error regs).toSyscallState := by
    intro hvector
    refine h.tables.syscall_eq h.bytes hlow hfuel (BitVec.isLt _) hshow fun hrax => ?_
    exact hreach hvector (BitVec.eq_of_toNat_eq (hrax.trans rfl))
  have hlog : (if vector = syscallVector then ((t.kernel.machine resume).syscall fuel
      (s.dispatchState vector error regs).toSyscallState).log else []) =
      if vector = syscallVector then ((s.kernel.machine resume).syscall fuel
        (s.dispatchState vector error regs).toSyscallState).log else [] := by
    split_ifs with hvector
    · rw [hcall hvector]
    · rfl
  have hdispatch : (t.kernel.machine resume).interruptDispatch fuel
      (s.dispatchState vector error regs) =
      (s.kernel.machine resume).interruptDispatch fuel (s.dispatchState vector error regs) :=
    Kernel.interruptDispatch_congr hcall
  unfold UserRun.trap
  dsimp only
  rw [hst, hlog, hdispatch]
  refine (Exec.Both.of_eq rfl).bind fun st st' hst => .ok ?_
  subst hst
  refine ⟨rfl, ?_, h.tables, h.bytes⟩
  rw [h.state]

end UserRun

/-! ## Stores -/

/-- A store outside of the tables leaves them. -/
lemma Books.sameButMemory_setByte {F H : Finset ℕ} {k : Kernel} {frames : ℕ → Option ℕ}
    {T : TableTree} {a : Account} (h : Books F H k frames T a) {p : ℕ}
    (hp : ∀ {level q t}, T level q = some t → t / physFrameSize ≠ p / physFrameSize) (b : UInt8) :
    k.SameButMemory (k.withMem (Lanes.setByte k.paging.mem p b)) := by
  refine ⟨rfl, fun ht hindex => Lanes.setByte_of_ne fun heq => ?_⟩
  obtain ⟨q, hq⟩ := h.isTable_iff.mp ht
  have hdvd := h.toPlaced.aligned h.fresh hq
  refine hp hq ?_
  unfold physFrameSize frameSize at *
  omega

/-- The frames of the program. -/
def MemoryUse.ProgramFrame (s : MemoryUse) (phys : ℕ) : Prop :=
  ∃ frames, s.program = some frames ∧
    (phys / physFrameSize = frames.1.index ∨ phys / physFrameSize = frames.2.index)

/-- The pages of ring 3 are those of the program. -/
lemma MemoryUse.rings_user {s : MemoryUse} {n : ℕ} (h : s.rings n = some .user) :
    s.program.isSome ∧ (n = uvaCode / 4096 ∨ n = uvaStack / 4096) := by
  unfold MemoryUse.rings at h
  split_ifs at h with hheap hon hsecret hplanted hpages
  · exact absurd (Option.some.inj h) (by decide)
  · exact absurd (Option.some.inj h) (by decide)
  · exact ⟨by simpa using congrArg Option.isSome h, hpages⟩

/-- The memory may change outside of the tables. -/
lemma MemoryUse.Fits.sameButMemory {F : Finset ℕ} {s : MemoryUse} {a : Account} {k : Kernel}
    (h : s.Fits F a) (hsame : s.kernel.SameButMemory k) : Fits F { s with kernel := k } a := by
  obtain ⟨frames, T, hbooks⟩ := h.keeps
  exact ⟨⟨frames, T, hbooks.sameButMemory hsame⟩, h.pages, h.program⟩

/-- The pages that are open to ring 3 are those of the program. -/
lemma MemoryUse.Fits.rings_of_accessible {F : Finset ℕ} {s : MemoryUse} {a : Account}
    (h : s.Fits F a) {virt : ℕ} (hvirt : virt < 2 ^ 48)
    (haccess : s.kernel.paging.pageUserAccessible virt = .ok true) :
    s.rings (virt / 4096) = some .user := by
  obtain ⟨frames, T, hbooks⟩ := h.keeps
  rw [hbooks.guards.pageUserAccessible_eq hbooks.fresh hvirt, h.pages] at haccess
  exact of_decide_eq_true (Except.ok.inj haccess)

/-- What a program can read, the kernel can. -/
lemma MemoryUse.Fits.reaches_of_shows {F : Finset ℕ} {s : MemoryUse} {a : Account}
    (h : s.Fits F a) {phys : ℕ} (hphys : s.kernel.Shows phys) : s.kernel.Reaches phys := by
  obtain ⟨addr, -, haccess, htranslate⟩ := hphys
  have hcode : uvaCode = 0x50000000 := rfl
  have hstack : uvaStack = 0x50100000 := rfl
  have hvirt : lowBits addr < 2 ^ 48 := Nat.mod_lt _ (by norm_num)
  obtain ⟨-, hpage⟩ := MemoryUse.rings_user (h.rings_of_accessible hvirt haccess)
  have hhalf : lowBits addr < 2 ^ 47 := by omega
  have haddr : (BitVec.ofNat 64 (lowBits addr)).toNat = lowBits addr := by
    rw [BitVec.toNat_ofNat]
    exact Nat.mod_eq_of_lt (by omega)
  exact ⟨_, (canonicalAddr_of_lt hhalf).1, by rw [haddr, htranslate]⟩

/-- **What is open to ring 3 lies in the frames of the program**, and these hold no table. -/
lemma MemoryUse.Fits.frame_of_accessible {F : Finset ℕ} {s : MemoryUse} {a : Account}
    (h : s.Fits F a) {virt phys : ℕ} (hvirt : virt < 2 ^ 48)
    (haccess : s.kernel.paging.pageUserAccessible virt = .ok true)
    (htranslate : s.kernel.paging.translate virt = .ok (some phys)) :
    s.ProgramFrame phys ∧ phys / physFrameSize ∈ F ∧
      ∀ b, s.kernel.SameButMemory
        (s.kernel.withMem (Lanes.setByte s.kernel.paging.mem phys b)) := by
  obtain ⟨frames, T, hbooks⟩ := h.keeps
  have hring := h.rings_of_accessible hvirt haccess
  obtain ⟨hlow, -⟩ := MemoryUse.rings_place (Option.isSome_of_eq_some hring)
  have hid : ¬ virt < identityLimit := by omega
  rw [hbooks.translate_eq hvirt, Account.lookup, if_neg hid] at htranslate
  obtain ⟨⟨ring, f⟩, hpage, rfl⟩ := Option.map_eq_some_iff.mp (Except.ok.inj htranslate)
  have hframe := hbooks.page hpage
  have hindex : (f + virt % 4096) / physFrameSize = f / physFrameSize := by
    obtain ⟨m, rfl⟩ := hframe.aligned
    rw [physFrameSize]
    omega
  refine ⟨?_, hindex ▸ hframe.usable, hbooks.sameButMemory_setByte
    fun ht heq => hframe.owned.noTable ht (heq.trans hindex)⟩
  have hprogram := MemoryUse.rings_user hring
  obtain ⟨⟨codeFrame, stackFrame⟩, hframes⟩ := Option.isSome_iff_exists.mp hprogram.1
  obtain ⟨hcode, hstack⟩ := h.program _ hframes
  refine ⟨_, hframes, ?_⟩
  rw [hindex]
  rcases hprogram.2 with heq | heq
  · rw [heq, hcode] at hpage
    obtain ⟨-, rfl⟩ := Prod.mk.inj (Option.some.inj hpage)
    exact .inl rfl
  · rw [heq, hstack] at hpage
    obtain ⟨-, rfl⟩ := Prod.mk.inj (Option.some.inj hpage)
    exact .inr rfl

/-- **A store of a program** goes to a page of its own, and leaves the tables and the account. -/
lemma MemoryUse.Fits.userStore {F : Finset ℕ} {s : MemoryUse} {a : Account} (h : s.Fits F a)
    {addr : Word} {phys : ℕ} (htarget : s.kernel.userTarget addr = some phys) (b : UInt8) :
    s.ProgramFrame phys ∧
      s.kernel.SameButMemory (s.kernel.withMem (Lanes.setByte s.kernel.paging.mem phys b)) ∧
      Fits F { s with
        kernel := s.kernel.withMem (Lanes.setByte s.kernel.paging.mem phys b) } a := by
  obtain ⟨frames, T, hbooks⟩ := h.keeps
  unfold Kernel.userTarget at htarget
  split_ifs at htarget with hallowed
  obtain ⟨hcanonical, hentries⟩ := hallowed
  have hvirt : lowBits addr < 2 ^ 48 := Nat.mod_lt _ (by norm_num)
  have htranslate : s.kernel.paging.translate (lowBits addr) = .ok (some phys) := by
    rw [hbooks.translate_eq hvirt] at htarget ⊢
    exact congrArg Except.ok htarget
  have hlowTables : s.kernel.paging.LowTables := hbooks.toSound.lowTables
  obtain ⟨open', haccess, hiff⟩ := hlowTables.pageUserAccessible_eq (lowBits addr)
  obtain rfl : open' = true :=
    hiff.mpr ⟨⟨phys, htranslate⟩, fun entry hentry => (hentries entry hentry).1⟩
  obtain ⟨hframe, -, hsame⟩ := h.frame_of_accessible hvirt haccess htranslate
  exact ⟨hframe, hsame b, h.sameButMemory (hsame b)⟩

/-! ## Runs -/

namespace UserRun

variable {F : Finset ℕ} {P : ℕ → Prop} {k : Kernel} {resume : Resume} {fuel : ℕ} {code : UserCode}
  {own : Set ℕ} {s s' t : UserRun}

/-- What an excursion keeps: the tables and the frame allocator are those of the state `m`, memory
has changed in the frames of the program and at `own` only, and the kernel has its account. -/
structure Confined (F : Finset ℕ) (m : MemoryUse) (own : Set ℕ) (s : UserRun) : Prop where
  /-- The tables and the frame allocator. -/
  tables : m.kernel.SameButMemory s.kernel
  /-- The memory of neither the program nor the kernel. -/
  bytes : m.kernel.AgreesOn (fun phys => ¬ m.ProgramFrame phys ∧ phys ∉ own) s.kernel
  /-- The account. -/
  account : ∃ a, MemoryUse.Fits F { m with kernel := s.kernel } a

/-- A trap leaves the memory. -/
lemma trap_kernel {vector : ℕ} {error : Word} {regs : UserRegs}
    (h : s.trap resume fuel vector error regs = .ok s') : s'.kernel = s.kernel := by
  obtain ⟨st, -, hret⟩ := Exec.bind_eq_ok.mp h
  obtain rfl := Except.ok.inj hret
  rfl

/-- A store to the program or to the kernel, outside of the tables. -/
lemma Confined.setByte {m : MemoryUse} (h : s.Confined F m own) {phys : ℕ} {b : UInt8}
    (hphys : m.ProgramFrame phys ∨ phys ∈ own) (hsame : s.kernel.SameButMemory
      (s.kernel.withMem (Lanes.setByte s.kernel.paging.mem phys b))) :
    Confined F m own { s with
      kernel := s.kernel.withMem (Lanes.setByte s.kernel.paging.mem phys b) } := by
  obtain ⟨a, ha⟩ := h.account
  refine ⟨h.tables.trans hsame, fun phys' hphys' => ?_, a, ha.sameButMemory hsame⟩
  have hset : Lanes.byteAt (Lanes.setByte s.kernel.paging.mem phys b) phys' =
      if phys' = phys then b else Lanes.byteAt s.kernel.paging.mem phys' := Lanes.byteAt_setByte
  refine hset.trans ?_
  rw [if_neg]
  · exact h.bytes phys' hphys'
  · rintro rfl
    exact hphys.elim hphys'.1 hphys'.2

/-- A store of a program. -/
lemma Confined.store {m : MemoryUse} (h : s.Confined F m own) {addr : Word} {phys : ℕ}
    (htarget : s.kernel.userTarget addr = some phys) (b : UInt8) (regs : UserRegs) :
    Confined F m own { s with
      kernel := s.kernel.withMem (Lanes.setByte s.kernel.paging.mem phys b), regs := regs } := by
  obtain ⟨a, ha⟩ := h.account
  obtain ⟨hframe, hsame, -⟩ := ha.userStore htarget b
  have hset := h.setByte (.inl hframe) hsame
  exact ⟨hset.tables, hset.bytes, hset.account⟩

/-- A store of the kernel to memory that was never in the hands of the frame allocator. -/
lemma Confined.kernelStore {m : MemoryUse} (h : s.Confined F m own) {phys : ℕ} (hphys : phys ∈ own)
    (hout : phys / physFrameSize ∉ F) (b : UInt8) :
    Confined F m own { s with
      kernel := s.kernel.withMem (Lanes.setByte s.kernel.paging.mem phys b) } := by
  obtain ⟨a, frames, T, hbooks⟩ := h.account.imp fun _ ha => ha.keeps
  exact h.setByte (.inr hphys)
    (hbooks.sameButMemory_setByte (fun ht heq => hout (heq ▸ hbooks.table_usable ht)) b)

/-- **No step of a program leaves its pages.** -/
lemma Confined.step {m : MemoryUse} (h : s.Confined F m own)
    (hstep : s.step resume fuel code = .ok s') : s'.Confined F m own := by
  unfold UserRun.step at hstep
  split_ifs at hstep
  · obtain rfl := Except.ok.inj hstep
    exact h
  · have htrap : ∀ {vector error regs}, s.trap resume fuel vector error regs = .ok s' →
        s'.Confined F m own := by
      intro vector error regs hrun
      have hkernel := trap_kernel hrun
      exact ⟨hkernel ▸ h.tables, hkernel ▸ h.bytes, hkernel ▸ h.account⟩
    cases hact : code s.regs s.kernel.userRead with
    | compute regs =>
      rw [hact, UserRun.act] at hstep
      obtain rfl := Except.ok.inj hstep
      exact ⟨h.tables, h.bytes, h.account⟩
    | store addr b regs =>
      rw [hact, UserRun.act] at hstep
      cases htarget : s.kernel.userTarget addr with
      | none =>
        rw [htarget] at hstep
        exact htrap hstep
      | some phys =>
        rw [htarget] at hstep
        obtain rfl := Except.ok.inj hstep
        exact h.store htarget b regs
    | fault addr =>
      rw [hact] at hstep
      exact htrap hstep
    | trap vector error regs =>
      rw [hact] at hstep
      exact htrap hstep

/-- **A step of two excursions.** -/
lemma Alike.step {m : MemoryUse} (h : s.Alike P t) (hconfined : s.Confined F m own)
    (hfuel : 2 ≤ fuel) (hshow : ∀ phys, m.kernel.Shows phys → P phys)
    (hreach : code.NeverUnchecked ∨ ∀ phys, m.kernel.Reaches phys → P phys) :
    Exec.Both (fun s' t' => s'.Confined F m own ∧ s'.Alike P t')
      (s.step resume fuel code) (t.step resume fuel code) := by
  obtain ⟨a, frames, T, hbooks⟩ := hconfined.account.imp fun _ ha => ha.keeps
  have hlow : s.kernel.paging.LowTables := hbooks.toSound.lowTables
  have hshow' : ∀ phys, s.kernel.Shows phys → P phys := by
    rwa [hconfined.tables.shows_eq]
  have hregs : t.regs = s.regs := by rw [h.state]
  have hreturned : t.returned = s.returned := by rw [h.state]
  have hview : t.kernel.userRead = s.kernel.userRead := h.tables.userRead_eq h.bytes hshow'
  have htrap : ∀ vector error regs, (vector = syscallVector →
      regs.reg .rax = BitVec.ofNat 64 Sys.writeUnchecked →
        ∀ phys, s.kernel.Reaches phys → P phys) →
      Exec.Both (fun s' t' => s'.Confined F m own ∧ s'.Alike P t')
        (s.trap resume fuel vector error regs) (t.trap resume fuel vector error regs) := by
    intro vector error regs hreach'
    refine (h.trap hlow hfuel hshow' hreach').mono fun s' t' hkernel => ?_
    exact ⟨⟨hkernel.1 ▸ hconfined.tables, hkernel.1 ▸ hconfined.bytes,
      hkernel.1 ▸ hconfined.account⟩, hkernel.2⟩
  unfold UserRun.step
  rw [hreturned, hregs, hview]
  split_ifs
  · exact .ok ⟨hconfined, h⟩
  · cases hact : code s.regs s.kernel.userRead with
    | compute regs =>
      refine .ok ⟨⟨hconfined.tables, hconfined.bytes, hconfined.account⟩, ?_, h.tables, h.bytes⟩
      rw [h.state]
    | store addr b regs =>
      rw [UserRun.act, UserRun.act, h.tables.userTarget_eq, h.tables.accessFault_eq, hregs]
      cases htarget : s.kernel.userTarget addr with
      | none =>
        exact htrap _ _ _ fun hvector => absurd hvector (s.kernel.accessFault_ne addr true)
      | some phys =>
        obtain ⟨a', ha'⟩ := hconfined.account
        have htarget' : t.kernel.userTarget addr = some phys :=
          (congrFun h.tables.userTarget_eq addr).trans htarget
        obtain ⟨-, hsame, -⟩ := ha'.userStore htarget b
        obtain ⟨-, hsame', -⟩ := (ha'.sameButMemory h.tables).userStore htarget' b
        refine .ok ⟨hconfined.store htarget b regs, ?_,
          (hsame.symm.trans h.tables).trans hsame', fun phys' hphys' => ?_⟩
        · rw [h.state]
        · have hset : ∀ mem, Lanes.byteAt (Lanes.setByte mem phys b) phys' =
              if phys' = phys then b else Lanes.byteAt mem phys' :=
            fun mem => Lanes.byteAt_setByte
          refine (hset _).trans (Eq.trans ?_ (hset _).symm)
          rw [h.bytes phys' hphys']
    | fault addr =>
      rw [UserRun.act, UserRun.act, h.tables.accessFault_eq, hregs]
      exact htrap _ _ _ fun hvector => absurd hvector (s.kernel.accessFault_ne addr false)
    | trap vector error regs =>
      refine htrap vector error regs fun hvector hrax => ?_
      subst hvector
      rw [hconfined.tables.reaches_eq]
      exact hreach.resolve_left fun hno => hno _ _ _ _ hact hrax

/-- **No run of an excursion leaves the pages of the program and the memory of the kernel.** -/
lemma Confined.run {m : MemoryUse} (h : s.Confined F m own)
    (hown : ∀ phys ∈ own, phys / physFrameSize ∉ F)
    {tr : List (Transition UserRun ExcursionEvent)}
    (hrun : Run (UserRun.Steps resume fuel code own) s tr s') : s'.Confined F m own := by
  refine hrun.invariant (fun s e s' hs hstep => ?_) h
  cases e with
  | step => exact hs.step hstep
  | kernelStore phys b =>
    obtain ⟨hphys, rfl⟩ := hstep
    exact hs.kernelStore hphys (hown phys hphys) b

/-- What can be observed of an excursion from outside of its memory. -/
def observe (s : UserRun) : UserRegs × Capture × ℕ × List SyscallEvent × Bool :=
  (s.regs, s.capture, s.lastViolation, s.log, s.returned)

/-- Two excursions that differ in memory only cannot be told apart. -/
lemma Alike.observe_eq (h : s.Alike P t) : s.observe = t.observe := by
  rw [h.state]
  rfl

end UserRun

/-! ## What a program can learn -/

/-- A program tells two kernels apart: after some steps from the same start something that can be
observed is different. -/
def UserCode.TellsApart (resume : Resume) (fuel : ℕ) (code : UserCode) (k k' : Kernel) : Prop :=
  ∃ (start : UserRun) (n : ℕ),
    (({ start with kernel := k } : UserRun).steps resume fuel code n).map UserRun.observe ≠
      (({ start with kernel := k' } : UserRun).steps resume fuel code n).map UserRun.observe

section Learning

variable {F : Finset ℕ} {P : ℕ → Prop} {m : MemoryUse} {a : Account} {k' : Kernel}
  {resume : Resume} {fuel : ℕ} {code : UserCode} {phys : ℕ}

/-- **A program learns nothing** about memory that is the same where it, or the kernel for it, can
read. -/
lemma MemoryUse.Fits.not_tellsApart (h : m.Fits F a) (hsame : m.kernel.SameButMemory k')
    (hbytes : m.kernel.AgreesOn P k') (hfuel : 2 ≤ fuel)
    (hshow : ∀ phys, m.kernel.Shows phys → P phys)
    (hreach : code.NeverUnchecked ∨ ∀ phys, m.kernel.Reaches phys → P phys) :
    ¬ code.TellsApart resume fuel m.kernel k' := by
  rintro ⟨start, n, hne⟩
  have hconfined : UserRun.Confined F m ∅ { start with kernel := m.kernel } :=
    ⟨.refl _, fun _ _ => rfl, a, h⟩
  have halike : UserRun.Alike P { start with kernel := m.kernel } { start with kernel := k' } :=
    ⟨rfl, hsame, hbytes⟩
  have hboth := Exec.Both.iterate (R := fun s t => UserRun.Confined F m ∅ s ∧ s.Alike P t)
    (f := UserRun.step resume fuel code) (g := UserRun.step resume fuel code)
    (fun s t hst => hst.2.step hst.1 hfuel hshow hreach) n _ _ ⟨hconfined, halike⟩
  exact hne (hboth.map_eq fun s t hst => hst.2.observe_eq)

/-- The start of an excursion with nothing in its registers. -/
def UserRun.blank (k : Kernel) : UserRun where
  kernel := k
  regs := ⟨fun _ => 0, 0, 0⟩
  capture := ⟨fun _ => 0, 0⟩
  lastViolation := 0
  log := []
  returned := false

/-- The program that reads a byte into a register. -/
def readByteCode (addr : Word) : UserCode := fun regs view =>
  .compute (regs.set .rax (BitVec.ofNat 64 ((view addr).getD 0).toNat))

/-- The program that asks for a byte with the unchecked call. -/
def uncheckedCode (addr : Word) : UserCode := fun regs _ =>
  .trap syscallVector 0
    (((regs.set .rax (BitVec.ofNat 64 Sys.writeUnchecked)).set .rdi addr).set .rsi 1)

/-- One step. -/
lemma UserRun.steps_one (s : UserRun) : s.steps resume fuel code 1 = s.step resume fuel code :=
  bind_pure _

/-- **What a program can read, it can tell.** -/
lemma Kernel.Shows.tellsApart {k : Kernel} (hphys : k.Shows phys) (hsame : k.SameButMemory k')
    (hne : Lanes.byteAt k.paging.mem phys ≠ Lanes.byteAt k'.paging.mem phys) :
    ∃ code : UserCode, code.NeverUnchecked ∧ code.TellsApart resume fuel k k' := by
  obtain ⟨addr, hcanonical, haccess, htranslate⟩ := hphys
  have hread : ∀ k₁, k.SameButMemory k₁ →
      k₁.userRead addr = some (Lanes.byteAt k₁.paging.mem phys) := by
    intro k₁ hk₁
    rw [Kernel.userRead, if_pos hcanonical, Kernel.userByte, hk₁.pageUserAccessible_eq, haccess,
      hk₁.translate_eq, htranslate]
    rfl
  refine ⟨readByteCode addr, fun _ _ _ _ h => absurd h UserAction.noConfusion, .blank k, 1, ?_⟩
  rw [UserRun.steps_one, UserRun.steps_one]
  intro heq
  have hregs := congrArg (fun o => o.1.reg .rax) (Except.ok.inj heq)
  simp only [UserRun.observe, UserRegs.set, Function.update_self, hread k (.refl k),
    hread k' hsame, Option.getD_some] at hregs
  have hbytes := congrArg BitVec.toNat hregs
  rw [BitVec.toNat_ofNat, BitVec.toNat_ofNat, Nat.mod_eq_of_lt, Nat.mod_eq_of_lt] at hbytes
  · exact hne (UInt8.toNat_inj.mp hbytes)
  · exact (UInt8.toNat_lt _).trans (by norm_num)
  · exact (UInt8.toNat_lt _).trans (by norm_num)

/-- An unchecked write copies the bytes at its pointer, wherever they are. -/
lemma Machine.sysWrite_unchecked {m : Machine} {st : SyscallState} {data : ℕ → UInt8}
    (hlen : st.ctx.rsi ≤ maxWrite) (hptr : st.ctx.rdi + st.ctx.rsi ≤ 2 ^ 64)
    (hload : ∀ i < st.ctx.rsi, m.load (st.ctx.rdi + i) = .ok (data i)) :
    (m.sysWrite fuel false st).out = .ok (Machine.written st data) := by
  unfold Machine.sysWrite
  dsimp only
  rw [if_neg (not_lt.mpr hlen), if_neg Bool.false_ne_true, Traced.lift_ok_bind,
    if_neg (by decide), Machine.writeBytes_eq _ _ hlen hptr hload, Traced.bind_eq_of_ok rfl,
    Traced.bind_eq_of_ok rfl]
  rfl

/-- The dispatcher passes a system call on. -/
lemma Machine.interruptDispatch_syscall {m : Machine} {st : DispatchState} {call : SyscallState}
    (hvector : st.ctx.vector = syscallVector)
    (hcall : (m.syscall fuel st.toSyscallState).out = .ok call) :
    m.interruptDispatch fuel st = .ok { st with toSyscallState := call } := by
  rw [Machine.interruptDispatch, hvector, if_neg (by decide),
    if_neg fun h => absurd h.1 (by decide), if_neg (by decide), if_neg (by decide),
    if_neg (by decide), if_pos rfl, hcall]
  rfl

/-- **The unchecked call delivers the byte at its pointer.** -/
lemma UserRun.trap_unchecked {s : UserRun} {addr : Word} {regs : UserRegs}
    (hcanonical : CanonicalAddr addr)
    (htranslate : s.kernel.paging.translate addr.toNat = .ok (some phys))
    (hrax : regs.reg .rax = BitVec.ofNat 64 Sys.writeUnchecked) (hrdi : regs.reg .rdi = addr)
    (hrsi : regs.reg .rsi = 1) :
    ∃ s', s.trap resume fuel syscallVector 0 regs = .ok s' ∧
      ∀ h, s'.capture.buf ⟨0, h⟩ = Lanes.byteAt s.kernel.paging.mem phys := by
  have hnumber : (s.dispatchState syscallVector 0 regs).ctx.rax = Sys.writeUnchecked :=
    congrArg BitVec.toNat hrax
  have hptr : (s.dispatchState syscallVector 0 regs).ctx.rdi = addr.toNat :=
    congrArg BitVec.toNat hrdi
  have hlen : (s.dispatchState syscallVector 0 regs).ctx.rsi = 1 := congrArg BitVec.toNat hrsi
  have hload : (s.kernel.machine resume).load addr.toNat =
      .ok (Lanes.byteAt s.kernel.paging.mem phys) := by
    have htables : (s.kernel.machine resume).tables.translate addr.toNat = .ok (some phys) :=
      htranslate
    rw [CanonicalAddr] at hcanonical
    rw [Machine.load, if_neg (by omega), htables]
    rfl
  have hwrite : ((s.kernel.machine resume).syscall fuel
      (s.dispatchState syscallVector 0 regs).toSyscallState).out =
      .ok (Machine.written (s.dispatchState syscallVector 0 regs).toSyscallState
        fun _ => Lanes.byteAt s.kernel.paging.mem phys) := by
    rw [Machine.syscall, hnumber, if_neg (by decide), if_neg (by decide), if_neg (by decide),
      if_pos rfl]
    refine Machine.sysWrite_unchecked (hlen ▸ by decide) ?_ fun i hi => ?_
    · rw [hptr, hlen]
      exact addr.isLt
    · rw [hlen] at hi
      obtain rfl : i = 0 := by omega
      rw [hptr, Nat.add_zero, hload]
  rw [UserRun.trap, Machine.interruptDispatch_syscall rfl hwrite]
  refine ⟨_, rfl, fun h => if_pos ?_⟩
  rw [hlen]
  exact Nat.one_pos

/-- **What the kernel can read, the unchecked call tells.** -/
lemma Kernel.Reaches.tellsApart {k : Kernel} (hphys : k.Reaches phys) (hsame : k.SameButMemory k')
    (hne : Lanes.byteAt k.paging.mem phys ≠ Lanes.byteAt k'.paging.mem phys) :
    ∃ code : UserCode, code.TellsApart resume fuel k k' := by
  obtain ⟨addr, hcanonical, htranslate⟩ := hphys
  refine ⟨uncheckedCode addr, .blank k, 1, ?_⟩
  have hstep : ∀ k₁ : Kernel, k₁.paging.translate addr.toNat = .ok (some phys) →
      ∃ s', (UserRun.blank k₁).step resume fuel (uncheckedCode addr) = .ok s' ∧
        ∀ h, s'.capture.buf ⟨0, h⟩ = Lanes.byteAt k₁.paging.mem phys :=
    fun k₁ hk₁ => UserRun.trap_unchecked hcanonical hk₁ rfl rfl rfl
  obtain ⟨s₁, hs₁, hbuf₁⟩ := hstep k htranslate
  obtain ⟨s₂, hs₂, hbuf₂⟩ := hstep k' (by rw [hsame.translate_eq, htranslate])
  have hblank : ∀ k₁, ({ UserRun.blank k with kernel := k₁ } : UserRun) = .blank k₁ :=
    fun _ => rfl
  rw [UserRun.steps_one, UserRun.steps_one, hblank, hblank, hs₁, hs₂]
  intro heq
  have hobserve : s₁.observe = s₂.observe := Except.ok.inj heq
  have hcapture : s₁.capture = s₂.capture := congrArg (fun o => o.2.1) hobserve
  have hpos : 0 < maxWrite := by decide
  exact hne (by rw [← hbuf₁ hpos, ← hbuf₂ hpos, hcapture])

end Learning

/-! ## States from boot on -/

/-- A state that a run from boot reaches; `F` are the frames that were free at first. -/
structure MemoryUse.Reached (F : Finset ℕ) (s : MemoryUse) : Prop where
  /-- The frames lie in the identity map. -/
  low : ∀ i ∈ F, i * physFrameSize < identityLimit
  /-- The kernel has booted on some memory map, and has come here by the steps of its memory. -/
  run : ∃ regions kernelStart kernelEnd bootInfo al report mem cr3 k₀ fuel tr,
    FrameAllocator.init (some regions) kernelStart kernelEnd bootInfo = .ok (al, report) ∧
      F = freeFrames regions kernelStart kernelEnd bootInfo ∧
      (Kernel.atBoot mem cr3 al).init = .ok k₀ ∧ 0 < fuel ∧
      Run (MemoryUse.Steps F fuel) ⟨k₀, false, false, none⟩ tr s

/-- Such a state has an account. -/
lemma MemoryUse.Reached.fits {F : Finset ℕ} {s : MemoryUse} (h : s.Reached F) :
    ∃ a, s.Fits F a := by
  obtain ⟨_, _, _, _, _, _, _, _, _, _, _, hframes, hF, hinit, hfuel, hrun⟩ := h.run
  exact MemoryUse.fits_of_run (hF ▸ refines_of_init hframes) h.low hinit hfuel hrun

/-- The sample machine reaches a state with the program of the self-test; the stack of the program
lies in the frame 0x16. -/
lemma reached_eightFrames : ∃ m : MemoryUse, m.Reached (freeFrames eightFrames 0 0 (0, 0)) ∧
    m.program = some (⟨0x13000⟩, ⟨0x16000⟩) ∧ m.kernel.userTarget 0x50100008 = some 0x16008 := by
  obtain ⟨a, report, k, ha, hinit, hk, -, -⟩ := bootEight_ok
  have hmap : (do
      let k ← bootEight
      let (k, f) ← k.mapUserProgram userBlob
      pure (f, k.userTarget 0x50100008)) = .ok ((⟨0x13000⟩, ⟨0x16000⟩), some 0x16008) := by
    decide +kernel
  rw [hk, Exec.bind_ok] at hmap
  obtain ⟨⟨k₁, f⟩, hrun, hret⟩ := Exec.bind_eq_ok.mp hmap
  obtain ⟨rfl, htarget⟩ := Prod.mk.inj (Except.ok.inj hret)
  have hstep : MemoryUse.Steps (freeFrames eightFrames 0 0 (0, 0)) 1 ⟨k, false, false, none⟩
      (.mapUserProgram userBlob) ⟨k₁, false, false, some (⟨0x13000⟩, ⟨0x16000⟩)⟩ :=
    ⟨rfl, by decide, k₁, _, hrun, rfl⟩
  exact ⟨_, ⟨freeFrames_eightFrames, _, _, _, _, a, report, _, 0, k, 1, _, ha, rfl, hinit, one_pos,
    (Run.nil _).cons hstep⟩, rfl, htarget⟩

/-- A character is printed. -/
lemma Machine.syscall_print {m : Machine} {fuel : ℕ} {st : SyscallState}
    (hrax : st.ctx.rax = Sys.print) : (m.syscall fuel st).out = .ok (st.setRax 0) := by
  rw [Machine.syscall, if_pos hrax]
  rfl

/-- **What ring 3 can learn.**  Take a state that a run from boot reaches, and any other memory with
the same tables.  Some program that makes checked calls only tells the two apart exactly if they
differ at a byte that ring 3 can read.  Some program at all does exactly if they differ at a byte
that the tables map, for whomever: the unchecked call opens all of that, and nothing else. -/
theorem ring3_learns_iff (F : Finset ℕ) (m : MemoryUse) (hm : m.Reached F) (k' : Kernel)
    (hsame : m.kernel.SameButMemory k') (resume : Resume) (fuel : ℕ) (hfuel : 2 ≤ fuel) :
    ((∃ code : UserCode, code.NeverUnchecked ∧ code.TellsApart resume fuel m.kernel k') ↔
        ∃ phys, m.kernel.Shows phys ∧
          Lanes.byteAt m.kernel.paging.mem phys ≠ Lanes.byteAt k'.paging.mem phys) ∧
      ((∃ code : UserCode, code.TellsApart resume fuel m.kernel k') ↔
        ∃ phys, m.kernel.Reaches phys ∧
          Lanes.byteAt m.kernel.paging.mem phys ≠ Lanes.byteAt k'.paging.mem phys) := by
  obtain ⟨a, ha⟩ := hm.fits
  refine ⟨⟨?_, fun ⟨_, hphys, hne⟩ => hphys.tellsApart hsame hne⟩, ?_,
    fun ⟨_, hphys, hne⟩ => hphys.tellsApart hsame hne⟩
  · rintro ⟨code, hcode, htells⟩
    by_contra hno
    refine ha.not_tellsApart hsame (P := m.kernel.Shows) (fun phys hphys => ?_) hfuel
      (fun _ h => h) (.inl hcode) htells
    by_contra hne
    exact hno ⟨phys, hphys, Ne.symm hne⟩
  · rintro ⟨code, htells⟩
    by_contra hno
    refine ha.not_tellsApart hsame (P := m.kernel.Reaches) (fun phys hphys => ?_) hfuel
      (fun _ hphys => ha.reaches_of_shows hphys) (.inr fun _ h => h) htells
    by_contra hne
    exact hno ⟨phys, hphys, Ne.symm hne⟩

/-- On the sample machine another character on the screen is a secret for checked programs, but not
for the unchecked call. -/
theorem ring3_learns_iff_eightFrames : ∃ (m : MemoryUse) (k' : Kernel),
    Lanes.byteAt m.kernel.paging.mem 0xb8000 ≠ Lanes.byteAt k'.paging.mem 0xb8000 ∧
      (∀ code : UserCode, code.NeverUnchecked → ¬ code.TellsApart ⟨0, 0⟩ 2 m.kernel k') ∧
      ∃ code : UserCode, code.TellsApart ⟨0, 0⟩ 2 m.kernel k' := by
  obtain ⟨m, hm, -, -⟩ := reached_eightFrames
  obtain ⟨a, ha⟩ := hm.fits
  obtain ⟨frames, T, hbooks⟩ := ha.keeps
  have hout : 0xb8000 / physFrameSize ∉ freeFrames eightFrames 0 0 (0, 0) :=
    fun h => absurd ((mem_freeFrames_eightFrames _).mp h) (by decide)
  let b := Lanes.byteAt m.kernel.paging.mem 0xb8000 + 1
  have hsame := hbooks.sameButMemory_setByte (p := 0xb8000)
    (fun ht heq => hout (heq ▸ hbooks.table_usable ht)) b
  have hbyte : ∀ phys, Lanes.byteAt (Lanes.setByte m.kernel.paging.mem 0xb8000 b) phys =
      if phys = 0xb8000 then b else Lanes.byteAt m.kernel.paging.mem phys :=
    fun _ => Lanes.byteAt_setByte
  have hne : Lanes.byteAt m.kernel.paging.mem 0xb8000 ≠
      Lanes.byteAt (Lanes.setByte m.kernel.paging.mem 0xb8000 b) 0xb8000 := by
    rw [hbyte, if_pos rfl]
    exact fun h => absurd (add_eq_left.mp h.symm) (by decide)
  obtain ⟨hchecked, hunchecked⟩ := ring3_learns_iff _ m hm _ hsame ⟨0, 0⟩ 2 le_rfl
  refine ⟨m, _, hne, fun code hcode htells => ?_, hunchecked.mpr ⟨0xb8000, ?_, hne⟩⟩
  · obtain ⟨phys, ⟨addr, -, haccess, htranslate⟩, hdiffer⟩ := hchecked.mp ⟨code, hcode, htells⟩
    refine hdiffer ?_
    refine Eq.trans ?_ (hbyte phys).symm
    rw [if_neg]
    rintro rfl
    exact hout (ha.frame_of_accessible (Nat.mod_lt _ (by norm_num)) haccess htranslate).2.1
  · refine ⟨0xb8000, .inl (by decide), ?_⟩
    exact (hbooks.translate_eq (by decide)).trans rfl

end ZiranOS
