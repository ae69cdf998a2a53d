import ZiranOS.Paging.Permission
import ZiranOS.Lib.Traced

/-!
# System calls

A system call finds the registers of its caller on the stack and writes its result there.
`sysWrite` copies bytes from a pointer that the caller chose to the screen, to the serial line and
to a capture buffer; with `validate` it first checks the pointer against the page tables.

A read through such a pointer is a read of the processor: an address that is not canonical and a
page that is not mapped are faults.  What a call reads and prints is its log.
-/

namespace ZiranOS

open ProgLib

/-! ## Registers -/

/-- The registers that an interrupt leaves on the stack. -/
structure InterruptContext where
  r15 : ℕ
  r14 : ℕ
  r13 : ℕ
  r12 : ℕ
  r11 : ℕ
  r10 : ℕ
  r9 : ℕ
  r8 : ℕ
  rbp : ℕ
  rdi : ℕ
  rsi : ℕ
  rdx : ℕ
  rcx : ℕ
  rbx : ℕ
  rax : ℕ
  vector : ℕ
  errorCode : ℕ
  rip : ℕ
  cs : ℕ
  rflags : ℕ
  rsp : ℕ
  ss : ℕ
  deriving DecidableEq, Repr

/-- The privilege level of the caller. -/
def InterruptContext.cpl (ctx : InterruptContext) : ℕ := ctx.cs &&& 3

/-- Selector of the code segment of the kernel. -/
def kernelCode : ℕ := 0x08
/-- Selector of the data segment of the kernel. -/
def kernelData : ℕ := 0x10

namespace Sys

/-- Print one character. -/
def print : ℕ := 1
/-- Leave ring 3. -/
def exit : ℕ := 2
/-- Print bytes at a checked pointer. -/
def write : ℕ := 3
/-- Print bytes at a pointer that is not checked. -/
def writeUnchecked : ℕ := 4

end Sys

/-- The bound on the length of a write. -/
def maxWrite : ℕ := 256

/-! ## State -/

/-- The bytes of the latest write: `LAST_WRITE_BUF` and `LAST_WRITE_LEN`. -/
structure Capture where
  buf : Fin maxWrite → UInt8
  len : ℕ

/-- What a system call changes: the registers of its caller, and the capture. -/
structure SyscallState where
  ctx : InterruptContext
  capture : Capture

/-- What a system call only reads: the page tables, the bytes of physical memory, the address of
`usermode_resume` and the stack pointer of the kernel. -/
structure Machine where
  tables : Paging
  bytes : ℕ → UInt8
  usermodeResume : ℕ
  kernelRsp : ℕ

/-- Why a system call does not come back: the processor faults, or a loop has not ended. -/
inductive SyscallStop where
  | generalProtection
  | pageFault
  | running
  deriving DecidableEq, Repr

/-- The lines that system calls write to the serial log. -/
inductive SyscallReport where
  | print (ch : Char) (cs cpl : ℕ)
  | exit (cs cpl : ℕ)
  | unknown (number cpl : ℕ)
  | tooLong (len cpl : ℕ)
  | notUserReadable (ptr len cpl : ℕ)
  | emitting (validate : Bool) (n : ℕ)
  | emitted (cpl : ℕ)
  deriving DecidableEq, Repr

/-- What a system call does besides its result. -/
inductive SyscallEvent where
  /-- Read a byte through the pointer of the caller. -/
  | read (addr : ℕ)
  /-- Print a character on the screen. -/
  | screen (c : Char)
  /-- Print a character on the serial line. -/
  | serial (c : Char)
  /-- Write a line to the serial log. -/
  | report (line : SyscallReport)
  deriving DecidableEq, Repr

/-- Store a byte of the capture. -/
def Capture.store (capture : Capture) (i : ℕ) (byte : UInt8) : Exec SyscallStop Capture :=
  if h : i < maxWrite then .ok { capture with buf := Function.update capture.buf ⟨i, h⟩ byte }
  else Exec.panic .outOfBounds

/-- Return a result to the caller. -/
def SyscallState.setRax (st : SyscallState) (rax : ℕ) : SyscallState :=
  { st with ctx := { st.ctx with rax := rax } }

namespace Machine

/-- Read a byte at a virtual address, as the processor does. -/
def load (m : Machine) (virt : ℕ) : Exec SyscallStop UInt8 :=
  if userAddrLimit ≤ virt ∧ virt < 2 ^ 64 - userAddrLimit then
    Exec.fail .generalProtection
  else do
    match ← (m.tables.translate virt).mapFail fun _ => SyscallStop.running with
    | none => Exec.fail .pageFault
    | some phys => pure (m.bytes phys)

/-! ## The calls -/

/-- Copy the `i`-th byte. -/
def writeByte (m : Machine) (ptr : ℕ) (capture : Capture) (i : ℕ) :
    Traced SyscallEvent SyscallStop Capture := do
  let addr := (ptr + i) % 2 ^ 64
  Traced.tell (.read addr)
  let byte ← Traced.lift (m.load addr)
  let capture ← Traced.lift (capture.store i byte)
  Traced.tell (.screen (Char.ofUInt8 byte))
  Traced.tell (.serial (Char.ofUInt8 byte))
  pure capture

/-- Print the bytes at the pointer of the caller and capture them. -/
def sysWrite (m : Machine) (fuel : ℕ) (validate : Bool) (st : SyscallState) :
    Traced SyscallEvent SyscallStop SyscallState := do
  let ptr := st.ctx.rdi
  let len := st.ctx.rsi
  let cpl := st.ctx.cpl
  if len > maxWrite then
    Traced.tell (.report (.tooLong len cpl))
    pure (st.setRax (2 ^ 64 - 1))
  else
    let allowed ← Traced.lift <|
      if validate then (m.tables.userRangeOk fuel ptr len).mapFail fun _ => .running
      else .ok true
    if !allowed then
      Traced.tell (.report (.notUserReadable ptr len cpl))
      pure (st.setRax (2 ^ 64 - 1))
    else
      let n := len
      Traced.tell (.report (.emitting validate n))
      let capture ← (List.range n).foldlM (m.writeByte ptr) { st.capture with len := 0 }
      Traced.tell (.report (.emitted cpl))
      pure { st.setRax len with capture := { capture with len := n } }

/-- Rewrite the saved registers so that the interrupt returns to the kernel. -/
def resumeKernel (m : Machine) (ctx : InterruptContext) : Exec SyscallStop InterruptContext :=
  if ctx.cpl = 3 then
    pure { ctx with
      rip := m.usermodeResume, cs := kernelCode, ss := kernelData, rflags := 0x2,
      rsp := m.kernelRsp }
  else Exec.panic .assertion

/-- Service a system call by its number. -/
def syscall (m : Machine) (fuel : ℕ) (st : SyscallState) :
    Traced SyscallEvent SyscallStop SyscallState := do
  let number := st.ctx.rax
  let cpl := st.ctx.cpl
  if number = Sys.print then
    let ch := Char.ofUInt8 (UInt8.ofNat st.ctx.rdi)
    Traced.tell (.screen ch)
    Traced.tell (.report (.print ch st.ctx.cs cpl))
    pure (st.setRax 0)
  else if number = Sys.exit then
    Traced.tell (.report (.exit st.ctx.cs cpl))
    let ctx ← Traced.lift (m.resumeKernel st.ctx)
    pure { st with ctx := ctx }
  else if number = Sys.write then
    m.sysWrite fuel true st
  else if number = Sys.writeUnchecked then
    m.sysWrite fuel false st
  else
    Traced.tell (.report (.unknown number cpl))
    pure (st.setRax (2 ^ 64 - 1))

end Machine

end ZiranOS
