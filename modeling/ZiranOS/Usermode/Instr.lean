import ZiranOS.Usermode.Ring3

/-!
# The machine code of the programs

The programs that the kernel runs in ring 3 to test its boundary are bytes of machine code.  This is
the part of the instruction set that they use: `decode` fetches an instruction byte by byte from
what the program can read, and `UserInstr.exec` says what it does in ring 3 with the tables and
gates that the kernel has set up, where no instruction may clear the interrupt flag and the only
gate for ring 3 is that of the system calls.

`machineCode_at` is the rule for running a blob: where the bytes of the blob can be read, the
instruction at its offset is the one that is decoded from the blob.
-/

namespace ZiranOS

open ProgLib

/-! ## Decoding -/

/-- The instructions of the programs. -/
inductive UserInstr where
  /-- `mov r32, imm32`, which clears the high half. -/
  | movImm (r : Reg) (imm : Word)
  /-- `mov rax, [addr]` -/
  | movAbs (addr : Word)
  /-- `int vector` -/
  | int (vector : ℕ)
  /-- `jmp rel8` -/
  | jmp (disp : Word)
  /-- `cli` -/
  | cli
  deriving DecidableEq

/-- Why there is no instruction. -/
inductive DecodeStop where
  /-- The byte at the offset cannot be read. -/
  | unreadable (offset : ℕ)
  /-- The instruction is none of these. -/
  | unknown
  deriving DecidableEq

/-- The register of the low three bits of an opcode. -/
def opcodeReg : ℕ → Reg
  | 0 => .rax
  | 1 => .rcx
  | 2 => .rdx
  | 3 => .rbx
  | 4 => .rsp
  | 5 => .rbp
  | 6 => .rsi
  | _ => .rdi

/-- The byte at an offset. -/
def fetch (f : ℕ → Option UInt8) (i : ℕ) : Except DecodeStop UInt8 :=
  match f i with
  | some b => .ok b
  | none => .error (.unreadable i)

/-- The little-endian number of some bytes at an offset. -/
def fetchLe (f : ℕ → Option UInt8) (i : ℕ) : ℕ → Except DecodeStop ℕ
  | 0 => .ok 0
  | n + 1 => do
    let b ← fetch f i
    let rest ← fetchLe f (i + 1) n
    pure (b.toNat + 256 * rest)

/-- Fetch and decode an instruction; the result has its length. -/
def decode (f : ℕ → Option UInt8) : Except DecodeStop (UserInstr × ℕ) := do
  let op ← fetch f 0
  if 0xB8 ≤ op ∧ op ≤ 0xBF then
    let imm ← fetchLe f 1 4
    pure (.movImm (opcodeReg (op.toNat - 0xB8)) (BitVec.ofNat 64 imm), 5)
  else if op = 0x48 then
    let op ← fetch f 1
    if op = 0xA1 then
      let addr ← fetchLe f 2 8
      pure (.movAbs (BitVec.ofNat 64 addr), 10)
    else
      .error .unknown
  else if op = 0xCD then
    let vector ← fetch f 1
    pure (.int vector.toNat, 2)
  else if op = 0xEB then
    let disp ← fetch f 1
    pure (.jmp ((BitVec.ofNat 8 disp.toNat).signExtend 64), 2)
  else if op = 0xFA then
    pure (.cli, 1)
  else
    .error .unknown

/-! ## Executing -/

/-- What a program sees from an address on. -/
def viewFrom (view : Word → Option UInt8) (addr : Word) (i : ℕ) : Option UInt8 :=
  view (addr + BitVec.ofNat 64 i)

/-- What an instruction of the given length does in ring 3. -/
def UserInstr.exec (instr : UserInstr) (length : ℕ) (regs : UserRegs)
    (view : Word → Option UInt8) : UserAction :=
  let next := regs.rip + BitVec.ofNat 64 length
  match instr with
  | .movImm r imm => .compute { regs.set r imm with rip := next }
  | .movAbs addr =>
    match fetchLe (viewFrom view addr) 0 8 with
    | .ok value => .compute { regs.set .rax (BitVec.ofNat 64 value) with rip := next }
    | .error (.unreadable i) => .fault (addr + BitVec.ofNat 64 i)
    | .error .unknown => .trap 6 0 regs
  | .int vector =>
    if vector = syscallVector then .trap syscallVector 0 { regs with rip := next }
    else .trap 13 (BitVec.ofNat 64 (8 * vector + 2)) regs
  | .jmp disp => .compute { regs with rip := next + disp }
  | .cli => .trap 13 0 regs

/-- The processor in ring 3 as a program: it runs the machine code at its instruction pointer. -/
def machineCode : UserCode := fun regs view =>
  match decode (viewFrom view regs.rip) with
  | .ok (instr, length) => instr.exec length regs view
  | .error (.unreadable i) => .fault (regs.rip + BitVec.ofNat 64 i)
  | .error .unknown => .trap 6 0 regs

/-! ## Running a blob -/

section

variable {f g : ℕ → Option UInt8}

/-- More bytes can be read. -/
def Extends (f g : ℕ → Option UInt8) : Prop := ∀ i b, f i = some b → g i = some b

/-- A byte that was fetched. -/
lemma Extends.fetch (h : Extends f g) {i : ℕ} {b : UInt8} (hf : fetch f i = .ok b) :
    ZiranOS.fetch g i = .ok b := by
  unfold ZiranOS.fetch at hf
  cases hi : f i with
  | none =>
    rw [hi] at hf
    cases hf
  | some c =>
    rw [hi] at hf
    obtain rfl := Except.ok.inj hf
    rw [ZiranOS.fetch, h i c hi]

/-- A number that was fetched. -/
lemma Extends.fetchLe (h : Extends f g) : ∀ {n i x : ℕ}, fetchLe f i n = .ok x →
    ZiranOS.fetchLe g i n = .ok x := by
  intro n
  induction n with
  | zero => exact fun hf => hf
  | succ n ih =>
    intro i x hf
    obtain ⟨b, hb, hrest⟩ := Exec.bind_eq_ok.mp hf
    obtain ⟨y, hy, hret⟩ := Exec.bind_eq_ok.mp hrest
    rw [ZiranOS.fetchLe, h.fetch hb, Exec.bind_ok, ih hy, Exec.bind_ok]
    exact hret

/-- **An instruction that was decoded** stays the same when more bytes can be read. -/
lemma Extends.decode (h : Extends f g) {x : UserInstr × ℕ} (hf : decode f = .ok x) :
    ZiranOS.decode g = .ok x := by
  obtain ⟨op, hop, hrest⟩ := Exec.bind_eq_ok.mp hf
  rw [ZiranOS.decode, h.fetch hop, Exec.bind_ok]
  split_ifs at hrest ⊢ with hmov hlong hint hjmp hcli
  · obtain ⟨imm, himm, hret⟩ := Exec.bind_eq_ok.mp hrest
    rw [h.fetchLe himm, Exec.bind_ok]
    exact hret
  · obtain ⟨op', hop', hrest⟩ := Exec.bind_eq_ok.mp hrest
    rw [h.fetch hop', Exec.bind_ok]
    split_ifs at hrest ⊢ with habs
    obtain ⟨addr, haddr, hret⟩ := Exec.bind_eq_ok.mp hrest
    rw [h.fetchLe haddr, Exec.bind_ok]
    exact hret
  · obtain ⟨vector, hvector, hret⟩ := Exec.bind_eq_ok.mp hrest
    rw [h.fetch hvector, Exec.bind_ok]
    exact hret
  · obtain ⟨disp, hdisp, hret⟩ := Exec.bind_eq_ok.mp hrest
    rw [h.fetch hdisp, Exec.bind_ok]
    exact hret
  · exact hrest

end

/-- The bytes of a blob can be read from an address on. -/
def Loaded (view : Word → Option UInt8) (base : ℕ) (blob : List UInt8) : Prop :=
  ∀ j b, blob[j]? = some b → view (BitVec.ofNat 64 (base + j)) = some b

/-- **The instruction at an offset of a blob** that is loaded. -/
lemma machineCode_at {view : Word → Option UInt8} {base off length : ℕ} {blob : List UInt8}
    {regs : UserRegs} {instr : UserInstr} (hloaded : Loaded view base blob)
    (hrip : regs.rip = BitVec.ofNat 64 (base + off))
    (hdecode : decode (fun i => blob[off + i]?) = .ok (instr, length)) :
    machineCode regs view = instr.exec length regs view := by
  have hextends : Extends (fun i => blob[off + i]?) (viewFrom view regs.rip) := by
    intro i b hb
    rw [viewFrom, hrip, ← BitVec.ofNat_add, Nat.add_assoc]
    exact hloaded _ b hb
  rw [machineCode, hextends.decode hdecode]

end ZiranOS
