import ZiranOS.Lib.Exec
import ZiranOS.Lib.Store

/-!
# From the boot loader to long mode

The 32-bit code that the boot loader enters: it checks its loader and its processor, enables the
vector registers, builds page tables and turns on long mode.  A check that fails paints a letter
on the screen and halts.

The tables live in the zeroed part of the image, below the boot stack.  The checks use the stack
only (`Checked`).
-/

namespace ZiranOS

open ProgLib

/-! ## The processor -/

/-- What `cpuid` leaves in the registers. -/
structure CpuidResult where
  eax : BitVec 32
  ebx : BitVec 32
  ecx : BitVec 32
  edx : BitVec 32

/-- In what processors differ: the answers of `cpuid`, and the flags that `popfd` can change. -/
structure Processor where
  cpuid : BitVec 32 → CpuidResult
  popfdMask : BitVec 32

/-- The registers that the 32-bit code uses, and the memory.  Of the flags, `eflags` holds those
that no arithmetic changes. -/
structure StartCpu where
  eax : BitVec 32
  ebx : BitVec 32
  ecx : BitVec 32
  edx : BitVec 32
  edi : BitVec 32
  esp : BitVec 32
  eflags : BitVec 32
  cr0 : BitVec 32
  cr3 : BitVec 32
  cr4 : BitVec 32
  efer : BitVec 64
  mem : Memory

/-- Why the code does not come back: it has halted, or a loop has not ended. -/
inductive StartStop where
  | halted (s : StartCpu)
  | running

/-- Where the linker has put the tables, the information structure that stands in for one of a
loader, and the instructions after the calls. -/
structure StartImage where
  pageTableL4 : BitVec 32
  mb2Synth : BitVec 32
  returnTo : ℕ → BitVec 32
  /-- The section is aligned. -/
  aligned : 4096 ∣ pageTableL4.toNat
  /-- The image lies below the end of the identity map. -/
  low : pageTableL4.toNat + 0x7000 ≤ 2 ^ 30

namespace StartImage

variable (img : StartImage)

/-- The page directory pointer table follows the root. -/
def pageTableL3 : BitVec 32 := img.pageTableL4 + 0x1000
/-- The page directory follows it. -/
def pageTableL2 : BitVec 32 := img.pageTableL4 + 0x2000
/-- The boot stack follows the tables. -/
def stackBottom : BitVec 32 := img.pageTableL4 + 0x3000
/-- The end of the boot stack. -/
def stackTop : BitVec 32 := img.stackBottom + 0x4000

end StartImage

/-- An address of the 32-bit code. -/
def flat (a : BitVec 32) : Word := a.setWidth 64

namespace StartCpu

/-- `mov eax, v` -/
def setEax (s : StartCpu) (v : BitVec 32) : StartCpu := { s with eax := v }

/-- `push v` -/
def push (s : StartCpu) (v : BitVec 32) : StartCpu :=
  { s with esp := s.esp - 4, mem := s.mem.write32 (flat (s.esp - 4)) v }

/-- The double word on top of the stack. -/
def top (s : StartCpu) : BitVec 32 := s.mem.read32 (flat s.esp)

/-- Take a double word off the stack. -/
def pop (s : StartCpu) : StartCpu := { s with esp := s.esp + 4 }

/-- `popfd` -/
def popfd (p : Processor) (s : StartCpu) : StartCpu :=
  { s.pop with eflags := (s.top &&& p.popfdMask) ||| (s.eflags &&& ~~~p.popfdMask) }

/-- `cpuid` -/
def cpuid (p : Processor) (s : StartCpu) : StartCpu :=
  let r := p.cpuid s.eax
  { s with eax := r.eax, ebx := r.ebx, ecx := r.ecx, edx := r.edx }

/-- `mov al, v` -/
def setAl (s : StartCpu) (v : BitVec 8) : StartCpu :=
  { s with eax := s.eax &&& 0xffffff00 ||| v.setWidth 32 }

/-- `mul v` -/
def mul (s : StartCpu) (v : BitVec 32) : StartCpu :=
  let product : BitVec 64 := s.eax.setWidth 64 * v.setWidth 64
  { s with eax := product.setWidth 32, edx := (product >>> 32).setWidth 32 }

/-- `rdmsr`, with the number of `EFER` in `ecx` -/
def rdmsrEfer (s : StartCpu) : StartCpu :=
  { s with eax := s.efer.setWidth 32, edx := (s.efer >>> 32).setWidth 32 }

/-- `wrmsr`, with the number of `EFER` in `ecx` -/
def wrmsrEfer (s : StartCpu) : StartCpu := { s with efer := s.edx ++ s.eax }

/-- `mov [a], eax` -/
def storeEax (s : StartCpu) (a : BitVec 32) : StartCpu :=
  { s with mem := s.mem.write32 (flat a) s.eax }

end StartCpu

/-! ## The code -/

/-- The magic value of the loader. -/
def multiboot2Magic : BitVec 32 := 0x36d76289

/-- Paint `ERR: ` and the character in `al`, and halt. -/
def startError (s : StartCpu) : Exec StartStop StartCpu :=
  Exec.fail (.halted { s with
    mem := (((s.mem.write32 0xb8000 0x4f524f45).write32 0xb8004 0x4f3a4f52).write32
      0xb8008 0x4f204f20).write8 0xb800a (s.eax.setWidth 8) })

/-- The loader leaves its magic value. -/
def checkMultiboot (s : StartCpu) : Exec StartStop StartCpu :=
  if s.eax ≠ multiboot2Magic then startError (s.setAl 0x4d) else .ok s

/-- The processor has `cpuid` if the flag 21 can be flipped. -/
def checkCpuid (p : Processor) (s : StartCpu) : Exec StartStop StartCpu :=
  let s := s.push s.eflags
  let s := s.pop.setEax s.top
  let s : StartCpu := { s with ecx := s.eax }
  let s := s.setEax (s.eax ^^^ 1#32 <<< 21)
  let s := s.push s.eax
  let s := s.popfd p
  let s := s.push s.eflags
  let s := s.pop.setEax s.top
  let s := s.push s.ecx
  let s := s.popfd p
  if s.eax = s.ecx then startError (s.setAl 0x43) else .ok s

/-- The processor has long mode. -/
def checkLongMode (p : Processor) (s : StartCpu) : Exec StartStop StartCpu :=
  let s := s.setEax 0x80000000
  let s := s.cpuid p
  if s.eax < 0x80000001 then
    startError (s.setAl 0x4c)
  else
    let s := s.setEax 0x80000001
    let s := s.cpuid p
    if s.edx &&& 1#32 <<< 29 = 0 then startError (s.setAl 0x4c) else .ok s

/-- Enable the vector registers. -/
def enableSse (s : StartCpu) : StartCpu :=
  let s := s.setEax s.cr0
  let s := s.setEax (s.eax &&& 0xFFFFFFFB)
  let s := s.setEax (s.eax ||| 0x00000002)
  let s : StartCpu := { s with cr0 := s.eax }
  let s := s.setEax s.cr4
  let s := s.setEax (s.eax ||| 0x00000600)
  { s with cr4 := s.eax }

/-- Fill one entry of the page directory. -/
def mapP2Entry (img : StartImage) (s : StartCpu) : StartCpu :=
  let s := s.setEax 0x200000
  let s := s.mul s.ecx
  let s := s.setEax (s.eax ||| 0b10000011)
  let s := s.storeEax (img.pageTableL2 + s.ecx * 8)
  { s with ecx := s.ecx + 1 }

/-- The loop that fills the page directory. -/
def mapP2 (img : StartImage) : ℕ → StartCpu → Exec StartStop StartCpu
  | 0, _ => Exec.fail .running
  | fuel + 1, s =>
    let s := mapP2Entry img s
    if s.ecx ≠ 512 then mapP2 img fuel s else .ok s

/-- Build the tables. -/
def setUpPageTables (img : StartImage) (fuel : ℕ) (s : StartCpu) : Exec StartStop StartCpu :=
  let s := s.setEax img.pageTableL3
  let s := s.setEax (s.eax ||| 0b11)
  let s := s.storeEax img.pageTableL4
  let s := s.setEax img.pageTableL2
  let s := s.setEax (s.eax ||| 0b11)
  let s := s.storeEax img.pageTableL3
  mapP2 img fuel { s with ecx := 0 }

/-- Turn on the tables and long mode. -/
def enablePaging (img : StartImage) (s : StartCpu) : StartCpu :=
  let s := s.setEax img.pageTableL4
  let s : StartCpu := { s with cr3 := s.eax }
  let s := s.setEax s.cr4
  let s := s.setEax (s.eax ||| 1#32 <<< 5)
  let s : StartCpu := { s with cr4 := s.eax }
  let s : StartCpu := { s with ecx := 0xC0000080 }
  let s := s.rdmsrEfer
  let s := s.setEax (s.eax ||| 1#32 <<< 8)
  let s := s.wrmsrEfer
  let s := s.setEax s.cr0
  let s := s.setEax (s.eax ||| 1#32 <<< 31)
  { s with cr0 := s.eax }

/-- Call a routine. -/
def call32 (returnTo : BitVec 32) (routine : StartCpu → Exec StartStop StartCpu) (s : StartCpu) :
    Exec StartStop StartCpu := do
  let s ← routine (s.push returnTo)
  pure s.pop

/-- The entry of the image, up to the jump into long mode. -/
def start (p : Processor) (img : StartImage) (fuel : ℕ) (s : StartCpu) :
    Exec StartStop StartCpu := do
  let s : StartCpu := { s with esp := img.stackTop }
  let s : StartCpu := { s with edi := s.ebx }
  let s ← call32 (img.returnTo 0) checkMultiboot s
  let s ← call32 (img.returnTo 1) (checkCpuid p) s
  let s ← call32 (img.returnTo 2) (checkLongMode p) s
  let s ← call32 (img.returnTo 3) (fun s => pure (enableSse s)) s
  let s ← call32 (img.returnTo 4) (setUpPageTables img fuel) s
  call32 (img.returnTo 5) (fun s => pure (enablePaging img s)) s

/-- The entry for a loader that has no information structure of the right kind. -/
def mb1Trampoline (p : Processor) (img : StartImage) (fuel : ℕ) (s : StartCpu) :
    Exec StartStop StartCpu :=
  start p img fuel { s with eax := multiboot2Magic, ebx := img.mb2Synth }

/-! ## The checks -/

namespace StartCpu

variable {s s' : StartCpu} {v : BitVec 32}

@[simp] lemma push_esp : (s.push v).esp = s.esp - 4 := rfl

@[simp] lemma push_top : (s.push v).top = v := Memory.read32_write32 _ _ _

/-- What was pushed is popped. -/
@[simp] lemma pop_push_esp : (s.push v).pop.esp = s.esp := BitVec.sub_add_cancel _ _

/-- The registers that the way into long mode depends on are as they were. -/
structure SameControl (s s' : StartCpu) : Prop where
  edi : s'.edi = s.edi
  esp : s'.esp = s.esp
  eflags : s'.eflags = s.eflags
  cr0 : s'.cr0 = s.cr0
  cr3 : s'.cr3 = s.cr3
  cr4 : s'.cr4 = s.cr4
  efer : s'.efer = s.efer

lemma SameControl.trans {s'' : StartCpu} (h : s.SameControl s') (h' : s'.SameControl s'') :
    s.SameControl s'' where
  edi := h'.edi.trans h.edi
  esp := h'.esp.trans h.esp
  eflags := h'.eflags.trans h.eflags
  cr0 := h'.cr0.trans h.cr0
  cr3 := h'.cr3.trans h.cr3
  cr4 := h'.cr4.trans h.cr4
  efer := h'.efer.trans h.efer

end StartCpu

/-- The letter of the first check that fails. -/
def failedCheck (p : Processor) (s : StartCpu) : Option (BitVec 8) :=
  if s.eax ≠ multiboot2Magic then some 0x4d
  else if p.popfdMask &&& 1#32 <<< 21 = 0 then some 0x43
  else if (p.cpuid 0x80000000).eax < 0x80000001 ∨ (p.cpuid 0x80000001).edx &&& 1#32 <<< 29 = 0 then
    some 0x4c
  else none

/-- Flags that `popfd` loads with some bits flipped have those of the bits flipped that it can
change. -/
lemma popfd_flipped (e b mask : BitVec 32) :
    ((e ^^^ b) &&& mask) ||| (e &&& ~~~mask) = e ^^^ (b &&& mask) := by
  ext i hi
  simp only [BitVec.getElem_or, BitVec.getElem_and, BitVec.getElem_xor, BitVec.getElem_not]
  cases e[i] <;> cases b[i] <;> cases mask[i] <;> rfl

/-- Loading the original flags again restores them. -/
lemma popfd_restored (e b mask : BitVec 32) :
    (e &&& mask) ||| ((e ^^^ (b &&& mask)) &&& ~~~mask) = e := by
  ext i hi
  simp only [BitVec.getElem_or, BitVec.getElem_and, BitVec.getElem_xor, BitVec.getElem_not]
  cases e[i] <;> cases b[i] <;> cases mask[i] <;> rfl

/-- Where a call of a check writes: its return address and one double word below it. -/
def StartCpu.scratch (s : StartCpu) : Set Word := span (flat (s.esp - 8)) 8

/-- What a call of a check comes to: it passes and keeps the registers, or it fails with a letter.
In both cases it has written to the stack only. -/
inductive Checked (s : StartCpu) : Option (BitVec 8) → Exec StartStop StartCpu → Prop
  | passed {s' : StartCpu} (hsame : s.SameControl s')
      (hmem : Set.EqOn s'.mem s.mem (Compl.compl s.scratch)) : Checked s none (.ok s')
  | failed {s' : StartCpu} {c : BitVec 8}
      (hmem : Set.EqOn s'.mem s.mem (Compl.compl s.scratch)) :
      Checked s (some c) (startError (s'.setAl c))

/-- A double word below the stack pointer. -/
lemma flat_sub {a b : BitVec 32} (h : b.toNat ≤ a.toNat) : flat (a - b) = flat a - flat b := by
  apply BitVec.eq_of_toNat_eq
  simp only [flat, BitVec.toNat_setWidth, BitVec.toNat_sub]
  omega

/-- The two double words below the stack pointer. -/
lemma span_subset_scratch {s : StartCpu} (hesp : 8 ≤ s.esp.toNat) :
    span (flat (s.esp - 4)) 4 ⊆ s.scratch ∧ span (flat (s.esp - 4 - 4)) 4 ⊆ s.scratch := by
  have h8 : flat (s.esp - 8) = flat s.esp - 8 := flat_sub hesp
  have h4 : flat (s.esp - 4) = flat s.esp - 4 := flat_sub (le_trans (by decide) hesp)
  have hsub : s.esp - 4 - 4 = s.esp - 8 := by bv_omega
  rw [StartCpu.scratch, hsub, h8, h4]
  constructor
  · apply span_subset
    bv_omega
  · apply span_subset
    bv_omega

/-- A store to the scratch part of the stack. -/
lemma eqOn_scratch {s : StartCpu} {m : Memory} {a : Word} (ha : span a 4 ⊆ s.scratch)
    (v : BitVec 32) (h : Set.EqOn m s.mem (Compl.compl s.scratch)) :
    Set.EqOn (m.write32 a v) s.mem (Compl.compl s.scratch) :=
  (Memory.eqOn_write32 (disjoint_compl_left.mono_right ha)).trans h

section Checks

variable {s : StartCpu} (p : Processor) (ret : BitVec 32)

/-- The check of the loader. -/
lemma checked_multiboot (hesp : 8 ≤ s.esp.toNat) :
    Checked s (if s.eax ≠ multiboot2Magic then some 0x4d else none)
      (call32 ret checkMultiboot s) := by
  have hmem : Set.EqOn (s.push ret).mem s.mem (Compl.compl s.scratch) :=
    eqOn_scratch (span_subset_scratch hesp).1 ret (Set.eqOn_refl _ _)
  rw [call32, checkMultiboot]
  by_cases heax : s.eax ≠ multiboot2Magic
  · rw [if_pos heax, if_pos (show (s.push ret).eax ≠ _ from heax)]
    exact .failed hmem
  · rw [if_neg heax, if_neg (show ¬ (s.push ret).eax ≠ _ from heax)]
    exact .passed ⟨rfl, StartCpu.pop_push_esp, rfl, rfl, rfl, rfl, rfl⟩ hmem

/-- The check for `cpuid`. -/
lemma checked_cpuid (hesp : 8 ≤ s.esp.toNat) :
    Checked s (if p.popfdMask &&& 1#32 <<< 21 = 0 then some 0x43 else none)
      (call32 ret (checkCpuid p) s) := by
  obtain ⟨hfirst, hsecond⟩ := span_subset_scratch hesp
  have hesp' : s.esp - 4 - 4 + 4 = s.esp - 4 := BitVec.sub_add_cancel _ _
  let flipped := s.eflags ^^^ (1#32 <<< 21 &&& p.popfdMask)
  let mem := ((((s.push ret).mem.write32 (flat (s.esp - 4 - 4)) s.eflags).write32
    (flat (s.esp - 4 - 4)) (s.eflags ^^^ 1#32 <<< 21)).write32 (flat (s.esp - 4 - 4))
    flipped).write32 (flat (s.esp - 4 - 4)) s.eflags
  let s' : StartCpu := { s with
    eax := flipped, ecx := s.eflags, esp := s.esp - 4, mem := mem }
  have hmem : Set.EqOn mem s.mem (Compl.compl s.scratch) :=
    eqOn_scratch hsecond _ (eqOn_scratch hsecond _ (eqOn_scratch hsecond _
      (eqOn_scratch hsecond _ (eqOn_scratch hfirst ret (Set.eqOn_refl _ _)))))
  have hrun : checkCpuid p (s.push ret) =
      if flipped = s.eflags then startError (s'.setAl 0x43) else .ok s' := by
    simp only [checkCpuid, StartCpu.popfd, StartCpu.push, StartCpu.pop, StartCpu.top,
      StartCpu.setEax, Memory.read32_write32, hesp', popfd_flipped, popfd_restored]
    rfl
  have hiff : flipped = s.eflags ↔ p.popfdMask &&& 1#32 <<< 21 = 0 := by
    have hinj := BitVec.xor_right_inj (x := 1#32 <<< 21 &&& p.popfdMask) (y := 0#32) s.eflags
    rw [BitVec.xor_zero] at hinj
    rw [BitVec.and_comm p.popfdMask]
    exact hinj
  rw [call32, hrun]
  by_cases hmask : p.popfdMask &&& 1#32 <<< 21 = 0
  · rw [if_pos hmask, if_pos (hiff.mpr hmask)]
    exact .failed hmem
  · rw [if_neg hmask, if_neg (mt hiff.mp hmask)]
    exact .passed ⟨rfl, BitVec.sub_add_cancel _ _, rfl, rfl, rfl, rfl, rfl⟩ hmem

/-- The check for long mode. -/
lemma checked_longMode (hesp : 8 ≤ s.esp.toNat) :
    Checked s (if (p.cpuid 0x80000000).eax < 0x80000001 ∨
        (p.cpuid 0x80000001).edx &&& 1#32 <<< 29 = 0 then some 0x4c else none)
      (call32 ret (checkLongMode p) s) := by
  have hmem : Set.EqOn (s.push ret).mem s.mem (Compl.compl s.scratch) :=
    eqOn_scratch (span_subset_scratch hesp).1 ret (Set.eqOn_refl _ _)
  rw [call32, checkLongMode]
  by_cases hext : (p.cpuid 0x80000000).eax < 0x80000001
  · rw [if_pos (.inl hext), if_pos (show ((s.push ret).setEax 0x80000000 |>.cpuid p).eax < _
      from hext)]
    exact .failed hmem
  rw [if_neg (show ¬ ((s.push ret).setEax 0x80000000 |>.cpuid p).eax < _ from hext)]
  by_cases hlm : (p.cpuid 0x80000001).edx &&& 1#32 <<< 29 = 0
  · rw [if_pos (.inr hlm)]
    simp only [StartCpu.cpuid, StartCpu.setEax, hlm, if_true]
    exact .failed hmem
  · rw [if_neg (not_or.mpr ⟨hext, hlm⟩)]
    simp only [StartCpu.cpuid, StartCpu.setEax, hlm, if_false]
    exact .passed ⟨rfl, BitVec.sub_add_cancel _ _, rfl, rfl, rfl, rfl, rfl⟩ hmem

end Checks

end ZiranOS
