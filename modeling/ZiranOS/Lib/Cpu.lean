import Mathlib
import ZiranOS.Lib.Words

/-!
# A 64-bit processor with a stack in memory

The part of a processor that saves and restores registers: sixteen general registers, a memory of
bytes, and the instructions that move words between the two.  Straight-line code is a list of
instructions; where a routine goes on afterwards is the instruction pointer that its last
instruction loads.

A block of words in memory is `Stored`.  Pushing words puts them in front of such a block
(`Memory.stored_pushWords`) and touches nothing else (`Memory.eqOn_pushWords`), popping registers
takes them off it again (`popRegs_map`).
-/

namespace ProgLib

/-! ## Memory -/

/-- A machine word, which is also an address. -/
abbrev Word := BitVec 64

/-- The byte at every address. -/
abbrev Memory := Word → BitVec 8

/-- The `n` addresses from `a` on.  Addresses wrap around. -/
def span (a : Word) (n : ℕ) : Set Word := {x | (x - a).toNat < n}

instance (a : Word) (n : ℕ) (x : Word) : Decidable (x ∈ span a n) :=
  inferInstanceAs (Decidable ((x - a).toNat < n))

lemma mem_span {a x : Word} {n : ℕ} : x ∈ span a n ↔ (x - a).toNat < n := Iff.rfl

/-- A span that starts inside another one and ends before it does is part of it. -/
lemma span_subset {a b : Word} {n l : ℕ} (h : (b - a).toNat + n ≤ l) : span b n ⊆ span a l := by
  intro x hx
  rw [mem_span] at hx ⊢
  have hsum : x - a = (x - b) + (b - a) := (sub_add_sub_cancel x b a).symm
  rw [hsum, BitVec.toNat_add]
  have hmod := Nat.mod_le ((x - b).toNat + (b - a).toNat) (2 ^ 64)
  omega

/-- A span that starts `k` addresses after another one. -/
lemma span_add_subset {a : Word} {k n l : ℕ} (h : k + n ≤ l) :
    span (a + BitVec.ofNat 64 k) n ⊆ span a l := by
  refine span_subset ?_
  rw [add_sub_cancel_left, BitVec.toNat_ofNat]
  exact (Nat.add_le_add_right (Nat.mod_le k _) n).trans h

/-- Two spans of which one ends before the other starts do not meet. -/
lemma span_disjoint {a b : Word} {k n : ℕ} (h : k ≤ (b - a).toNat)
    (h' : (b - a).toNat + n ≤ 2 ^ 64) : Disjoint (span a k) (span b n) := by
  rw [Set.disjoint_left]
  intro x hx hx'
  rw [mem_span] at hx hx'
  bv_omega

/-- Two spans of which one ends where the other starts do not meet. -/
lemma span_add_disjoint {a : Word} {k n : ℕ} (h : k + n ≤ 2 ^ 64) :
    Disjoint (span a k) (span (a + BitVec.ofNat 64 k) n) := by
  rcases Nat.lt_or_ge k (2 ^ 64) with hk | hk
  · have hsub : (a + BitVec.ofNat 64 k - a).toNat = k := by
      rw [add_sub_cancel_left, BitVec.toNat_ofNat, Nat.mod_eq_of_lt hk]
    exact span_disjoint hsub.ge (hsub.symm ▸ h)
  · have hn : n = 0 := by omega
    exact Set.disjoint_right.mpr fun x hx => absurd hx (hn ▸ Nat.not_lt_zero _)

/-- An address rounded down to a multiple of 16. -/
lemma toNat_and_not_fifteen (a : Word) : (a &&& ~~~0xF).toNat = a.toNat / 16 * 16 := by
  have hmask : (~~~0xF : Word).toNat = 2 ^ 64 - 2 ^ 4 := by decide
  rw [BitVec.toNat_and, hmask]
  exact and_mask_eq (by decide) (BitVec.isLt _)

namespace Memory

variable {m m' : Memory} {a b v w : Word} {ws old : List Word} {s : Set Word}

/-- The little-endian word at an address. -/
def read64 (m : Memory) (a : Word) : Word :=
  m (a + 7) ++ m (a + 6) ++ m (a + 5) ++ m (a + 4) ++ m (a + 3) ++ m (a + 2) ++ m (a + 1) ++ m a

/-- Store a word at an address. -/
def write64 (m : Memory) (a v : Word) : Memory := fun x =>
  if x ∈ span a 8 then v.extractLsb' (8 * (x - a).toNat) 8 else m x

lemma read64_congr (h : Set.EqOn m m' (span a 8)) : m.read64 a = m'.read64 a := by
  have hbyte : ∀ k : Word, k.toNat < 8 → m (a + k) = m' (a + k) := by
    intro k hk
    exact h (mem_span.mpr (by rwa [add_sub_cancel_left]))
  have hbyte₀ : m a = m' a := by simpa using hbyte 0 (by decide)
  rw [read64, read64, hbyte 7 (by decide), hbyte 6 (by decide), hbyte 5 (by decide),
    hbyte 4 (by decide), hbyte 3 (by decide), hbyte 2 (by decide), hbyte 1 (by decide), hbyte₀]

/-- A store changes its eight bytes only. -/
lemma eqOn_write64 (h : Disjoint s (span a 8)) : Set.EqOn (m.write64 a v) m s := by
  intro x hx
  rw [write64, if_neg (Set.disjoint_left.mp h hx)]

/-- A load returns what was stored. -/
lemma read64_write64 (m : Memory) (a v : Word) : (m.write64 a v).read64 a = v := by
  have hbyte : ∀ k : Word, k.toNat < 8 →
      m.write64 a v (a + k) = v.extractLsb' (8 * k.toNat) 8 := by
    intro k hk
    have hsub : a + k - a = k := add_sub_cancel_left a k
    rw [write64, if_pos (mem_span.mpr (by rwa [hsub])), hsub]
  have hbyte₀ : m.write64 a v a = v.extractLsb' 0 8 := by simpa using hbyte 0 (by decide)
  rw [read64, hbyte 7 (by decide), hbyte 6 (by decide), hbyte 5 (by decide), hbyte 4 (by decide),
    hbyte 3 (by decide), hbyte 2 (by decide), hbyte 1 (by decide), hbyte₀]
  have happend : ∀ i n : ℕ,
      v.extractLsb' (i + 8) n ++ v.extractLsb' i 8 = v.extractLsb' i (n + 8) :=
    fun _ _ => BitVec.extractLsb'_append_extractLsb'_eq_extractLsb' rfl
  show v.extractLsb' 56 8 ++ v.extractLsb' 48 8 ++ v.extractLsb' 40 8 ++ v.extractLsb' 32 8 ++
    v.extractLsb' 24 8 ++ v.extractLsb' 16 8 ++ v.extractLsb' 8 8 ++ v.extractLsb' 0 8 = v
  rw [happend 48 8, happend 40 16, happend 32 24, happend 24 32, happend 16 40, happend 8 48,
    happend 0 56, BitVec.extractLsb'_eq_self]

/-! ### Blocks of words -/

/-- The words `ws` lie in memory from `a` on. -/
def Stored (m : Memory) : Word → List Word → Prop
  | _, [] => True
  | a, w :: ws => m.read64 a = w ∧ Stored m (a + 8) ws

lemma Stored.congr (h : Stored m a ws) (heq : Set.EqOn m' m (span a (8 * ws.length))) :
    Stored m' a ws := by
  induction ws generalizing a with
  | nil => trivial
  | cons w ws ih =>
    rw [List.length_cons] at heq
    refine ⟨(read64_congr (heq.mono ?_)).trans h.1, ih h.2 (heq.mono ?_)⟩
    · simpa using span_add_subset (a := a) (k := 0) (n := 8) (l := 8 * (ws.length + 1)) (by omega)
    · exact span_add_subset (k := 8) (by omega)

lemma stored_append : Stored m a (ws ++ old) ↔
    Stored m a ws ∧ Stored m (a + BitVec.ofNat 64 (8 * ws.length)) old := by
  induction ws generalizing a with
  | nil => simp [Stored]
  | cons w ws ih =>
    have hadd : a + BitVec.ofNat 64 (8 * (ws.length + 1)) =
        a + 8 + BitVec.ofNat 64 (8 * ws.length) := by
      rw [Nat.mul_add, BitVec.ofNat_add]
      bv_omega
    rw [List.cons_append, Stored, Stored, ih, List.length_cons, hadd, and_assoc]

/-- The words of a block, one by one. -/
lemma Stored.read64 (h : Stored m a ws) {i : ℕ} (hi : i < ws.length) :
    m.read64 (a + BitVec.ofNat 64 (8 * i)) = ws[i] := by
  rw [← List.take_append_drop i ws, stored_append, List.length_take_of_le hi.le,
    List.drop_eq_getElem_cons hi] at h
  exact h.2.1

/-- Push words, the first of them first, below the address `sp`. -/
def pushWords (m : Memory) : Word → List Word → Memory
  | _, [] => m
  | sp, w :: ws => (m.write64 (sp - 8) w).pushWords (sp - 8) ws

/-- Pushed words lie in front of what lay at `sp`, the last one pushed first. -/
lemma stored_pushWords {sp : Word} (h : Stored m sp old)
    (hroom : 8 * (ws.length + old.length) ≤ 2 ^ 64) :
    Stored (m.pushWords sp ws) (sp - BitVec.ofNat 64 (8 * ws.length)) (ws.reverse ++ old) := by
  induction ws generalizing m sp old with
  | nil => simpa [pushWords] using h
  | cons w ws ih =>
    rw [List.length_cons] at hroom ⊢
    have hsp : sp - 8 + 8 = sp := BitVec.sub_add_cancel _ _
    have hdisjoint : Disjoint (span sp (8 * old.length)) (span (sp - 8) 8) := by
      have hnext := span_add_disjoint (a := sp - 8) (k := 8) (n := 8 * old.length) (by omega)
      exact (hsp ▸ hnext).symm
    have hstored : Stored (m.write64 (sp - 8) w) (sp - 8) (w :: old) :=
      ⟨read64_write64 m _ w, by rw [hsp]; exact h.congr (eqOn_write64 hdisjoint)⟩
    have hsub : sp - BitVec.ofNat 64 (8 * (ws.length + 1)) =
        sp - 8 - BitVec.ofNat 64 (8 * ws.length) := by
      rw [Nat.mul_add, BitVec.ofNat_add]
      bv_omega
    rw [hsub, List.reverse_cons, List.append_assoc]
    exact ih hstored (by simp only [List.singleton_append, List.length_cons]; omega)

/-- Pushing words writes below `sp` only. -/
lemma eqOn_pushWords {sp : Word}
    (h : Disjoint s (span (sp - BitVec.ofNat 64 (8 * ws.length)) (8 * ws.length))) :
    Set.EqOn (m.pushWords sp ws) m s := by
  induction ws generalizing m sp with
  | nil => exact Set.eqOn_refl _ _
  | cons w ws ih =>
    rw [List.length_cons] at h
    have hsub : sp - 8 = sp - BitVec.ofNat 64 (8 * (ws.length + 1)) +
        BitVec.ofNat 64 (8 * ws.length) := by
      rw [Nat.mul_add, BitVec.ofNat_add]
      bv_omega
    have hsub' : sp - 8 - BitVec.ofNat 64 (8 * ws.length) =
        sp - BitVec.ofNat 64 (8 * (ws.length + 1)) := by
      rw [hsub]
      bv_omega
    refine (ih (h.mono_right ?_)).trans (eqOn_write64 (h.mono_right ?_))
    · rw [hsub']
      simpa using span_add_subset (a := sp - BitVec.ofNat 64 (8 * (ws.length + 1))) (k := 0)
        (n := 8 * ws.length) (l := 8 * (ws.length + 1)) (by omega)
    · rw [hsub]
      exact span_add_subset (by omega)

/-- Store words one after the other from `a` on. -/
def writeWords (m : Memory) : Word → List Word → Memory
  | _, [] => m
  | a, w :: ws => (m.write64 a w).writeWords (a + 8) ws

/-- Storing words writes their block only. -/
lemma eqOn_writeWords (h : Disjoint s (span a (8 * ws.length))) :
    Set.EqOn (m.writeWords a ws) m s := by
  induction ws generalizing m a with
  | nil => exact Set.eqOn_refl _ _
  | cons w ws ih =>
    rw [List.length_cons] at h
    refine (ih (h.mono_right (span_add_subset (k := 8) (by omega)))).trans
      (eqOn_write64 (h.mono_right ?_))
    simpa using span_add_subset (a := a) (k := 0) (n := 8) (l := 8 * (ws.length + 1)) (by omega)

/-- Stored words lie where they were stored. -/
lemma stored_writeWords (hroom : 8 * ws.length ≤ 2 ^ 64) : Stored (m.writeWords a ws) a ws := by
  induction ws generalizing m a with
  | nil => trivial
  | cons w ws ih =>
    rw [List.length_cons] at hroom
    refine ⟨?_, ih (by omega)⟩
    have hkept : Set.EqOn ((m.write64 a w).writeWords (a + 8) ws) (m.write64 a w) (span a 8) :=
      eqOn_writeWords (span_add_disjoint (k := 8) (by omega))
    exact (read64_congr hkept).trans (read64_write64 m a w)

end Memory

/-! ## The processor -/

/-- The general registers. -/
inductive Reg where
  | rax
  | rbx
  | rcx
  | rdx
  | rsi
  | rdi
  | rbp
  | rsp
  | r8
  | r9
  | r10
  | r11
  | r12
  | r13
  | r14
  | r15
  deriving DecidableEq, Repr

/-- The state of the processor and its memory. -/
structure Cpu where
  reg : Reg → Word
  rip : Word
  rflags : Word
  cs : BitVec 16
  ss : BitVec 16
  mem : Memory

/-- The instructions of straight-line code. -/
inductive Instr where
  /-- `push src` -/
  | push (src : Reg)
  /-- `push value` -/
  | pushImm (value : Word)
  /-- `pop dst` -/
  | pop (dst : Reg)
  /-- `mov dst, src` -/
  | mov (dst src : Reg)
  /-- `mov [addr], src`, with the address in a register -/
  | store (addr src : Reg)
  /-- `mov [addr], src` -/
  | storeAbs (addr : Word) (src : Reg)
  /-- `add dst, value` -/
  | addImm (dst : Reg) (value : Word)
  /-- `cld` -/
  | cld
  /-- `ret` -/
  | ret
  /-- `iretq` -/
  | iretq
  deriving DecidableEq, Repr

namespace Cpu

/-- Load a register. -/
def setReg (c : Cpu) (r : Reg) (v : Word) : Cpu := { c with reg := Function.update c.reg r v }

/-- Push a word. -/
def push (c : Cpu) (w : Word) : Cpu :=
  { c.setReg .rsp (c.reg .rsp - 8) with mem := c.mem.write64 (c.reg .rsp - 8) w }

/-- The word `i` words above the top of the stack. -/
def peek (c : Cpu) (i : ℕ) : Word := c.mem.read64 (c.reg .rsp + BitVec.ofNat 64 (8 * i))

/-- Take `n` words off the stack. -/
def drop (c : Cpu) (n : ℕ) : Cpu := c.setReg .rsp (c.reg .rsp + BitVec.ofNat 64 (8 * n))

end Cpu

/-- The effect of an instruction.  `iretq` takes five words off the stack, the last two of which are
the stack pointer and segment to go on with. -/
def Instr.exec : Instr → Cpu → Cpu
  | push src, c => c.push (c.reg src)
  | pushImm value, c => c.push value
  | pop dst, c => (c.drop 1).setReg dst (c.peek 0)
  | mov dst src, c => c.setReg dst (c.reg src)
  | store addr src, c => { c with mem := c.mem.write64 (c.reg addr) (c.reg src) }
  | storeAbs addr src, c => { c with mem := c.mem.write64 addr (c.reg src) }
  | addImm dst value, c => c.setReg dst (c.reg dst + value)
  | cld, c => { c with rflags := c.rflags &&& ~~~0x400 }
  | ret, c => { c.drop 1 with rip := c.peek 0 }
  | iretq, c =>
    { c.setReg .rsp (c.peek 3) with
      rip := c.peek 0
      cs := (c.peek 1).setWidth 16
      rflags := c.peek 2
      ss := (c.peek 4).setWidth 16 }

namespace Cpu

variable {c : Cpu} {ws : List Word} {rs : List Reg}

/-- The current privilege level. -/
def cpl (c : Cpu) : BitVec 16 := c.cs &&& 3

/-- The flags that an interrupt gate clears: trap, interrupt, nested task, resume and virtual-8086
mode. -/
def gateMask : Word := 0x100 ||| 0x200 ||| 0x4000 ||| 0x10000 ||| 0x20000

/-- Execute straight-line code. -/
def run (code : List Instr) (c : Cpu) : Cpu := code.foldl (fun c i => i.exec c) c

@[simp] lemma run_nil (c : Cpu) : run [] c = c := rfl

@[simp] lemma run_cons (i : Instr) (code : List Instr) (c : Cpu) :
    run (i :: code) c = run code (i.exec c) := rfl

lemma run_append (code code' : List Instr) (c : Cpu) :
    run (code ++ code') c = run code' (run code c) := List.foldl_append

/-- Push words, the first of them first. -/
def pushWords (c : Cpu) (ws : List Word) : Cpu :=
  { c.setReg .rsp (c.reg .rsp - BitVec.ofNat 64 (8 * ws.length)) with
    mem := c.mem.pushWords (c.reg .rsp) ws }

/-- Take an interrupt from an outer ring through an interrupt gate to `handler`: the processor
changes to the stack `rsp0`, aligned to 16 bytes, and pushes where it came from, and the error code
if there is one. -/
def interrupt (c : Cpu) (rsp0 handler : Word) (cs : BitVec 16) (error : Option Word) : Cpu :=
  { c.setReg .rsp (rsp0 &&& ~~~0xF) with
    rip := handler
    cs := cs
    ss := 0
    rflags := c.rflags &&& ~~~gateMask : Cpu }.pushWords
      ([c.ss.setWidth 64, c.reg .rsp, c.rflags, c.cs.setWidth 64, c.rip] ++ error.toList)

lemma pushWords_rsp (c : Cpu) (ws : List Word) :
    (c.pushWords ws).reg .rsp = c.reg .rsp - BitVec.ofNat 64 (8 * ws.length) := by
  simp [pushWords, setReg]

lemma pushWords_reg {r : Reg} (hr : r ≠ .rsp) : (c.pushWords ws).reg r = c.reg r :=
  Function.update_of_ne hr _ _

lemma pushWords_nil (c : Cpu) : c.pushWords [] = c := by
  simp [pushWords, setReg, Memory.pushWords]

lemma push_pushWords (c : Cpu) (w : Word) (ws : List Word) :
    (c.push w).pushWords ws = c.pushWords (w :: ws) := by
  have hsub : c.reg .rsp - BitVec.ofNat 64 (8 * (ws.length + 1)) =
      c.reg .rsp - 8 - BitVec.ofNat 64 (8 * ws.length) := by
    rw [Nat.mul_add, BitVec.ofNat_add]
    bv_omega
  simp [pushWords, push, setReg, Memory.pushWords, hsub]

lemma pushWords_pushWords (c : Cpu) (ws ws' : List Word) :
    (c.pushWords ws).pushWords ws' = c.pushWords (ws ++ ws') := by
  induction ws generalizing c with
  | nil => rw [pushWords_nil, List.nil_append]
  | cons w ws ih => rw [← push_pushWords, ih, push_pushWords, List.cons_append]

/-- Pushed words are on top of the stack, the last one first. -/
lemma peek_pushWords (hroom : 8 * ws.length ≤ 2 ^ 64) {i : ℕ} (hi : i < ws.reverse.length) :
    (c.pushWords ws).peek i = ws.reverse[i] := by
  have hstored : (c.mem.pushWords (c.reg .rsp) ws).Stored ((c.pushWords ws).reg .rsp)
      (ws.reverse ++ []) :=
    pushWords_rsp c ws ▸ Memory.stored_pushWords (show Memory.Stored _ _ [] from trivial) hroom
  rw [List.append_nil] at hstored
  exact hstored.read64 hi

/-- Code that pushes registers pushes the words they hold. -/
lemma run_push (hrs : .rsp ∉ rs) : run (rs.map .push) c = c.pushWords (rs.map c.reg) := by
  induction rs generalizing c with
  | nil => exact (pushWords_nil c).symm
  | cons r rs ih =>
    obtain ⟨hr, hrs⟩ := not_or.mp (mt List.mem_cons.mpr hrs)
    have hreg : rs.map (c.push (c.reg r)).reg = rs.map c.reg := by
      refine List.map_congr_left fun r' hr' => ?_
      exact Function.update_of_ne (ne_of_mem_of_not_mem hr' hrs) _ _
    rw [List.map_cons, run_cons, Instr.exec, ih hrs, hreg, push_pushWords, List.map_cons]

/-- Pop words off the stack at the address `g rsp` into registers. -/
def popRegs (m : Memory) : List Reg → (Reg → Word) → Reg → Word
  | [], g => g
  | r :: rs, g =>
    popRegs m rs (Function.update (Function.update g .rsp (g .rsp + 8)) r (m.read64 (g .rsp)))

/-- Code that pops registers changes nothing else. -/
lemma run_pop (rs : List Reg) (c : Cpu) :
    run (rs.map .pop) c = { c with reg := popRegs c.mem rs c.reg } := by
  induction rs generalizing c with
  | nil => rfl
  | cons r rs ih =>
    rw [List.map_cons, run_cons, ih]
    simp [Instr.exec, drop, setReg, peek, popRegs]

lemma popRegs_of_notMem {m : Memory} {g : Reg → Word} {r : Reg} (hr : r ∉ rs) (hrsp : r ≠ .rsp) :
    popRegs m rs g r = g r := by
  induction rs generalizing g with
  | nil => rfl
  | cons r' rs ih =>
    obtain ⟨hne, hr⟩ := not_or.mp (mt List.mem_cons.mpr hr)
    rw [popRegs, ih hr, Function.update_of_ne hne, Function.update_of_ne hrsp]

lemma popRegs_rsp {m : Memory} {g : Reg → Word} (hrs : .rsp ∉ rs) :
    popRegs m rs g .rsp = g .rsp + BitVec.ofNat 64 (8 * rs.length) := by
  induction rs generalizing g with
  | nil => simp [popRegs]
  | cons r rs ih =>
    obtain ⟨hr, hrs⟩ := not_or.mp (mt List.mem_cons.mpr hrs)
    rw [popRegs, ih hrs, Function.update_of_ne hr, Function.update_self, List.length_cons,
      Nat.mul_add, BitVec.ofNat_add]
    bv_omega

/-- Popped registers hold the words that lay on the stack. -/
lemma popRegs_map {m : Memory} {g : Reg → Word} (hrs : .rsp ∉ rs) (hnodup : rs.Nodup)
    (h : m.Stored (g .rsp) ws) (hlen : ws.length = rs.length) : rs.map (popRegs m rs g) = ws := by
  induction rs generalizing g ws with
  | nil => exact (List.length_eq_zero_iff.mp hlen).symm
  | cons r rs ih =>
    obtain ⟨hr, hrs⟩ := not_or.mp (mt List.mem_cons.mpr hrs)
    obtain ⟨hr', hnodup⟩ := List.nodup_cons.mp hnodup
    obtain ⟨w, ws, rfl⟩ := List.exists_cons_of_length_eq_add_one hlen
    have hstored : m.Stored (Function.update (Function.update g .rsp (g .rsp + 8)) r
        (m.read64 (g .rsp)) .rsp) ws := by
      rw [Function.update_of_ne hr, Function.update_self]
      exact h.2
    rw [List.map_cons, popRegs, popRegs_of_notMem hr' (Ne.symm hr), Function.update_self, h.1,
      ih hrs hnodup (h.1 ▸ hstored) (by simpa using hlen)]

/-- Code that pops registers and returns restores them and goes on at the return address that lies
above them. -/
lemma run_pop_ret {ra : Word} (hrs : .rsp ∉ rs) (hnodup : rs.Nodup)
    (h : c.mem.Stored (c.reg .rsp) (ws ++ [ra])) (hlen : ws.length = rs.length) :
    rs.map (c.run (rs.map .pop ++ [.ret])).reg = ws ∧
      (c.run (rs.map .pop ++ [.ret])).reg .rsp =
        c.reg .rsp + BitVec.ofNat 64 (8 * (rs.length + 1)) ∧
      (c.run (rs.map .pop ++ [.ret])).rip = ra := by
  obtain ⟨hregs, hra⟩ := Memory.stored_append.mp h
  have hrsp : popRegs c.mem rs c.reg .rsp = c.reg .rsp + BitVec.ofNat 64 (8 * rs.length) :=
    popRegs_rsp hrs
  rw [run_append, run_pop]
  refine ⟨?_, ?_, ?_⟩
  · have hkept : rs.map (Function.update (popRegs c.mem rs c.reg) .rsp
        (popRegs c.mem rs c.reg .rsp + 8)) = rs.map (popRegs c.mem rs c.reg) :=
      List.map_congr_left fun r hr =>
        Function.update_of_ne (ne_of_mem_of_not_mem hr hrs) _ _
    exact hkept.trans (popRegs_map hrs hnodup hregs hlen)
  · show Function.update (popRegs c.mem rs c.reg) .rsp
      (popRegs c.mem rs c.reg .rsp + BitVec.ofNat 64 (8 * 1)) .rsp = _
    rw [Function.update_self, hrsp, BitVec.add_assoc, ← BitVec.ofNat_add, ← Nat.mul_add]
  · show c.mem.read64 (popRegs c.mem rs c.reg .rsp + BitVec.ofNat 64 (8 * 0)) = ra
    rw [hrsp, Nat.mul_zero, BitVec.add_zero, ← hlen]
    exact hra.1

end Cpu

end ProgLib
