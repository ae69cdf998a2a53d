import ZiranOS.Lib.TwoRuns
import ZiranOS.Syscall.Write
import ZiranOS.Usermode.Conservation

/-!
# Kernels that differ in memory only

Two kernels with the same tables and different memory: the walks cannot tell them apart
(`SameButMemory.translate_eq` and so on), and a system call can only at the addresses that it reads
through the pointer of its caller (`Machine.syscall_congr`).
-/

namespace ZiranOS

open ProgLib

/-- An entry that could be read. -/
lemma Paging.entry_of_readEntry {s : Paging} {table index entry : ℕ}
    (h : s.readEntry table index = .ok entry) : s.entryAt table index = entry := by
  unfold Paging.readEntry physToVirt at h
  split_ifs at h
  · exact Except.ok.inj h
  · cases h

namespace Kernel

/-! ## The walks -/

namespace SameButMemory

variable {k k' k'' : Kernel} {level table index : ℕ}

/-- A kernel and itself. -/
lemma refl (k : Kernel) : k.SameButMemory k := ⟨rfl, fun _ _ => rfl⟩

/-- The root is the same. -/
lemma cr3_eq (h : k.SameButMemory k') : k'.paging.cr3 = k.paging.cr3 := by
  rw [h.state]
  rfl

/-- Reading an entry. -/
lemma readEntry_eq (h : k.SameButMemory k') (ht : k.paging.IsTable level table)
    (hindex : index < 512) :
    k'.paging.readEntry table index = k.paging.readEntry table index := by
  have hentry : k'.paging.mem (table + 8 * index) = k.paging.mem (table + 8 * index) :=
    h.tables ht hindex
  unfold Paging.readEntry physToVirt
  split_ifs
  · exact congrArg Except.ok hentry
  · rfl

/-- The tables are the same. -/
lemma isTable (h : k.SameButMemory k') (ht : k.paging.IsTable level table) :
    k'.paging.IsTable level table := by
  induction ht with
  | root =>
    rw [← h.cr3_eq]
    exact .root
  | next habove hindex hpresent hsmall ih =>
    rw [← h.tables habove hindex] at hpresent hsmall ⊢
    exact .next ih hindex hpresent hsmall

/-- What is a table of the other kernel is one of this kernel. -/
lemma isTable_of (h : k.SameButMemory k') (ht : k'.paging.IsTable level table) :
    k.paging.IsTable level table := by
  induction ht with
  | root =>
    rw [h.cr3_eq]
    exact .root
  | next _ hindex hpresent hsmall ih =>
    rw [h.tables ih hindex] at hpresent hsmall ⊢
    exact .next ih hindex hpresent hsmall

/-- The relation is symmetric. -/
lemma symm (h : k.SameButMemory k') : k'.SameButMemory k where
  state := by
    rw [h.state]
    rfl
  tables ht hindex := (h.tables (h.isTable_of ht) hindex).symm

/-- The relation is transitive. -/
lemma trans (h : k.SameButMemory k') (h' : k'.SameButMemory k'') : k.SameButMemory k'' where
  state := by
    rw [h'.state, h.state]
    rfl
  tables ht hindex := (h'.tables (h.isTable ht) hindex).trans (h.tables ht hindex)

/-- The permission walk. -/
lemma userLevels_eq (h : k.SameButMemory k') (virt : ℕ) : ∀ level table,
    k.paging.IsTable level table →
      k'.paging.userLevels virt level table = k.paging.userLevels virt level table := by
  intro level
  induction level with
  | zero =>
    intro table ht
    unfold Paging.userLevels
    rw [h.readEntry_eq ht (tableIndex_lt virt 0)]
  | succ level ih =>
    intro table ht
    unfold Paging.userLevels
    rw [h.readEntry_eq ht (tableIndex_lt virt _)]
    refine Exec.bind_congr fun entry hentry => ?_
    split_ifs with hclosed hhuge
    · rfl
    · rfl
    · obtain rfl := Paging.entry_of_readEntry hentry
      exact ih _ (.next ht (tableIndex_lt virt _) (not_or.mp hclosed).1 hhuge)

/-- The translation walk. -/
lemma translateLevels_eq (h : k.SameButMemory k') (virt : ℕ) : ∀ level table,
    k.paging.IsTable level table →
      k'.paging.translateLevels virt level table = k.paging.translateLevels virt level table := by
  intro level
  induction level with
  | zero =>
    intro table ht
    unfold Paging.translateLevels
    rw [h.readEntry_eq ht (tableIndex_lt virt 0)]
  | succ level ih =>
    intro table ht
    unfold Paging.translateLevels
    rw [h.readEntry_eq ht (tableIndex_lt virt _)]
    refine Exec.bind_congr fun entry hentry => ?_
    split_ifs with habsent hhuge
    · rfl
    · rfl
    · obtain rfl := Paging.entry_of_readEntry hentry
      exact ih _ (.next ht (tableIndex_lt virt _) habsent hhuge)

/-- The entries of a walk. -/
lemma walkLevels_eq (h : k.SameButMemory k') (virt : ℕ) : ∀ level table,
    k.paging.IsTable level table →
      k'.paging.walkLevels virt level table = k.paging.walkLevels virt level table := by
  intro level
  induction level with
  | zero =>
    intro table ht
    unfold Paging.walkLevels
    rw [h.tables ht (tableIndex_lt virt 0)]
  | succ level ih =>
    intro table ht
    unfold Paging.walkLevels
    rw [h.tables ht (tableIndex_lt virt _)]
    dsimp only
    split_ifs with hends
    · rfl
    · obtain ⟨hpresent, hsmall⟩ := not_or.mp hends
      rw [ih _ (.next ht (tableIndex_lt virt _) hpresent hsmall)]

/-- **Addresses are translated alike.** -/
lemma translate_eq (h : k.SameButMemory k') : k'.paging.translate = k.paging.translate := by
  funext virt
  rw [Paging.translate, Paging.translate, Paging.translateFrom, Paging.translateFrom, h.cr3_eq]
  exact h.translateLevels_eq virt 3 _ .root

/-- **The same pages are open to ring 3.** -/
lemma pageUserAccessible_eq (h : k.SameButMemory k') :
    k'.paging.pageUserAccessible = k.paging.pageUserAccessible := by
  funext virt
  rw [Paging.pageUserAccessible, Paging.pageUserAccessible, h.cr3_eq]
  exact h.userLevels_eq virt 3 _ .root

/-- The walks meet the same entries. -/
lemma walk_eq (h : k.SameButMemory k') : k'.paging.walk = k.paging.walk := by
  funext virt
  rw [Paging.walk, Paging.walk, h.cr3_eq]
  exact h.walkLevels_eq virt 3 _ .root

/-- The check of a range. -/
lemma userRangeOk_eq (h : k.SameButMemory k') :
    k'.paging.userRangeOk = k.paging.userRangeOk := by
  have hpages : k'.paging.userPages = k.paging.userPages := by
    funext last fuel
    induction fuel with
    | zero => rfl
    | succ fuel ih =>
      funext page
      rw [Paging.userPages, Paging.userPages, h.pageUserAccessible_eq, ih]
  funext fuel uaddr len
  unfold Paging.userRangeOk
  rw [hpages]

end SameButMemory

end Kernel

/-! ## System calls -/

namespace Machine

/-- What a system call can see of another machine: where its memory is read. -/
structure SameChecks (m m' : Machine) : Prop where
  /-- The check of a range. -/
  range : m'.tables.userRangeOk = m.tables.userRangeOk
  /-- The label behind `usermode_enter`. -/
  resume : m'.usermodeResume = m.usermodeResume
  /-- The stack pointer of the kernel. -/
  kernelRsp : m'.kernelRsp = m.kernelRsp

variable {m m' : Machine} {fuel : ℕ} {st : SyscallState}

/-- **A write depends on memory only through the bytes that it reads**, once it is allowed. -/
lemma sysWrite_congr (h : m.SameChecks m') {validate : Bool}
    (hload : st.ctx.rsi ≤ maxWrite →
      (validate = true → m.tables.userRangeOk fuel st.ctx.rdi st.ctx.rsi = .ok true) →
      ∀ i < st.ctx.rsi, m'.load ((st.ctx.rdi + i) % 2 ^ 64) = m.load ((st.ctx.rdi + i) % 2 ^ 64)) :
    m'.sysWrite fuel validate st = m.sysWrite fuel validate st := by
  by_cases hlong : maxWrite < st.ctx.rsi
  · rw [sysWrite_tooLong hlong, sysWrite_tooLong hlong]
  · have hbody : (validate = true → m.tables.userRangeOk fuel st.ctx.rdi st.ctx.rsi = .ok true) →
        ∀ capture, (List.range st.ctx.rsi).foldlM (m'.writeByte st.ctx.rdi) capture =
          (List.range st.ctx.rsi).foldlM (m.writeByte st.ctx.rdi) capture := by
      refine fun hcheck => foldlM_congr_mem fun i hi capture => ?_
      unfold writeByte
      dsimp only
      rw [hload (not_lt.mp hlong) hcheck i (List.mem_range.mp hi)]
    unfold sysWrite
    dsimp only
    rw [if_neg hlong, if_neg hlong, h.range]
    cases validate with
    | false => simp only [hbody fun h => absurd h Bool.false_ne_true]
    | true =>
      cases hcheck : m.tables.userRangeOk fuel st.ctx.rdi st.ctx.rsi with
      | error e => cases e <;> rfl
      | ok allowed =>
        cases allowed with
        | false => rfl
        | true => simp only [hbody fun _ => hcheck]

/-- **A system call depends on memory only through the bytes that a write reads.** -/
lemma syscall_congr (h : m.SameChecks m')
    (hload : st.ctx.rax = Sys.write ∨ st.ctx.rax = Sys.writeUnchecked → st.ctx.rsi ≤ maxWrite →
      (st.ctx.rax = Sys.write → m.tables.userRangeOk fuel st.ctx.rdi st.ctx.rsi = .ok true) →
      ∀ i < st.ctx.rsi, m'.load ((st.ctx.rdi + i) % 2 ^ 64) = m.load ((st.ctx.rdi + i) % 2 ^ 64)) :
    m'.syscall fuel st = m.syscall fuel st := by
  unfold syscall
  dsimp only
  split_ifs with hprint hexit hwrite hunchecked
  · rfl
  · rw [resumeKernel, resumeKernel, h.resume, h.kernelRsp]
  · exact sysWrite_congr h fun hshort hcheck =>
      hload (.inl hwrite) hshort fun _ => hcheck rfl
  · refine sysWrite_congr h fun hshort _ => hload (.inr hunchecked) hshort fun hno => ?_
    exact absurd (hno.symm.trans hunchecked) (by decide)
  · rfl

end Machine

end ZiranOS
