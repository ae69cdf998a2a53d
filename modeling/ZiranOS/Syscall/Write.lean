import ZiranOS.Syscall.Dispatch

/-!
# A checked write is not a confused deputy

What `sysWrite` does, said once for each way it can end (`sysWrite_tooLong`, `sysWrite_denied`,
`sysWrite_delivered`), as an equation for the whole run with its log.  The bytes of memory occur in
the last of them only, and only at addresses that ring 3 can read, which is why two memories that
agree there cannot be told apart.
-/

namespace ZiranOS

open ProgLib

/-! ## The log -/

namespace SyscallEvent

/-- The address of a read through the pointer of the caller. -/
def read? : SyscallEvent → Option ℕ
  | read addr => some addr
  | _ => none

/-- A character on the screen. -/
def screen? : SyscallEvent → Option Char
  | screen c => some c
  | _ => none

/-- A character on the serial line. -/
def serial? : SyscallEvent → Option Char
  | serial c => some c
  | _ => none

end SyscallEvent

/-- What the copy of one byte leaves in the log. -/
def byteLog (ptr : ℕ) (data : ℕ → UInt8) (i : ℕ) : List SyscallEvent :=
  [.read (ptr + i), .screen (Char.ofUInt8 (data i)), .serial (Char.ofUInt8 (data i))]

section Log

variable (ptr : ℕ) (data : ℕ → UInt8) (n : ℕ)

lemma read_byteLog :
    ((List.range n).flatMap (byteLog ptr data)).filterMap SyscallEvent.read? =
      (List.range n).map (ptr + ·) := by
  rw [List.filterMap_flatMap, List.map_eq_flatMap]
  rfl

lemma screen_byteLog :
    ((List.range n).flatMap (byteLog ptr data)).filterMap SyscallEvent.screen? =
      ((List.range n).map data).map Char.ofUInt8 := by
  rw [List.filterMap_flatMap, List.map_map, List.map_eq_flatMap]
  rfl

lemma serial_byteLog :
    ((List.range n).flatMap (byteLog ptr data)).filterMap SyscallEvent.serial? =
      ((List.range n).map data).map Char.ofUInt8 := by
  rw [List.filterMap_flatMap, List.map_map, List.map_eq_flatMap]
  rfl

end Log

variable {m : Machine} {st : SyscallState}

/-! ## Reading through the pointer -/

namespace Machine

/-- The byte at a virtual address, for addresses that can be read. -/
def byteAt (m : Machine) (virt : ℕ) : UInt8 := (m.load virt).toOption.getD 0

/-- A read where ring 3 could read does not fault; it returns the byte of the translated address. -/
lemma load_eq {virt phys : ℕ} (hvirt : virt < 2 ^ 47)
    (htranslate : m.tables.translate virt = .ok (some phys)) :
    m.load virt = .ok (m.bytes phys) := by
  have h47 := userAddrLimit_eq
  rw [load, if_neg (by omega), htranslate]
  rfl

/-- The same for the byte at the address. -/
lemma load_eq_byteAt {virt : ℕ} (hvirt : virt < 2 ^ 47) (h : m.tables.UserReadable virt) :
    m.load virt = .ok (m.byteAt virt) := by
  obtain ⟨⟨phys, htranslate⟩, -⟩ := h
  rw [byteAt, load_eq hvirt htranslate]
  rfl

/-! ## The loop over the bytes -/

/-- The copy of one byte. -/
lemma writeByte_eq {ptr i : ℕ} {byte : UInt8} (hi : i < maxWrite) (hptr : ptr + i < 2 ^ 64)
    (hload : m.load (ptr + i) = .ok byte) (capture : Capture) :
    m.writeByte ptr capture i =
      ⟨[.read (ptr + i), .screen (Char.ofUInt8 byte), .serial (Char.ofUInt8 byte)],
        .ok { capture with buf := Function.update capture.buf ⟨i, hi⟩ byte }⟩ := by
  have hstore : capture.store i byte =
      .ok { capture with buf := Function.update capture.buf ⟨i, hi⟩ byte } := dif_pos hi
  unfold writeByte
  simp only [Nat.mod_eq_of_lt hptr, hload, Traced.lift_ok_bind, hstore]
  rfl

/-- **The loop copies the bytes in order.** -/
lemma writeBytes_eq {ptr : ℕ} {data : ℕ → UInt8} (capture : Capture) : ∀ n ≤ maxWrite,
    ptr + n ≤ 2 ^ 64 → (∀ i < n, m.load (ptr + i) = .ok (data i)) →
      (List.range n).foldlM (m.writeByte ptr) capture =
        ⟨(List.range n).flatMap (byteLog ptr data),
          .ok { capture with buf := fun i => if i.val < n then data i else capture.buf i }⟩ := by
  intro n
  induction n with
  | zero =>
    intro _ _ _
    rfl
  | succ n ih =>
    intro hn hptr hload
    rw [List.range_succ, List.foldlM_append, ih (by omega) (by omega)
      (fun i hi => hload i (by omega)), Traced.bind_eq_of_ok rfl, List.foldlM_cons,
      writeByte_eq (Nat.lt_of_succ_le hn) (by omega) (hload n (Nat.lt_succ_self n)),
      Traced.bind_eq_of_ok rfl, List.flatMap_append]
    refine Traced.ext rfl (congrArg (fun buf => Except.ok (Capture.mk buf capture.len)) ?_)
    funext i
    rw [Function.update_apply]
    by_cases heq : i = ⟨n, Nat.lt_of_succ_le hn⟩
    · have hlt : i.val < n + 1 := by rw [heq]; exact Nat.lt_succ_self n
      rw [if_pos heq, if_pos hlt, heq]
    · have hne : i.val ≠ n := fun h => heq (Fin.ext h)
      rw [if_neg heq]
      exact if_congr (by omega) rfl rfl

/-! ## The ways a write ends -/

/-- A write that is too long is rejected. -/
lemma sysWrite_tooLong (hlen : maxWrite < st.ctx.rsi) (fuel : ℕ) (validate : Bool) :
    m.sysWrite fuel validate st =
      ⟨[.report (.tooLong st.ctx.rsi st.ctx.cpl)], .ok (st.setRax (2 ^ 64 - 1))⟩ := by
  unfold sysWrite
  dsimp only
  rw [if_pos hlen]
  rfl

/-- A write from a range that the check does not accept is rejected. -/
lemma sysWrite_denied {fuel : ℕ} (hlen : st.ctx.rsi ≤ maxWrite)
    (hcheck : m.tables.userRangeOk fuel st.ctx.rdi st.ctx.rsi = .ok false) :
    m.sysWrite fuel true st =
      ⟨[.report (.notUserReadable st.ctx.rdi st.ctx.rsi st.ctx.cpl)],
        .ok (st.setRax (2 ^ 64 - 1))⟩ := by
  unfold sysWrite
  dsimp only
  rw [if_neg (not_lt.mpr hlen), if_pos rfl, hcheck]
  rfl

/-- What a write leaves in the log. -/
def writeLog (st : SyscallState) (data : ℕ → UInt8) : List SyscallEvent :=
  .report (.emitting true st.ctx.rsi) :: (List.range st.ctx.rsi).flatMap (byteLog st.ctx.rdi data)
    ++ [.report (.emitted st.ctx.cpl)]

/-- What a write leaves in the registers and in the capture. -/
def written (st : SyscallState) (data : ℕ → UInt8) : SyscallState where
  ctx := { st.ctx with rax := st.ctx.rsi }
  capture.buf i := if i.val < st.ctx.rsi then data i else st.capture.buf i
  capture.len := st.ctx.rsi

/-- A write from a range that the check accepts copies the bytes there. -/
lemma sysWrite_delivered {fuel : ℕ} {data : ℕ → UInt8} (hlen : st.ctx.rsi ≤ maxWrite)
    (hcheck : m.tables.userRangeOk fuel st.ctx.rdi st.ctx.rsi = .ok true)
    (hptr : st.ctx.rdi + st.ctx.rsi ≤ 2 ^ 64)
    (hload : ∀ i < st.ctx.rsi, m.load (st.ctx.rdi + i) = .ok (data i)) :
    m.sysWrite fuel true st = ⟨writeLog st data, .ok (written st data)⟩ := by
  unfold sysWrite
  dsimp only
  rw [if_neg (not_lt.mpr hlen), if_pos rfl, hcheck, Exec.mapFail_ok, Traced.lift_ok_bind,
    if_neg (by decide), writeBytes_eq _ _ hlen hptr hload, Traced.bind_eq_of_ok rfl,
    Traced.bind_eq_of_ok rfl]
  rfl

/-- The dispatcher passes a checked write on. -/
lemma syscall_write (hrax : st.ctx.rax = Sys.write) (fuel : ℕ) :
    m.syscall fuel st = m.sysWrite fuel true st := by
  unfold syscall
  dsimp only
  rw [hrax, if_neg (by decide), if_neg (by decide), if_pos rfl]

end Machine

/-! ## The write as its caller sees it -/

/-- The range of the caller is short enough, and ring 3 can read all of it. -/
def WriteAllowed (m : Machine) (st : SyscallState) : Prop :=
  st.ctx.rsi ≤ 256 ∧
    RangeAccessible (fun n => m.tables.UserReadable (n * 4096)) st.ctx.rdi st.ctx.rsi

/-- A rejected write: it returns -1, reads nothing through the pointer and leaves the capture. -/
structure WriteRejected (st : SyscallState) (log : List SyscallEvent) (st' : SyscallState) : Prop
    where
  ctx : st'.ctx = { st.ctx with rax := 2 ^ 64 - 1 }
  capture : st'.capture = st.capture
  reads : ∀ addr, .read addr ∉ log

/-- A delivered write: it reads the bytes of its range in order, each at an address that ring 3 can
read, prints and captures exactly these bytes, and returns their number. -/
structure WriteDelivered (m : Machine) (st : SyscallState) (data : List UInt8)
    (log : List SyscallEvent) (st' : SyscallState) : Prop where
  short : st.ctx.rsi ≤ 256
  length : data.length = st.ctx.rsi
  reads : log.filterMap SyscallEvent.read? = (List.range st.ctx.rsi).map (st.ctx.rdi + ·)
  readable : ∀ i (h : i < data.length), ∃ phys,
    m.tables.translate (st.ctx.rdi + i) = .ok (some phys) ∧
      (∀ entry ∈ m.tables.walk (st.ctx.rdi + i), UserEntry entry) ∧ data[i] = m.bytes phys
  screen : log.filterMap SyscallEvent.screen? = data.map Char.ofUInt8
  serial : log.filterMap SyscallEvent.serial? = data.map Char.ofUInt8
  buf : ∀ i, st'.capture.buf i = data.getD i (st.capture.buf i)
  len : st'.capture.len = st.ctx.rsi
  ctx : st'.ctx = { st.ctx with rax := st.ctx.rsi }

/-- Another memory that agrees where ring 3 can read. -/
def AgreesForUser (m : Machine) (bytes : ℕ → UInt8) : Prop :=
  ∀ virt < 2 ^ 47, m.tables.UserReadable virt → ∀ phys,
    m.tables.translate virt = .ok (some phys) → bytes phys = m.bytes phys

/-- **An allowed range is delivered.** -/
lemma writeDelivered_of_readable (hshort : st.ctx.rsi ≤ 256)
    (hread : ∀ i < st.ctx.rsi,
      st.ctx.rdi + i < 2 ^ 47 ∧ m.tables.UserReadable (st.ctx.rdi + i)) :
    WriteDelivered m st ((List.range st.ctx.rsi).map fun i => m.byteAt (st.ctx.rdi + i))
      (Machine.writeLog st fun i => m.byteAt (st.ctx.rdi + i))
      (Machine.written st fun i => m.byteAt (st.ctx.rdi + i)) where
  short := hshort
  length := by rw [List.length_map, List.length_range]
  reads := by
    rw [Machine.writeLog, List.filterMap_append, List.filterMap_cons, read_byteLog]
    exact List.append_nil _
  readable := by
    intro i hi
    rw [List.length_map, List.length_range] at hi
    obtain ⟨hlt, hreadable⟩ := hread i hi
    obtain ⟨phys, htranslate⟩ := hreadable.1
    refine ⟨phys, htranslate, hreadable.2, ?_⟩
    rw [List.getElem_map, List.getElem_range]
    exact Except.ok.inj ((Machine.load_eq_byteAt hlt hreadable).symm.trans
      (Machine.load_eq hlt htranslate))
  screen := by
    rw [Machine.writeLog, List.filterMap_append, List.filterMap_cons, screen_byteLog]
    exact List.append_nil _
  serial := by
    rw [Machine.writeLog, List.filterMap_append, List.filterMap_cons, serial_byteLog]
    exact List.append_nil _
  buf := by
    intro i
    unfold Machine.written
    dsimp only
    split_ifs with hi
    · rw [List.getD_eq_getElem _ _ (by rwa [List.length_map, List.length_range]),
        List.getElem_map, List.getElem_range]
    · rw [List.getD_eq_default _ _ (by rwa [List.length_map, List.length_range, ← not_lt])]
  len := rfl
  ctx := rfl

/-- **A checked write is not a confused deputy.**  Whatever the tables hold, as long as they lie in
the identity map, and whatever the memory and the registers hold, a checked write comes back.
Either it is rejected, or it delivers exactly the bytes of its range, each of which ring 3 could
have read; and it cannot tell apart two memories that agree wherever ring 3 can read. -/
theorem write_not_confused (m : Machine) (hlow : m.tables.LowTables) (st : SyscallState)
    (hrax : st.ctx.rax = Sys.write) (hrdi : st.ctx.rdi < 2 ^ 64) (hrsi : st.ctx.rsi < 2 ^ 64)
    (fuel : ℕ) (hfuel : 2 ≤ fuel) :
    (∃ st', (m.syscall fuel st).out = .ok st' ∧
      (¬ WriteAllowed m st ∧ WriteRejected st (m.syscall fuel st).log st' ∨
        WriteAllowed m st ∧
          ∃ data, WriteDelivered m st data (m.syscall fuel st).log st')) ∧
      ∀ bytes, AgreesForUser m bytes →
        Machine.syscall { m with bytes := bytes } fuel st = m.syscall fuel st := by
  simp only [Machine.syscall_write hrax]
  by_cases hshort : st.ctx.rsi ≤ maxWrite
  · have hpages : (st.ctx.rdi + st.ctx.rsi - 1) / 4096 - st.ctx.rdi / 4096 < fuel := by
      unfold maxWrite at hshort
      omega
    obtain ⟨allowed, hcheck, hallowed⟩ := userRangeOk_eq
      (fun n => m.tables.UserReadable (n * 4096))
      (fun n _ => hlow.pageUserAccessible_eq (n * 4096)) hrdi (Or.inl hpages)
    cases allowed with
    | false =>
      have hno : ¬ WriteAllowed m st := fun h => Bool.false_ne_true (hallowed.mpr h.2)
      rw [Machine.sysWrite_denied hshort hcheck]
      exact ⟨⟨_, rfl, Or.inl ⟨hno, rfl, rfl, by simp⟩⟩,
        fun bytes _ => Machine.sysWrite_denied (m := { m with bytes := bytes }) hshort hcheck⟩
    | true =>
      have hrange := hallowed.mp rfl
      have hread : ∀ i < st.ctx.rsi,
          st.ctx.rdi + i < 2 ^ 47 ∧ m.tables.UserReadable (st.ctx.rdi + i) := by
        intro i hi
        obtain ⟨-, hend, hpages⟩ := hrange.resolve_left (by omega)
        exact ⟨by omega, hlow.userReadable_of_page (hpages _ (by omega) (by omega))⟩
      have hptr : st.ctx.rdi + st.ctx.rsi ≤ 2 ^ 64 := by
        rcases hrange with h0 | ⟨hlt, -, -⟩
        · omega
        · omega
      rw [Machine.sysWrite_delivered hshort hcheck hptr
        fun i hi => Machine.load_eq_byteAt (hread i hi).1 (hread i hi).2]
      refine ⟨⟨_, rfl, Or.inr ⟨⟨hshort, hrange⟩, _, writeDelivered_of_readable hshort hread⟩⟩,
        fun bytes hagree => ?_⟩
      refine Machine.sysWrite_delivered (m := { m with bytes := bytes }) hshort hcheck hptr
        fun i hi => ?_
      -- the other memory has the same byte there
      obtain ⟨hlt, hreadable⟩ := hread i hi
      obtain ⟨phys, htranslate⟩ := hreadable.1
      rw [Machine.load_eq (m := { m with bytes := bytes }) hlt htranslate,
        ← Machine.load_eq_byteAt hlt hreadable, Machine.load_eq hlt htranslate]
      exact congrArg Except.ok (hagree _ hlt hreadable _ htranslate)
  · have hlong : maxWrite < st.ctx.rsi := not_le.mp hshort
    rw [Machine.sysWrite_tooLong hlong]
    exact ⟨⟨_, rfl, Or.inl ⟨fun h => hshort h.1, rfl, rfl, by simp⟩⟩,
      fun bytes _ => Machine.sysWrite_tooLong (m := { m with bytes := bytes }) hlong fuel true⟩

/-! ## A sample machine -/

/-- A machine with one page for ring 3, at address 0. -/
def sampleMachine : Machine where
  tables :=
    { mem := fun a => if a = 0x1000 then 0x2007 else if a = 0x2000 then 0x3007
        else if a = 0x3000 then 0x4007 else if a = 0x4000 then 0x5007 else 0
      cr3 := 0x1000
      allocs := 0 }
  bytes a := UInt8.ofNat a
  usermodeResume := 0
  kernelRsp := 0

/-- The tables of the sample machine lie in the identity map. -/
lemma sampleMachine_lowTables : sampleMachine.tables.LowTables := by
  have hmem : ∀ a, sampleMachine.tables.mem a < identityLimit := by
    intro a
    have h30 := identityLimit_eq
    unfold sampleMachine
    dsimp only
    split_ifs <;> omega
  intro level table ht
  cases ht with
  | root => decide
  | next => exact lt_of_le_of_lt Nat.and_le_left (hmem _)

/-- Ring 3 asks for the two bytes at 0x4d. -/
def sampleWrite : SyscallState where
  ctx := ⟨0, 0, 0, 0, 0, 0, 0, 0, 0, 0x4d, 2, 0, 0, 0, Sys.write, 0x80, 0, 0, 0x1b, 0, 0, 0x23⟩
  capture := ⟨fun _ => 0, 0⟩

/-- On the sample machine ring 3 is given the two bytes. -/
theorem write_not_confused_sampleMachine :
    ∃ st' data, (sampleMachine.syscall 2 sampleWrite).out = .ok st' ∧
      WriteDelivered sampleMachine sampleWrite data (sampleMachine.syscall 2 sampleWrite).log
        st' := by
  have hrax : ((sampleMachine.syscall 2 sampleWrite).out.toOption.map fun st => st.ctx.rax) =
      some 2 := by decide +kernel
  obtain ⟨⟨st', hout, hend⟩, -⟩ := write_not_confused sampleMachine sampleMachine_lowTables
    sampleWrite rfl (by decide) (by decide) 2 le_rfl
  rcases hend with ⟨-, hrejected⟩ | ⟨-, data, hdelivered⟩
  · rw [hout] at hrax
    have : st'.ctx.rax = 2 := Option.some.inj hrax
    rw [hrejected.ctx] at this
    exact absurd this (by norm_num)
  · exact ⟨st', data, hout, hdelivered⟩

end ZiranOS
