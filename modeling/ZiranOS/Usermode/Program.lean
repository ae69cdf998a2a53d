import ZiranOS.Usermode.Kernel
import ZiranOS.Paging.Privilege

/-!
# Mapping a user program

`mapUserProgram` takes a frame for the code, copies the blob to its start, maps the frame at
`uvaCode`, takes a second frame and maps it at `uvaStack`.  A frame is a page of memory as its last
user has left it: the allocator does not clear frames, and nothing here does.

A store goes through the live tables, like every access of the kernel; where they do not map the
address it is a page fault, `Exec.fail ()`.
-/

namespace ZiranOS

open ProgLib

/-- The address of the code of a user program. -/
def uvaCode : ℕ := 0x50000000
/-- The address of the stack page of a user program. -/
def uvaStack : ℕ := 0x50100000

namespace Kernel

/-! ## Memory -/

/-- Store a byte at a virtual address. -/
def storeByte (k : Kernel) (virt : ℕ) (b : UInt8) : Exec Unit Kernel := do
  match ← k.paging.translate virt with
  | some phys => pure (k.withMem (Lanes.setByte k.paging.mem phys b))
  | none => Exec.fail ()

/-- Store bytes from a virtual address on. -/
def copyBytes (k : Kernel) (dest : ℕ) : List UInt8 → Exec Unit Kernel
  | [] => pure k
  | b :: bytes => do
    let k ← k.storeByte dest b
    k.copyBytes (dest + 1) bytes

/-- The byte that ring 3 reads at an address, if it can read there. -/
def userByte (k : Kernel) (virt : ℕ) : Exec Unit (Option UInt8) := do
  if ← k.paging.pageUserAccessible virt then
    let phys ← k.paging.translate virt
    pure (phys.map (Lanes.byteAt k.paging.mem))
  else
    pure none

/-! ## The program -/

/-- A frame that has to be there: running out of frames is fatal. -/
def expectFrame (k : Kernel) : Exec Unit (Kernel × PhysFrame) := do
  match ← k.alloc with
  | (k, some frame) => pure (k, frame)
  | (_, none) => Exec.panic .assertion

/-- A mapping for ring 3 that has to succeed. -/
def expectUserPage (k : Kernel) (virt phys flags : ℕ) : Exec Unit Kernel := do
  match ← k.call (.mapUserPage virt phys flags) with
  | (k, .mapped (.ok _)) => pure k
  | (_, _) => Exec.panic .assertion

/-- Map the code of a program and a stack for it; the result are the two frames. -/
def mapUserProgram (k : Kernel) (blob : List UInt8) :
    Exec Unit (Kernel × PhysFrame × PhysFrame) := do
  let (k, codeFrame) ← k.expectFrame
  let codePhys := codeFrame.start
  let k ← k.copyBytes codePhys blob
  let k ← k.expectUserPage uvaCode codePhys 0
  let (k, stackFrame) ← k.expectFrame
  let stackPhys := stackFrame.start
  let k ← k.expectUserPage uvaStack stackPhys writable
  pure (k, codeFrame, stackFrame)

end Kernel

variable {k k' : Kernel} {frames : ℕ → Option ℕ} {T T' : TableTree} {S : Finset ℕ} {i : ℕ}

/-! ## Stores -/

namespace Sound

/-- **A store to a frame that belongs to someone else** leaves the tables alone. -/
lemma storeByte (h : Sound k frames T S) (hown : Owned T S i) {a : ℕ} (ha : a / physFrameSize = i)
    (hlow : a < identityLimit) (b : UInt8) :
    k.storeByte a b = .ok (k.withMem (Lanes.setByte k.paging.mem a b)) ∧
      k.SameButMemory (k.withMem (Lanes.setByte k.paging.mem a b)) := by
  have h30 := identityLimit_eq
  have htranslate : k.paging.translate a = .ok (some a) := by
    rw [translate_eq h.toShape h.fresh (by omega), Paging.target, if_pos hlow]
  have havoid : T.Avoids (a / 8 * 8) := by
    refine hown.avoids h.toPlaced h.fresh ?_
    rw [← ha, physFrameSize]
    omega
  refine ⟨?_, rfl, fun ht hindex => ?_⟩
  · rw [Kernel.storeByte, htranslate, Exec.bind_ok]
    rfl
  · obtain ⟨q, hq⟩ := h.isTable_iff.mp ht
    exact Lanes.setByte_of_ne (havoid.ne_entry hq hindex).symm

/-- **Copying bytes into such a frame.** -/
lemma copyBytes (hown : Owned T S i) : ∀ (bytes : List UInt8) (k : Kernel) (dest : ℕ),
    Sound k frames T S → (∀ j < bytes.length, (dest + j) / physFrameSize = i ∧
      dest + j < identityLimit) →
    ∃ k', k.copyBytes dest bytes = .ok k' ∧ Sound k' frames T S ∧ k'.allocator = k.allocator ∧
      ∀ a, Lanes.byteAt k'.paging.mem a =
        if dest ≤ a ∧ a < dest + bytes.length then bytes.getD (a - dest) 0
        else Lanes.byteAt k.paging.mem a := by
  intro bytes
  induction bytes with
  | nil =>
    intro k dest h _
    refine ⟨k, rfl, h, rfl, fun a => (if_neg ?_).symm⟩
    rw [List.length_nil]
    omega
  | cons b bytes ih =>
    intro k dest h hplace
    have hfirst := hplace 0 (by simp)
    rw [Nat.add_zero] at hfirst
    obtain ⟨hframe, hlow⟩ := hfirst
    obtain ⟨hstore, hsame⟩ := h.storeByte hown hframe hlow b
    obtain ⟨k', hrun, h', hallocator, hbytes⟩ := ih _ (dest + 1) (h.sameButMemory hsame)
      fun j hj => by
        have := hplace (j + 1) (by simpa using hj)
        rwa [Nat.add_comm j 1, ← Nat.add_assoc] at this
    refine ⟨k', ?_, h', hallocator, fun a => ?_⟩
    · rw [Kernel.copyBytes]
      exact (congrArg (· >>= _) hstore).trans hrun
    · rw [hbytes a, List.length_cons]
      have hset : Lanes.byteAt (k.withMem (Lanes.setByte k.paging.mem dest b)).paging.mem a =
          if a = dest then b else Lanes.byteAt k.paging.mem a := Lanes.byteAt_setByte
      rw [hset]
      by_cases ha : a = dest
      · subst ha
        rw [if_neg (by omega), if_pos rfl, if_pos (by omega), Nat.sub_self]
        rfl
      · rw [if_neg ha]
        by_cases hin : dest + 1 ≤ a ∧ a < dest + 1 + bytes.length
        · rw [if_pos hin, if_pos (by omega)]
          obtain ⟨j, rfl⟩ := Nat.exists_eq_add_of_le hin.1
          have hsub : dest + 1 + j - dest = j + 1 := by omega
          rw [Nat.add_sub_cancel_left, hsub, List.getD_cons_succ]
        · rw [if_neg hin, if_neg (by omega)]

end Sound

/-! ## Pages of ring 3 -/

/-- An address is mapped to a frame for ring 3. -/
structure UserMapped (s : Paging) (T : TableTree) (virt f : ℕ) : Prop where
  /-- The entries of the walk are open. -/
  opened : ∀ l ≤ 3, s.UserAt T l (slot virt l)
  /-- The page of the address is mapped to the frame. -/
  page : s.pageAt T (virt / 4096) = some f

/-- A page of ring 3 has all its addresses mapped. -/
lemma UserMapped.of_page {s : Paging} {virt f j : ℕ} (h : UserMapped s T virt f)
    (hpage : 4096 ∣ virt) (hj : j < 4096) : UserMapped s T (virt + j) f := by
  have hdiv : (virt + j) / 4096 = virt / 4096 := by omega
  have hround : (virt + j) / 4096 * 4096 = virt := by omega
  refine ⟨fun l hl => ?_, by rw [hdiv]; exact h.page⟩
  rw [← slot_page, hround]
  exact h.opened l hl

/-- **What ring 3 reads at an address that is mapped for it.** -/
lemma Sound.userByte_eq (h : Sound k frames T S) {virt f : ℕ} (hlow : identityLimit ≤ virt)
    (hvirt : virt < 2 ^ 48) (hmapped : UserMapped k.paging T virt f) :
    k.userByte virt = .ok (some (Lanes.byteAt k.paging.mem (f + virt % 4096))) := by
  have hroot := h.root_slot hvirt
  have htables : k.paging.LowTables := by
    intro level table ht
    obtain ⟨q, hq⟩ := h.isTable_iff.mp ht
    exact h.toPlaced.low h.fresh hq
  have hwalk : ∀ entry ∈ k.paging.walkLevels virt 3 (k.paging.cr3 &&& addrMask),
      UserEntry entry := by
    intro entry hentry
    obtain ⟨l, hl, hw⟩ := (h.mem_walkLevels_iff virt entry 3 _ le_rfl hroot).mp hentry
    obtain ⟨entry', hw', hopen⟩ := hmapped.opened l hl
    obtain rfl := Option.some.inj (hw.symm.trans hw')
    exact hopen
  obtain ⟨b, hb, hiff⟩ := htables.userLevels_eq virt 3 _ .root
  have haccess : k.paging.pageUserAccessible virt = .ok true := hb.trans (by rw [hiff.mpr hwalk])
  have htranslate : k.paging.translate virt = .ok (some (f + virt % 4096)) := by
    rw [translate_eq h.toShape h.fresh hvirt, Paging.target, if_neg (not_lt.mpr hlow), hmapped.page,
      Option.map_some]
  rw [Kernel.userByte, haccess, Exec.bind_ok, if_pos rfl, htranslate]
  rfl

/-- What a successful mapping for ring 3 leaves. -/
structure MappedUser (k : Kernel) (frames : ℕ → Option ℕ) (T : TableTree) (S : Finset ℕ)
    (virt phys : ℕ) (k' : Kernel) (T' : TableTree) : Prop where
  /-- The bitmap has given away a frame for each missing table. -/
  sound : Sound k' frames T' (FrameSet.rest^[T.missing virt 3] S)
  /-- The frames of others stay as they are. -/
  owned : ∀ {i}, Owned T S i → Owned T' (FrameSet.rest^[T.missing virt 3] S) i
  /-- Memory changes in the tables only. -/
  mem : ∀ {a}, T'.Avoids a → k'.paging.mem a = k.paging.mem a
  /-- The page table of the address is there. -/
  table : (T' 0 (slot virt 1)).isSome
  /-- The page is mapped to the frame. -/
  mapped : UserMapped k'.paging T' virt phys
  /-- Other pages stay mapped. -/
  kept : ∀ {virt₁ f}, virt₁ / 4096 ≠ virt / 4096 → UserMapped k.paging T virt₁ f →
    UserMapped k'.paging T' virt₁ f

/-- **A successful mapping for ring 3.** -/
lemma Sound.expectUserPage (h : Sound k frames T S) {virt phys flags : ℕ} (hvirt : virt < 2 ^ 48)
    (halign : physFrameSize ∣ phys) (hphys : phys < identityLimit)
    (hflags : flags = 0 ∨ flags = writable)
    (hrun : k.expectUserPage virt phys flags = .ok k') :
    ∃ T', MappedUser k frames T S virt phys k' T' := by
  have h30 := identityLimit_eq
  have hround : phys / 4096 * 4096 = phys := Nat.div_mul_cancel halign
  obtain ⟨⟨k₁, r⟩, hcall, hret⟩ := Exec.bind_eq_ok.mp hrun
  obtain ⟨rfl, rfl⟩ : k₁ = k' ∧ r = .mapped (.ok ()) := by
    rcases r with (e | u) | found
    · cases hret
    · exact ⟨Except.ok.inj hret, rfl⟩
    · cases hret
  obtain ⟨hpaging, hadvance⟩ := h.call_eq hcall
  obtain ⟨s', a⟩ := k₁
  obtain ⟨⟨s₁, r⟩, hmap, hret⟩ := Exec.bind_eq_ok.mp hpaging
  obtain ⟨rfl, hr⟩ := Prod.mk.inj (Except.ok.inj hret)
  obtain rfl := PagingResult.mapped.inj hr
  have hmap := Paging.mapUserPage_ok hmap
  have hallocs := mapInner_allocs h.toShape h.fresh hvirt (by omega) hmap
  obtain ⟨s₂, T', r₁, hmap₁, hmaps, hopen⟩ :=
    mapInner_eq h.toShape h.fresh hvirt (show phys < 2 ^ 64 by omega) flags true
  obtain ⟨rfl, rfl⟩ := Prod.mk.inj (Except.ok.inj (hmap₁.symm.trans hmap))
  have hpageAt := hmaps.pageAt_eq h.fresh h.toShape
  rw [leafPage_leafEntry (by omega) hflags, hround] at hpageAt
  obtain ⟨s₁, hgrows, hshape, hcount⟩ := hmaps.grows h.fresh h.toShape
  obtain ⟨a', hadvance', hsound, howned⟩ := h.grown hgrows hshape hcount
  obtain rfl := Except.ok.inj (hadvance.symm.trans hadvance')
  have hrequests : s₂.allocs - k.paging.allocs = T.missing virt 3 := by omega
  rw [hrequests] at hsound howned
  have hopen := hopen rfl rfl
  cases hmaps with
  | @done s₁ _ t hgrows ht =>
    have hshape₁ := shape_of_grows hgrows h.fresh h.toShape
    -- the entry of the page, and those that were open before
    have huser : ∀ level n, (s₁.setWord t (virt / 4096 % 512) (leafEntry phys flags true)).UserAt
        T' level n ↔ (level = 0 ∧ n = virt / 4096) ∨ s₁.UserAt T' level n := by
      intro level n
      rw [userAt_setWord hshape₁.toPlaced h.fresh ht]
      split_ifs with heq
      · exact iff_of_true ((Guards.userEntry_leafEntry hflags true).mpr rfl) (.inl heq)
      · exact (or_iff_right heq).symm
    refine ⟨T', hsound, howned, fun ha => ?_, ?_, ⟨fun l hl => ?_, ?_⟩,
      fun {virt₁ f} hne hmapped => ⟨fun l hl => ?_, ?_⟩⟩
    · exact (mem_setWord ha ht).trans (mem_of_grows hgrows ha)
    · rw [slot_succ, slot_zero, ht]
      rfl
    · cases l with
      | zero => exact (huser _ _).mpr (.inl ⟨rfl, slot_zero virt⟩)
      | succ l => exact hopen l (by omega)
    · rw [hpageAt, if_pos ⟨rfl, rfl⟩]
    · exact (huser _ _).mpr (.inr (userAt_of_grows hgrows h.fresh h.toShape (hmapped.opened l hl)))
    · rw [hpageAt, if_neg fun hsame => hne hsame.2]
      exact hmapped.page

/-- Bytes outside of the tables stay as they are. -/
lemma MappedUser.byteAt_eq {virt phys a : ℕ} {S' : Finset ℕ}
    (h : MappedUser k frames T S virt phys k' T') (hown : Owned T' S' i)
    (ha : a / physFrameSize = i) :
    Lanes.byteAt k'.paging.mem a = Lanes.byteAt k.paging.mem a := by
  refine Lanes.byteAt_congr (h.mem (hown.avoids h.sound.toPlaced h.sound.fresh ?_))
  rw [← ha, physFrameSize]
  omega

/-! ## The program -/

/-- What taking a frame that has to be there leaves. -/
structure TookFrame (k : Kernel) (T : TableTree) (S : Finset ℕ) (k' : Kernel)
    (frame : PhysFrame) : Prop where
  /-- It is the first free frame. -/
  answer : FrameSet.answer S 0 = some frame.start
  /-- Memory and tables stay as they are. -/
  paging : k'.paging = k.paging
  /-- The other free frames remain. -/
  sound : ∃ frames', Sound k' frames' T (FrameSet.rest S)
  /-- The frame is no longer free, and no table lies in it. -/
  owned : Owned T (FrameSet.rest S) (frame.start / physFrameSize)
  /-- The frame is a frame. -/
  aligned : physFrameSize ∣ frame.start
  /-- The frame lies in the identity map. -/
  low : frame.start < identityLimit

/-- **Taking a frame that has to be there.** -/
lemma Sound.expectFrame (h : Sound k frames T S) {frame : PhysFrame}
    (hrun : k.expectFrame = .ok (k', frame)) : TookFrame k T S k' frame := by
  obtain ⟨⟨k₁, r⟩, halloc, hret⟩ := Exec.bind_eq_ok.mp hrun
  obtain ⟨rfl, hpaging, hsound⟩ := h.alloc halloc
  cases hanswer : FrameSet.answer S 0 with
  | none =>
    rw [hanswer] at hret
    cases hret
  | some f =>
    rw [hanswer] at hret
    obtain ⟨rfl, rfl⟩ := Prod.mk.inj (Except.ok.inj hret)
    obtain ⟨i, hi, rfl, hgone⟩ := FrameSet.answer_spec hanswer
    have hindex : i * physFrameSize / physFrameSize = i := Nat.mul_div_cancel i (by decide)
    refine ⟨hanswer, hpaging, hsound, ?_, Nat.dvd_mul_left _ _, h.low i hi⟩
    rw [hindex]
    refine ⟨hgone, fun ht heq => h.taken ht ?_⟩
    rw [heq]
    exact hi

/-- More requests leave the frames of others to them. -/
lemma Owned.rest (h : Owned T S i) : Owned T (FrameSet.rest S) i :=
  ⟨fun hno => h.used (FrameSet.rest_subset S hno), h.noTable⟩

/-- What ring 3 finds after a program was mapped. -/
structure ProgramMapped (k : Kernel) (T : TableTree) (S : Finset ℕ) (blob : List UInt8)
    (k' : Kernel) (codeFrame stackFrame : PhysFrame) : Prop where
  /-- The code lies in the first free frame. -/
  code : FrameSet.answer S 0 = some codeFrame.start
  /-- The stack lies in the first one behind the frames of the new tables. -/
  stack : FrameSet.answer S (1 + T.missing uvaCode 3) = some stackFrame.start
  /-- Behind the blob the code page is as its frame was. -/
  codeByte : ∀ j < 4096, k'.userByte (uvaCode + j) = .ok (some (if j < blob.length then
    blob.getD j 0 else Lanes.byteAt k.paging.mem (codeFrame.start + j)))
  /-- The stack page is as its frame was. -/
  stackByte : ∀ j < 4096, k'.userByte (uvaStack + j) =
    .ok (some (Lanes.byteAt k.paging.mem (stackFrame.start + j)))

/-- **What ring 3 finds after a program was mapped.** -/
lemma Sound.mapUserProgram (h : Sound k frames T S) {blob : List UInt8}
    (hblob : blob.length ≤ 4096) {codeFrame stackFrame : PhysFrame}
    (hrun : k.mapUserProgram blob = .ok (k', codeFrame, stackFrame)) :
    ProgramMapped k T S blob k' codeFrame stackFrame := by
  have hcode : uvaCode = 0x50000000 := rfl
  have hstack : uvaStack = 0x50100000 := rfl
  have h30 := identityLimit_eq
  obtain ⟨⟨k₁, c⟩, htake, hrun⟩ := Exec.bind_eq_ok.mp hrun
  obtain ⟨k₂, hcopy, hrun⟩ := Exec.bind_eq_ok.mp hrun
  obtain ⟨k₃, hmap, hrun⟩ := Exec.bind_eq_ok.mp hrun
  obtain ⟨⟨k₄, d⟩, htake', hrun⟩ := Exec.bind_eq_ok.mp hrun
  obtain ⟨k₅, hmap', hret⟩ := Exec.bind_eq_ok.mp hrun
  obtain ⟨rfl, hframes⟩ := Prod.mk.inj (Except.ok.inj hret)
  obtain ⟨rfl, rfl⟩ := Prod.mk.inj hframes
  -- the frame of the code, and the blob in it
  have hc := h.expectFrame htake
  obtain ⟨frames₁, h₁⟩ := hc.sound
  obtain ⟨k₂', hcopy', h₂, -, hbytes⟩ := Sound.copyBytes hc.owned blob k₁ c.start h₁ fun j hj => by
    have hdvd := hc.aligned
    have hlow := hc.low
    unfold physFrameSize at *
    omega
  obtain rfl := Except.ok.inj (hcopy.symm.trans hcopy')
  rw [hc.paging] at hbytes
  obtain ⟨T₁, hm⟩ := h₂.expectUserPage (by omega) hc.aligned hc.low (.inl rfl) hmap
  -- the frame of the stack
  have hd := hm.sound.expectFrame htake'
  obtain ⟨frames₂, h₄⟩ := hd.sound
  obtain ⟨T₂, hm'⟩ := h₄.expectUserPage (by omega) hd.aligned hd.low (.inr rfl) hmap'
  have hcode_owned := hm.owned hc.owned
  have hcode_byte : ∀ j < 4096, Lanes.byteAt k₅.paging.mem (c.start + j) =
      Lanes.byteAt k₂.paging.mem (c.start + j) := by
    intro j hj
    have hindex : (c.start + j) / physFrameSize = c.start / physFrameSize := by
      have hdvd := hc.aligned
      unfold physFrameSize at *
      omega
    rw [hm'.byteAt_eq (hm'.owned hcode_owned.rest) hindex, hd.paging,
      hm.byteAt_eq hcode_owned hindex]
  have hstack_byte : ∀ j < 4096, Lanes.byteAt k₅.paging.mem (d.start + j) =
      Lanes.byteAt k.paging.mem (d.start + j) := by
    intro j hj
    have hindex : (d.start + j) / physFrameSize = d.start / physFrameSize := by
      have hdvd := hd.aligned
      unfold physFrameSize at *
      omega
    rw [hm'.byteAt_eq (hm'.owned hd.owned) hindex, hd.paging, hm.byteAt_eq hd.owned hindex,
      hbytes, if_neg]
    -- the frame of the stack was still free when the frame of the code was taken
    rintro ⟨hge, hlt⟩
    obtain ⟨i, hi, hstart, -⟩ := FrameSet.answer_spec hd.answer
    refine hc.owned.used ?_
    have hsame : c.start / physFrameSize = i := by
      have hdvd := hc.aligned
      unfold physFrameSize at *
      omega
    rw [hsame]
    exact FrameSet.iterate_rest_subset _ (Nat.zero_le _) hi
  have hcode_mapped : UserMapped k₅.paging T₂ uvaCode c.start :=
    hm'.kept (by decide) (hd.paging.symm ▸ hm.mapped)
  refine ⟨hc.answer, ?_, fun j hj => ?_, fun j hj => ?_⟩
  · have hanswer := hd.answer
    rwa [FrameSet.answer_add, Nat.add_zero,
      show FrameSet.rest S = FrameSet.rest^[1] S from rfl, FrameSet.answer_add] at hanswer
  · have hoffset : (uvaCode + j) % 4096 = j := by omega
    rw [hm'.sound.userByte_eq (by omega) (by omega) (hcode_mapped.of_page (by decide) hj), hoffset,
      hcode_byte j hj, hbytes, Nat.add_sub_cancel_left]
    exact congrArg (fun b => Except.ok (some b)) (if_congr (by omega) rfl rfl)
  · have hoffset : (uvaStack + j) % 4096 = j := by omega
    rw [hm'.sound.userByte_eq (by omega) (by omega) (hm'.mapped.of_page (by decide) hj), hoffset,
      hstack_byte j hj]

end ZiranOS
