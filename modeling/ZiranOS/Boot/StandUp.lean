import ZiranOS.Frames.SelfTest
import ZiranOS.Lib.Field
import ZiranOS.Usermode.Conservation

/-!
# Standing up the memory

The kernel tests its frame allocator, builds its own tables, tests a mapping of its own and one for
ring 3, and maps its heap.  Each test maps a page, stores to it, reads the frame, unmaps the page
and counts the frames that are gone.  On the account a test is one new page that is taken back, so
the whole follows a sequence on the account, and the account says how many frames it needs
(`standUp_iff`): 263, of which none are left over.
-/

namespace ZiranOS

open ProgLib

/-- The difference of two words. -/
def wrapSub (a b : ℕ) : ℕ := wrapAdd a (2 ^ 64 - b)

/-- The address that the test of mapping uses: the first one above the identity map. -/
def testVirt : ℕ := 0x40000000

/-- The address that the test of mapping for ring 3 uses. -/
def testUva : ℕ := 0x80000000

namespace Paging

/-- Walk from the table of the given level and make sure that ring 3 may pass every entry. -/
def expectUserLevels (s : Paging) (virt : ℕ) : (level table : ℕ) → Exec Unit Unit
  | 0, table => do
    let leaf ← s.readEntry table (tableIndex virt 0)
    Exec.assert (leaf &&& (present ||| user) = present ||| user)
  | level + 1, table => do
    let entry ← s.readEntry table (tableIndex virt (level + 1))
    Exec.assert (entry &&& present ≠ 0)
    Exec.assert (entry &&& user ≠ 0)
    s.expectUserLevels virt level (entry &&& addrMask)

end Paging

namespace Kernel

/-- The byte at a virtual address. -/
def loadByte (k : Kernel) (virt : ℕ) : Exec Unit UInt8 := do
  match ← k.paging.translate virt with
  | some phys => pure (Lanes.byteAt k.paging.mem phys)
  | none => Exec.fail ()

/-- The bytes from a virtual address on. -/
def loadBytes (k : Kernel) (src : ℕ) : ℕ → Exec Unit (List UInt8)
  | 0 => pure []
  | n + 1 => do
    let b ← k.loadByte src
    let bytes ← k.loadBytes (src + 1) n
    pure (b :: bytes)

/-- A page that has to be mapped is unmapped. -/
def expectUnmapped (k : Kernel) (virt : ℕ) : Exec Unit Kernel := do
  match ← k.call (.unmapPage virt) with
  | (k, .unmapped true) => pure k
  | (_, _) => Exec.panic .assertion

/-- The test of mapping: a page above the identity map is the frame that it is mapped to, and two
frames are gone in the end, those of the new tables. -/
def pagingSelfTest (k : Kernel) : Exec Unit Kernel := do
  let sentinel := leField 4 0xDEADBEEF
  let freeBefore := k.allocator.freeFrames
  Exec.assert ((← k.paging.translate testVirt) = none)
  let (k, frame) ← k.expectFrame
  let phys := frame.start
  let k ← k.expectPage testVirt phys writable
  let k ← k.copyBytes testVirt sentinel
  let viaPhys ← k.loadBytes phys 4
  Exec.assert (viaPhys = sentinel)
  Exec.assert ((← k.paging.translate testVirt) = some phys)
  let k ← k.expectUnmapped testVirt
  Exec.assert ((← k.paging.translate testVirt) = none)
  let (k, _) ← k.free frame
  Exec.assert (k.allocator.freeFrames = wrapSub freeBefore 2)
  pure k

/-- The test of mapping for ring 3: in addition, every entry of the walk is open to it. -/
def userMapSelfTest (k : Kernel) : Exec Unit Kernel := do
  let sentinel := leField 4 0x5EEDC0DE
  let freeBefore := k.allocator.freeFrames
  Exec.assert ((← k.paging.translate testUva) = none)
  let (k, frame) ← k.expectFrame
  let phys := frame.start
  let k ← k.expectMapped (.mapUserPage testUva phys writable)
  k.paging.expectUserLevels testUva 3 (k.paging.cr3 &&& addrMask)
  let k ← k.copyBytes testUva sentinel
  let viaPhys ← k.loadBytes phys 4
  Exec.assert (viaPhys = sentinel)
  let k ← k.expectUnmapped testUva
  let (k, _) ← k.free frame
  Exec.assert (k.allocator.freeFrames = wrapSub freeBefore 2)
  pure k

end Kernel

/-- From the frame allocator to the heap. -/
def standUp (mem : ℕ → ℕ) (cr3 : ℕ) (al : FrameAllocator) : Exec Unit Kernel := do
  let al ← al.selfTest
  let k ← (Kernel.atBoot mem cr3 al).init
  let k ← k.pagingSelfTest
  let k ← k.userMapSelfTest
  k.initHeap

/-! ## The same on the account -/

namespace Account

/-- A page is mapped and taken back, and two tables stay. -/
def selfTest (a : Account) (ring : Ring) (virt : ℕ) : Option Account := do
  let (a', frame) ← a.mapFresh ring virt
  if a.missing virt = 2 then some ((a'.unmap virt).release frame.index) else none

/-- From the first tables to the heap. -/
def standUp (F : Finset ℕ) : Option Account := do
  let a ← first F
  let a ← a.selfTest .kernel testVirt
  let a ← a.selfTest .user testUva
  a.initHeap

end Account

/-! ## The tests follow the account -/

/-- The flags of an entry that lets ring 3 through. -/
lemma UserEntry.and_flags {entry : ℕ} (h : UserEntry entry) :
    entry &&& (present ||| user) = present ||| user := by
  have hbit : ∀ i, entry &&& 2 ^ i ≠ 0 → entry &&& 2 ^ i = 2 ^ i := by
    intro i hi
    rw [Nat.and_two_pow] at hi ⊢
    cases hbit : entry.testBit i with
    | false => simp [hbit] at hi
    | true => simp
  have hpresent : entry &&& present = present := hbit 0 h.1
  have huser : entry &&& user = user := hbit 2 h.2
  rw [Nat.and_or_distrib_left, hpresent, huser]

/-- The walk to a page of ring 3 passes every check. -/
lemma Guards.expectUserLevels_eq {frames : ℕ → Option ℕ} {s : Paging} {T : TableTree}
    {rings : RingMap} (h : Guards frames s T rings) (hf : FreshFrames frames) {virt : ℕ}
    (hlow : identityLimit ≤ virt) (huser : rings (virt / 4096) = some .user) :
    ∀ level t, level ≤ 3 → T level (slot virt (level + 1)) = some t →
      s.expectUserLevels virt level t = .ok () := by
  intro level
  induction level with
  | zero =>
    intro t _ ht
    have hpage := (h.page (virt / 4096)).mpr huser
    rw [slot_succ, slot_zero] at ht
    obtain ⟨entry, hentry, hopen⟩ := hpage
    obtain rfl := Option.some.inj ((word_eq ht).symm.trans hentry)
    rw [Paging.expectUserLevels, readEntry_eq h.toShape hf ht, tableIndex_eq, slot_zero,
      Exec.bind_ok, Exec.assert, if_pos hopen.and_flags]
  | succ level ih =>
    intro t hle ht
    obtain ⟨entry, hentry, hpresent, hopen⟩ := h.above virt huser level (by omega)
    have hword := ht
    rw [slot_succ] at hword
    obtain rfl := Option.some.inj ((word_eq hword).symm.trans hentry)
    rw [← tableIndex_eq] at hpresent hopen
    have hpoints := h.points ht (.inr hlow)
    rw [Paging.expectUserLevels, readEntry_eq h.toShape hf ht, Exec.bind_ok,
      Exec.assert_bind hpresent, Exec.assert_bind hopen]
    cases hchild : T level (slot virt (level + 1)) with
    | none =>
      rw [hchild, points_none] at hpoints
      exact absurd hpoints hpresent
    | some g =>
      rw [hchild, points_some] at hpoints
      rw [hpoints.2.2]
      exact ih g (by omega) hchild

namespace Books

variable {F H : Finset ℕ} {k : Kernel} {frames : ℕ → Option ℕ} {T : TableTree} {a : Account}

/-- **Loading bytes** from where the pages lead. -/
lemma loadBytes (h : Books F H k frames T a) : ∀ (n src base : ℕ),
    (∀ j < n, src + j < 2 ^ 48 ∧ a.lookup (src + j) = some (base + j)) →
    k.loadBytes src n =
      .ok ((List.range n).map fun j => Lanes.byteAt k.paging.mem (base + j)) := by
  intro n
  induction n with
  | zero => exact fun _ _ _ => rfl
  | succ n ih =>
    intro src base hplace
    obtain ⟨hvirt, hlookup⟩ := hplace 0 (Nat.succ_pos n)
    rw [Nat.add_zero] at hvirt
    rw [Nat.add_zero, Nat.add_zero] at hlookup
    have hbyte : k.loadByte src = .ok (Lanes.byteAt k.paging.mem base) := by
      rw [Kernel.loadByte, h.translate_eq hvirt, hlookup]
      rfl
    have hrest := ih (src + 1) (base + 1) fun j hj => by
      have hnext := hplace (j + 1) (by omega)
      rwa [Nat.add_comm j 1, ← Nat.add_assoc, ← Nat.add_assoc] at hnext
    rw [Kernel.loadBytes, hbyte, Exec.bind_ok, hrest, Exec.bind_ok, List.range_succ_eq_map,
      List.map_cons, List.map_map]
    refine congrArg (fun l => Except.ok (_ :: l)) (List.map_congr_left fun j _ => ?_)
    simp only [Function.comp_apply]
    rw [Nat.succ_eq_add_one, Nat.add_comm j 1, ← Nat.add_assoc]

/-- **A page is its frame**: what is stored to the page is read from the frame. -/
lemma roundTrip (h : Books F H k frames T a) {virt f : ℕ} {ring : Ring} {bytes : List UInt8}
    (hlow : identityLimit ≤ virt) (hvirt : virt < 2 ^ 47) (haligned : 4096 ∣ virt)
    (hpage : a.pages (virt / 4096) = some (ring, f)) (hlength : bytes.length ≤ 4096) :
    ∃ k', k.copyBytes virt bytes = .ok k' ∧ Books F H k' frames T a ∧
      k'.allocator = k.allocator ∧ k'.loadBytes f bytes.length = .ok bytes := by
  have h30 := identityLimit_eq
  obtain ⟨m, rfl⟩ := haligned
  have hframe := h.page hpage
  have hflow := h.start_lt hframe.aligned hframe.usable
  obtain ⟨q, hq⟩ := hframe.aligned
  rw [physFrameSize] at hq
  obtain ⟨k', hcopy, h', hallocator, hbytes⟩ := Books.copyBytes bytes k (4096 * m) f h
    fun j hj => by
      have hsame : (4096 * m + j) / 4096 = 4096 * m / 4096 := by omega
      have hoffset : (4096 * m + j) % 4096 = j := by omega
      obtain ⟨hstore, hlookup⟩ := Account.storable_page (F := F) (H := H)
        (show identityLimit ≤ 4096 * m + j by omega) (show 4096 * m + j < 2 ^ 48 by omega)
        (hsame ▸ hpage)
      exact ⟨hstore, by rw [hlookup, hoffset]⟩
  refine ⟨k', hcopy, h', hallocator, ?_⟩
  rw [h'.loadBytes bytes.length f f fun j hj => ⟨by omega, if_pos (by omega)⟩]
  refine congrArg Except.ok (List.ext_getElem (by simp) fun j hj hj' => ?_)
  rw [List.getElem_map, List.getElem_range, hbytes, if_pos (by omega), Nat.add_sub_cancel_left,
    List.getD_eq_getElem _ _ hj']

/-- **Taking the only frame in hand back**: the page is unmapped and its frame is free. -/
lemma takeBack (h : Books F ∅ k frames T a) {virt : ℕ} {ring : Ring} {frame : PhysFrame}
    (hlow : identityLimit ≤ virt) (hvirt : virt < 2 ^ 47)
    (hpage : a.pages (virt / 4096) = some (ring, frame.start)) :
    ∃ k₁ k₂, k.expectUnmapped virt = .ok k₁ ∧ k₁.paging.translate virt = .ok none ∧
      k₁.free frame = .ok (k₂, .freed) ∧ k₂.Keeps F ∅ ((a.unmap virt).release frame.index) := by
  obtain ⟨k₁, hrun, frames₁, T₁, h₁⟩ := h.unmap hvirt hpage
  obtain ⟨k₂, hfree, -, hkeeps⟩ := h₁.release (Finset.mem_insert_self frame.index ∅)
  refine ⟨k₁, k₂, ?_, ?_, hfree, ?_⟩
  · rw [Kernel.expectUnmapped, hrun]
    rfl
  · rw [h₁.translate_eq (by omega), Account.lookup, if_neg (not_lt.mpr hlow),
      Account.unmap_pages, if_pos rfl]
    rfl
  · rwa [show frame.start / physFrameSize = frame.index from rfl,
      Finset.erase_insert (Finset.notMem_empty _)] at hkeeps

end Books

/-- The count of free frames in the end. -/
lemma Kernel.Keeps.count_iff {F : Finset ℕ} {k k' : Kernel} {a a' : Account} {ring : Ring}
    {virt : ℕ} {frame : PhysFrame} (h : k.Keeps F ∅ a)
    (hmap : a.mapFresh ring virt = some (a', frame))
    (h' : k'.Keeps F ∅ ((a'.unmap virt).release frame.index)) :
    k'.allocator.freeFrames = wrapSub k.allocator.freeFrames 2 ↔ a.missing virt = 2 := by
  obtain ⟨frames, T, hbooks⟩ := h
  obtain ⟨frames', T', hbooks'⟩ := h'
  have hcount : a.free.card ≤ frameCount := by
    have hsub : a.free ⊆ Finset.range frameCount :=
      fun i hi => Finset.mem_range.mpr (hbooks.refines.below i hi)
    have hle := Finset.card_le_card hsub
    rwa [Finset.card_range] at hle
  have hused : frame.index ∉ a'.free := (Account.mapFresh_free hmap).2.1
  have hend : k'.allocator.freeFrames = a'.free.card + 1 :=
    hbooks'.refines.count.trans (Finset.card_insert_of_notMem hused)
  have hcard := (Account.mapFresh_card hmap).1
  have hsome := frameCount_eq
  rw [hend, hbooks.refines.count, wrapSub, wrapAdd]
  omega

section Tests

variable {F : Finset ℕ} {k : Kernel} {a : Account}

/-- The length of a test pattern. -/
lemma length_sentinel (v : ℕ) : (leField 4 v).length = 4 := by simp [leField]

/-- **The end of a test**: the page is taken back and the frames are counted. -/
lemma Kernel.Keeps.counted {a' : Account} {ring : Ring} {virt : ℕ} {frame : PhysFrame}
    {k₂ k₃ : Kernel} (h : k.Keeps F ∅ a) (hmap : a.mapFresh ring virt = some (a', frame))
    (hfree : k₂.free frame = .ok (k₃, .freed))
    (h₃ : k₃.Keeps F ∅ ((a'.unmap virt).release frame.index)) :
    Follows (Kernel.Keeps F ∅) (do
        let (k', _) ← k₂.free frame
        Exec.assert (k'.allocator.freeFrames = wrapSub k.allocator.freeFrames 2)
        pure k')
      (if a.missing virt = 2 then some ((a'.unmap virt).release frame.index) else none) := by
  have hcount := h.count_iff hmap h₃
  rw [hfree, Exec.bind_ok]
  dsimp only
  rw [Exec.assert]
  split_ifs with hleft hmissing hmissing
  · exact Follows.of_ok h₃
  · exact absurd (hcount.mp hleft) hmissing
  · exact absurd (hcount.mpr hmissing) hleft
  · rfl

/-- **The test of mapping.** -/
lemma Kernel.pagingSelfTest_follows (h : k.Keeps F ∅ a)
    (hpage : a.pages (testVirt / 4096) = none) :
    Follows (Kernel.Keeps F ∅) k.pagingSelfTest (a.selfTest .kernel testVirt) := by
  have hlow : identityLimit ≤ testVirt := by decide
  have hvirt : testVirt < 2 ^ 47 := by decide
  have hunmapped : k.paging.translate testVirt = .ok none := by
    obtain ⟨frames, T, hbooks⟩ := h
    rw [hbooks.translate_eq (by omega), Account.lookup, if_neg (not_lt.mpr hlow), hpage]
    rfl
  have hsplit : k.pagingSelfTest = (do
      Exec.assert ((← k.paging.translate testVirt) = none)
      let (k', frame) ← k.expectFrame
      let k' ← (pure k' : Exec Unit Kernel)
      let k' ← k'.expectMapped (Ring.kernel.mapping testVirt frame.start writable)
      (do
        let k' ← k'.copyBytes testVirt (leField 4 0xDEADBEEF)
        let viaPhys ← k'.loadBytes frame.start 4
        Exec.assert (viaPhys = leField 4 0xDEADBEEF)
        Exec.assert ((← k'.paging.translate testVirt) = some frame.start)
        let k' ← k'.expectUnmapped testVirt
        Exec.assert ((← k'.paging.translate testVirt) = none)
        let (k', _) ← k'.free frame
        Exec.assert (k'.allocator.freeFrames = wrapSub k.allocator.freeFrames 2)
        pure k')) := rfl
  rw [hsplit, hunmapped, Exec.bind_ok, Exec.assert_bind rfl, Account.selfTest]
  refine h.mapFresh .kernel hlow hvirt (.inr rfl) hpage (fun k _ => pure k) fill_nothing
    (fun k' frame => do
      let k' ← k'.copyBytes testVirt (leField 4 0xDEADBEEF)
      let viaPhys ← k'.loadBytes frame.start 4
      Exec.assert (viaPhys = leField 4 0xDEADBEEF)
      Exec.assert ((← k'.paging.translate testVirt) = some frame.start)
      let k' ← k'.expectUnmapped testVirt
      Exec.assert ((← k'.paging.translate testVirt) = none)
      let (k', _) ← k'.free frame
      Exec.assert (k'.allocator.freeFrames = wrapSub k.allocator.freeFrames 2)
      pure k')
    (fun x => if a.missing testVirt = 2 then some ((x.1.unmap testVirt).release x.2.index)
      else none) ?_
  rintro k₁ a' frame hmap ⟨frames, T, h₁⟩
  have hpage' : a'.pages (testVirt / 4096) = some (.kernel, frame.start) := by
    rw [Account.mapFresh_pages hmap, if_pos rfl]
  obtain ⟨k₂, hcopy, h₂, -, hload⟩ := h₁.roundTrip hlow hvirt (by decide) hpage'
    ((length_sentinel 0xDEADBEEF).trans_le (by norm_num))
  rw [length_sentinel] at hload
  obtain ⟨k₃, k₄, hunmap, hnone, hfree, h₄⟩ := h₂.takeBack hlow hvirt hpage'
  have htranslate : k₂.paging.translate testVirt = .ok (some frame.start) := by
    rw [h₂.translate_eq (by omega), Account.lookup, if_neg (not_lt.mpr hlow), hpage']
    rfl
  dsimp only
  rw [hcopy, Exec.bind_ok, hload, Exec.bind_ok, Exec.assert_bind rfl, htranslate, Exec.bind_ok,
    Exec.assert_bind rfl, hunmap, Exec.bind_ok, hnone, Exec.bind_ok, Exec.assert_bind rfl]
  exact h.counted hmap hfree h₄

/-- **The test of mapping for ring 3.** -/
lemma Kernel.userMapSelfTest_follows (h : k.Keeps F ∅ a)
    (hpage : a.pages (testUva / 4096) = none) :
    Follows (Kernel.Keeps F ∅) k.userMapSelfTest (a.selfTest .user testUva) := by
  have hlow : identityLimit ≤ testUva := by decide
  have hvirt : testUva < 2 ^ 47 := by decide
  have hunmapped : k.paging.translate testUva = .ok none := by
    obtain ⟨frames, T, hbooks⟩ := h
    rw [hbooks.translate_eq (by omega), Account.lookup, if_neg (not_lt.mpr hlow), hpage]
    rfl
  have hsplit : k.userMapSelfTest = (do
      Exec.assert ((← k.paging.translate testUva) = none)
      let (k', frame) ← k.expectFrame
      let k' ← (pure k' : Exec Unit Kernel)
      let k' ← k'.expectMapped (Ring.user.mapping testUva frame.start writable)
      (do
        k'.paging.expectUserLevels testUva 3 (k'.paging.cr3 &&& addrMask)
        let k' ← k'.copyBytes testUva (leField 4 0x5EEDC0DE)
        let viaPhys ← k'.loadBytes frame.start 4
        Exec.assert (viaPhys = leField 4 0x5EEDC0DE)
        let k' ← k'.expectUnmapped testUva
        let (k', _) ← k'.free frame
        Exec.assert (k'.allocator.freeFrames = wrapSub k.allocator.freeFrames 2)
        pure k')) := rfl
  rw [hsplit, hunmapped, Exec.bind_ok, Exec.assert_bind rfl, Account.selfTest]
  refine h.mapFresh .user hlow hvirt (.inr rfl) hpage (fun k _ => pure k) fill_nothing
    (fun k' frame => do
      k'.paging.expectUserLevels testUva 3 (k'.paging.cr3 &&& addrMask)
      let k' ← k'.copyBytes testUva (leField 4 0x5EEDC0DE)
      let viaPhys ← k'.loadBytes frame.start 4
      Exec.assert (viaPhys = leField 4 0x5EEDC0DE)
      let k' ← k'.expectUnmapped testUva
      let (k', _) ← k'.free frame
      Exec.assert (k'.allocator.freeFrames = wrapSub k.allocator.freeFrames 2)
      pure k')
    (fun x => if a.missing testUva = 2 then some ((x.1.unmap testUva).release x.2.index)
      else none) ?_
  rintro k₁ a' frame hmap ⟨frames, T, h₁⟩
  have hpage' : a'.pages (testUva / 4096) = some (.user, frame.start) := by
    rw [Account.mapFresh_pages hmap, if_pos rfl]
  have hwalk := h₁.guards.expectUserLevels_eq h₁.fresh hlow (by rw [hpage']; rfl) 3 _ le_rfl
    (h₁.root_slot (by omega))
  obtain ⟨k₂, hcopy, h₂, -, hload⟩ := h₁.roundTrip hlow hvirt (by decide) hpage'
    ((length_sentinel 0x5EEDC0DE).trans_le (by norm_num))
  rw [length_sentinel] at hload
  obtain ⟨k₃, k₄, hunmap, -, hfree, h₄⟩ := h₂.takeBack hlow hvirt hpage'
  dsimp only
  rw [hwalk, Exec.bind_ok, hcopy, Exec.bind_ok, hload, Exec.bind_ok, Exec.assert_bind rfl, hunmap,
    Exec.bind_ok]
  exact h.counted hmap hfree h₄

end Tests

/-! ## Counting on the account -/

namespace Account

variable {a a' : Account} {ring : Ring} {virt : ℕ}

/-- A test of a page in a new part of the address space costs two frames, and needs three. -/
lemma selfTest_eq (ring : Ring) (virt : ℕ) (hmissing : a.missing virt = 2)
    (hpage : a.pages (virt / 4096) = none) :
    if 3 ≤ a.free.card then
      ∃ a', a.selfTest ring virt = some a' ∧ a'.free.card + 2 = a.free.card ∧
        a'.tables = a.tables ∪ walkTables virt ∧ a'.pages = a.pages
    else a.selfTest ring virt = none := by
  have hsome := mapFresh_isSome a ring virt
  rw [Account.selfTest]
  cases hmap : a.mapFresh ring virt with
  | none =>
    rw [hmap] at hsome
    rw [if_neg fun h => absurd (hsome.mpr (by omega)) Bool.false_ne_true]
    rfl
  | some x =>
    obtain ⟨a₁, frame⟩ := x
    rw [hmap] at hsome
    have hthree := hsome.mp rfl
    obtain ⟨hcard, htables⟩ := mapFresh_card hmap
    refine (if_pos (show 3 ≤ a.free.card by omega)).mpr ⟨_, if_pos hmissing, ?_, htables, ?_⟩
    · have hinsert := Finset.card_insert_of_notMem (mapFresh_free hmap).2.1
      show (insert frame.index a₁.free).card + 2 = _
      omega
    · funext n
      show (a₁.unmap virt).pages n = a.pages n
      rw [unmap_pages, mapFresh_pages hmap]
      split_ifs with hn
      · rw [hn, hpage]
      · rfl

/-- A page whose tables are there needs one frame. -/
lemma mapHeapPage_eq (htables : walkTables virt ⊆ a.tables) :
    if 1 ≤ a.free.card then
      ∃ a', a.mapHeapPage virt = some a' ∧ a'.free.card + 1 = a.free.card ∧ a'.tables = a.tables
    else a.mapHeapPage virt = none := by
  have hmissing : a.missing virt = 0 := by
    rw [missing, Finset.sdiff_eq_empty_iff_subset.mpr htables, Finset.card_empty]
  have hsome := mapFresh_isSome a .kernel virt
  rw [Account.mapHeapPage]
  cases hmap : a.mapFresh .kernel virt with
  | none =>
    rw [hmap] at hsome
    rw [if_neg fun h => absurd (hsome.mpr (by omega)) Bool.false_ne_true]
    rfl
  | some x =>
    rw [hmap] at hsome
    have hone := hsome.mp rfl
    obtain ⟨hcard, hunion⟩ := mapFresh_card hmap
    refine (if_pos (show 1 ≤ a.free.card by omega)).mpr ⟨x.1, rfl, by omega, ?_⟩
    rw [hunion, Finset.union_eq_left.mpr htables]

/-- **The pages of the heap need a frame each**, if their tables are there. -/
lemma initHeap_eq (htables : ∀ i < 256, walkTables (heapBase + i * frameSize) ⊆ a.tables) :
    if 256 ≤ a.free.card then
      ∃ a', a.initHeap = some a' ∧ a'.free.card + 256 = a.free.card ∧ a'.tables = a.tables
    else a.initHeap = none := by
  have hcount : heapSize / frameSize = 256 := by decide
  rw [initHeap, hcount]
  have hloop : ∀ n ≤ 256, if n ≤ a.free.card then
      ∃ a', (List.range n).foldlM (fun a i => a.mapHeapPage (heapBase + i * frameSize)) a =
        some a' ∧ a'.free.card + n = a.free.card ∧ a'.tables = a.tables
      else (List.range n).foldlM (fun a i => a.mapHeapPage (heapBase + i * frameSize)) a =
        none := by
    intro n
    induction n with
    | zero => exact fun _ => (if_pos (Nat.zero_le _)).mpr ⟨a, rfl, rfl, rfl⟩
    | succ n ih =>
      intro hn
      have hprefix := ih (by omega)
      rw [List.range_succ, List.foldlM_append]
      by_cases hle : n ≤ a.free.card
      · rw [if_pos hle] at hprefix
        obtain ⟨a₁, hrun, hcard, hsame⟩ := hprefix
        have hlast := mapHeapPage_eq (hsame ▸ htables n (by omega))
        rw [hrun]
        by_cases hone : 1 ≤ a₁.free.card
        · rw [if_pos hone] at hlast
          obtain ⟨a₂, hrun₂, hcard₂, hsame₂⟩ := hlast
          refine (if_pos (show n + 1 ≤ a.free.card by omega)).mpr
            ⟨a₂, ?_, by omega, hsame₂.trans hsame⟩
          rw [Option.bind_eq_bind, Option.bind_some, List.foldlM_cons, hrun₂]
          rfl
        · rw [if_neg hone] at hlast
          rw [if_neg (show ¬ n + 1 ≤ a.free.card by omega), Option.bind_eq_bind,
            Option.bind_some, List.foldlM_cons, hlast]
          rfl
      · rw [if_neg hle] at hprefix
        rw [if_neg (show ¬ n + 1 ≤ a.free.card by omega), hprefix]
        rfl
  exact hloop 256 le_rfl

/-- The first account. -/
lemma first_eq {F : Finset ℕ} (h : 3 ≤ F.card) : ∃ a, first F = some a ∧
    a.free.card + 3 = F.card ∧ a.tables = {(3, 0), (2, 0), (1, 0)} ∧ ∀ n, a.pages n = none := by
  have hcard := FrameSet.card_iterate_rest F 3
  rw [first, if_pos h]
  generalize FrameSet.rest^[3] F = R at hcard ⊢
  exact ⟨_, rfl, by dsimp only; omega, rfl, fun _ => rfl⟩

/-- The parts of the walk to a page of the heap. -/
lemma walkTables_heap {i : ℕ} (hi : i < 256) :
    walkTables (heapBase + i * frameSize) = {(0, 512), (1, 1), (2, 0)} := by
  have haddr : heapBase + i * frameSize = 0x40000000 + i * 4096 := rfl
  have h1 : slot (heapBase + i * frameSize) 1 = 512 := by rw [slot, haddr]; omega
  have h2 : slot (heapBase + i * frameSize) 2 = 1 := by rw [slot, haddr]; omega
  have h3 : slot (heapBase + i * frameSize) 3 = 0 := by rw [slot, haddr]; omega
  rw [walkTables, h1, h2, h3]

/-- **263 frames are needed and used.** -/
lemma standUp_eq (F : Finset ℕ) :
    if 263 ≤ F.card then ∃ a, standUp F = some a ∧ a.free.card + 263 = F.card ∧
      a.tables = {(3, 0), (2, 0), (1, 0)} ∪ walkTables testVirt ∪ walkTables testUva
    else standUp F = none := by
  by_cases hthree : 3 ≤ F.card
  swap
  · rw [if_neg (show ¬ 263 ≤ F.card by omega), standUp, first, if_neg hthree]
    rfl
  obtain ⟨a₀, hfirst, hcard₀, htables₀, hpages₀⟩ := first_eq hthree
  -- the test of mapping, in the second GiB
  have htest₁ := selfTest_eq .kernel testVirt
    (show a₀.missing testVirt = 2 by rw [missing, htables₀]; decide) (hpages₀ _)
  by_cases hsix : 3 ≤ a₀.free.card
  swap
  · rw [if_neg hsix] at htest₁
    rw [if_neg (show ¬ 263 ≤ F.card by omega), standUp, hfirst, Option.bind_eq_bind,
      Option.bind_some, htest₁]
    rfl
  rw [if_pos hsix] at htest₁
  obtain ⟨a₁, htest₁, hcard₁, htables₁, hpages₁⟩ := htest₁
  -- the test for ring 3, in the third
  have htest₂ := selfTest_eq .user testUva
    (show a₁.missing testUva = 2 by rw [missing, htables₁, htables₀]; decide)
    (show a₁.pages _ = none by rw [hpages₁, hpages₀])
  by_cases height : 3 ≤ a₁.free.card
  swap
  · rw [if_neg height] at htest₂
    rw [if_neg (show ¬ 263 ≤ F.card by omega), standUp, hfirst, Option.bind_eq_bind,
      Option.bind_some, htest₁, Option.bind_some, htest₂]
    rfl
  rw [if_pos height] at htest₂
  obtain ⟨a₂, htest₂, hcard₂, htables₂, -⟩ := htest₂
  -- the heap has the tables of the first test
  have hheap := initHeap_eq (a := a₂) fun i hi => by
    rw [walkTables_heap hi, htables₂, htables₁, htables₀]
    decide
  rw [standUp, hfirst, Option.bind_eq_bind, Option.bind_some, htest₁,
    Option.bind_some, htest₂, Option.bind_some]
  by_cases hall : 256 ≤ a₂.free.card
  · rw [if_pos hall] at hheap
    obtain ⟨a, hrun, hcard, htables⟩ := hheap
    exact (if_pos (show 263 ≤ F.card by omega)).mpr
      ⟨a, hrun, by omega, by rw [htables, htables₂, htables₁, htables₀]⟩
  · rw [if_neg hall] at hheap
    rw [if_neg (show ¬ 263 ≤ F.card by omega), hheap]

/-- A test changes no page. -/
lemma selfTest_pages (h : a.selfTest ring virt = some a') (hpage : a.pages (virt / 4096) = none) :
    a'.pages = a.pages := by
  obtain ⟨⟨a₁, frame⟩, hmap, hret⟩ := Option.bind_eq_some_iff.mp h
  dsimp only at hret
  split_ifs at hret
  obtain rfl := Option.some.inj hret
  funext n
  show (a₁.unmap virt).pages n = a.pages n
  rw [unmap_pages, mapFresh_pages hmap]
  split_ifs with hn
  · rw [hn, hpage]
  · rfl

end Account

/-! ## The whole -/

/-- Only the heap is mapped. -/
lemma MemoryUse.rings_heap (k : Kernel) (n : ℕ) :
    MemoryUse.rings ⟨k, true, false, none⟩ n = if HeapPage n then some .kernel else none := by
  simp only [MemoryUse.rings, Option.map_none, Bool.false_eq_true, if_false, if_true, ite_self]

/-- What `init` reports is what is free. -/
lemma report_of_init {regions : Option (List MemoryRegion)} {kernelStart kernelEnd : ℕ}
    {bootInfo : ℕ × ℕ} {al : FrameAllocator} {report : InitReport}
    (h : FrameAllocator.init regions kernelStart kernelEnd bootInfo = .ok (al, report)) :
    report.freeFrames = al.freeFrames := by
  cases regions with
  | none => cases h
  | some regions =>
    obtain ⟨p, -, h⟩ := Exec.bind_eq_ok.mp h
    dsimp only at h
    split_ifs at h
    · obtain ⟨a₁, -, h⟩ := Exec.bind_eq_ok.mp h
      obtain ⟨a₂, -, h⟩ := Exec.bind_eq_ok.mp h
      obtain ⟨a₃, -, hret⟩ := Exec.bind_eq_ok.mp h
      obtain ⟨rfl, rfl⟩ := Prod.mk.inj (Except.ok.inj hret)
      rfl
    · cases h

/-- **Standing up the memory follows the account.** -/
lemma standUp_follows {F : Finset ℕ} (mem : ℕ → ℕ) (cr3 : ℕ) {al : FrameAllocator}
    (hrefines : Refines al F) (hlow : ∀ i ∈ F, i * physFrameSize < identityLimit) :
    Follows (fun k a => MemoryUse.Fits F ⟨k, true, false, none⟩ a) (standUp mem cr3 al)
      (Account.standUp F) := by
  have htest := hrefines.selfTest_eq
  by_cases hcard : 3 ≤ F.card
  swap
  · rw [if_neg hcard] at htest
    rw [standUp, htest, Account.standUp, Account.first, if_neg hcard]
    rfl
  rw [if_pos hcard] at htest
  obtain ⟨al', hrun, hrefines'⟩ := htest
  rw [standUp, hrun, Exec.bind_ok, Account.standUp]
  refine (Kernel.init_follows mem cr3 hrefines' hlow).bind fun k₀ a₀ hfirst h₀ => ?_
  have hpages₀ := Account.first_pages hfirst
  refine (Kernel.pagingSelfTest_follows h₀ (hpages₀ _)).bind fun k₁ a₁ htest₁ h₁ => ?_
  have hpages₁ := Account.selfTest_pages htest₁ (hpages₀ _)
  refine (Kernel.userMapSelfTest_follows h₁ (by rw [hpages₁, hpages₀])).bind
    fun k₂ a₂ htest₂ h₂ => ?_
  have hpages₂ := Account.selfTest_pages htest₂ (by rw [hpages₁, hpages₀])
  have hnone : ∀ n, a₂.pages n = none := fun n => by rw [hpages₂, hpages₁, hpages₀]
  refine (Kernel.initHeap_follows h₂ fun n _ => hnone n).mono fun k a _ h =>
    ⟨h.keeps, ?_, fun _ hsome => absurd hsome (Option.some_ne_none _).symm⟩
  intro n
  by_cases hn : HeapPage n
  · rw [h.inside n hn, MemoryUse.rings_heap, if_pos hn]
  · rw [h.outside n hn, hnone, MemoryUse.rings_heap, if_neg hn]
    rfl

/-- **The memory stands up exactly on 263 frames.**  Let the kernel boot on any memory map whose
usable memory lies below 1 GiB.  With at least 263 free frames the self-test of the frame allocator,
the first tables, the two tests of mapping and the mapping of the heap all succeed, whatever memory
holds; then 263 frames less are free, each frame has one use, and above the identity map the pages
of the heap are mapped and no other, none of them for ring 3.  With fewer frames the kernel
panics. -/
theorem standUp_iff (regions : List MemoryRegion) (kernelStart kernelEnd : ℕ)
    (bootInfo : ℕ × ℕ) (al : FrameAllocator) (report : InitReport)
    (hframes : FrameAllocator.init (some regions) kernelStart kernelEnd bootInfo =
      .ok (al, report))
    (hlow : ∀ i ∈ freeFrames regions kernelStart kernelEnd bootInfo,
      i * physFrameSize < identityLimit)
    (mem : ℕ → ℕ) (cr3 : ℕ) :
    if 263 ≤ report.freeFrames then
      ∃ k, standUp mem cr3 al = .ok k ∧ k.allocator.freeFrames + 263 = report.freeFrames ∧
        (∀ i ∈ freeFrames regions kernelStart kernelEnd bootInfo, ∃! u, k.Uses i u) ∧
        ∀ virt, identityLimit ≤ virt → virt < 2 ^ 48 →
          (∃ p, k.paging.translate virt = .ok p ∧
            (p.isSome ↔ heapBase ≤ virt ∧ virt < heapBase + heapSize)) ∧
          k.paging.pageUserAccessible virt = .ok false
    else standUp mem cr3 al = Exec.panic .assertion := by
  have hrefines := refines_of_init hframes
  have hreport : report.freeFrames = (freeFrames regions kernelStart kernelEnd bootInfo).card := by
    rw [report_of_init hframes, hrefines.count]
  rw [hreport]
  generalize freeFrames regions kernelStart kernelEnd bootInfo = F at *
  have hfollows := standUp_follows mem cr3 hrefines hlow
  have hcount := Account.standUp_eq F
  split_ifs at hcount ⊢
  · obtain ⟨a, ha, hcard, -⟩ := hcount
    rw [ha] at hfollows
    obtain ⟨k, hrun, hfits⟩ := hfollows
    obtain ⟨hone, -, hpages⟩ := hfits.conserved
    refine ⟨k, hrun, ?_, hone, fun virt hid hvirt => ?_⟩
    · obtain ⟨frames, T, hbooks⟩ := hfits.keeps
      rw [hbooks.refines.count, hcard]
    · obtain ⟨⟨p, htranslate, hsome⟩, huser⟩ := hpages virt hid hvirt
      have hrings := MemoryUse.rings_heap k (virt / 4096)
      have hheap : HeapPage (virt / 4096) ↔ heapBase ≤ virt ∧ virt < heapBase + heapSize := by
        rw [HeapPage, show heapBase = 0x40000000 from rfl, show heapSize = 0x100000 from rfl]
        omega
      rw [hrings] at hsome huser
      refine ⟨⟨p, htranslate, ?_⟩, ?_⟩
      · rw [hsome, ← hheap]
        split_ifs with hn <;> simp [hn]
      · rw [huser]
        split_ifs <;> rfl
  · rw [hcount] at hfollows
    exact hfollows

/-! ### A sample machine -/

/-- The free frames of a memory map with one region. -/
lemma freeFrames_region {start n : ℕ} (hstart : 0 < start) (hend : start + n ≤ frameCount) :
    freeFrames [⟨start * 4096, n * 4096, memoryKindUsable⟩] 0 0 (0, 0) =
      Finset.Ico start (start + n) := by
  have hzero : (0 : ℕ) < 2 ^ 63 := by norm_num
  ext i
  simp only [freeFrames, usableFrames, Finset.mem_filter, Finset.mem_range, Finset.mem_Ico,
    reserved_iff hzero, Overlaps, List.mem_singleton, exists_eq_left, MemoryRegion.Covers,
    true_and]
  omega

/-- A memory map with 263 usable frames. -/
def exactRegions : List MemoryRegion := [⟨0x100 * 4096, 263 * 4096, memoryKindUsable⟩]

/-- All of them are free. -/
lemma freeFrames_exactRegions : freeFrames exactRegions 0 0 (0, 0) = Finset.Ico 0x100 0x207 :=
  freeFrames_region (by norm_num) (by rw [frameCount_eq]; norm_num)

/-- The sample machine stands up its memory and has no frame left. -/
theorem standUp_iff_exactRegions : ∃ al report k,
    FrameAllocator.init (some exactRegions) 0 0 (0, 0) = .ok (al, report) ∧
      report.freeFrames = 263 ∧ standUp (fun _ => 0) 0 al = .ok k ∧
      k.allocator.freeFrames = 0 ∧ k.paging.pageUserAccessible testUva = .ok false := by
  have hfree := freeFrames_exactRegions
  have hmem : 0x100 ∈ freeFrames exactRegions 0 0 (0, 0) := by
    rw [hfree]
    decide
  have husable : (usableFrames exactRegions).Nonempty := ⟨0x100, (Finset.mem_filter.mp hmem).1⟩
  obtain ⟨al, report, hinit, hrefines, -⟩ := init_refines husable 0 0 (0, 0)
  have hlow : ∀ i ∈ freeFrames exactRegions 0 0 (0, 0), i * physFrameSize < identityLimit := by
    intro i hi
    have h30 := identityLimit_eq
    rw [hfree, Finset.mem_Ico] at hi
    rw [physFrameSize]
    omega
  have hreport : report.freeFrames = 263 := by
    rw [report_of_init hinit, hrefines.count, hfree, Nat.card_Ico]
  have hstand := standUp_iff exactRegions 0 0 (0, 0) al report hinit hlow (fun _ => 0) 0
  rw [if_pos hreport.ge, hreport] at hstand
  obtain ⟨k, hrun, hcount, -, hpages⟩ := hstand
  exact ⟨al, report, k, hinit, hreport, hrun, by omega,
    (hpages testUva (by decide) (by decide)).2⟩

end ZiranOS
