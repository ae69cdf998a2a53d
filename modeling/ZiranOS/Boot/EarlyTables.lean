import ZiranOS.Boot.Start
import ZiranOS.Paging.Walk

/-!
# The tables of the boot code

`IdentityTables` is what the boot code leaves in the zeroed part of the image
(`setUpPageTables_spec`), and `translate_of_identityTables` what a page walk makes of it: the
identity map of the first 1 GiB.  With the checks of `Boot/Start` that tells what the entry of the
image comes to on any processor, `start_spec`.
-/

namespace ZiranOS

open ProgLib

/-! ## The tables -/

section Tables

variable {img : StartImage} {s : StartCpu}

/-- The tables and the stack lie below the end of the identity map. -/
lemma flat_add (img : StartImage) {k : ℕ} (hk : k ≤ 0x7000) :
    flat (img.pageTableL4 + BitVec.ofNat 32 k) = flat img.pageTableL4 + BitVec.ofNat 64 k := by
  have hlow := img.low
  apply BitVec.eq_of_toNat_eq
  simp only [flat, BitVec.toNat_setWidth, BitVec.toNat_add, BitVec.toNat_ofNat]
  omega

/-- The entry that the loop computes. -/
lemma toNat_entry {i : ℕ} (hi : i < 512) :
    (((0x200000 : BitVec 32).setWidth 64 * (BitVec.ofNat 32 i).setWidth 64).setWidth 32 |||
      0b10000011 : BitVec 32).toNat = Paging.identityEntry i := by
  have h21 : (0x200000 : BitVec 32).toNat = 0x200000 := rfl
  have hprod : ((0x200000 : BitVec 32).setWidth 64 * (BitVec.ofNat 32 i).setWidth 64).setWidth 32 =
      BitVec.ofNat 32 (i * 0x200000) := by
    apply BitVec.eq_of_toNat_eq
    simp only [BitVec.toNat_setWidth, BitVec.toNat_mul, BitVec.toNat_ofNat, h21]
    omega
  have hmod : i * 0x200000 % 2 ^ 32 = i * 0x200000 := Nat.mod_eq_of_lt (by omega)
  rw [hprod, BitVec.toNat_or, BitVec.toNat_ofNat, hmod, Paging.identityEntry, Nat.or_assoc,
    Nat.or_assoc]
  rfl

/-- The address of an entry of the page directory. -/
def StartImage.p2Entry (img : StartImage) (i : ℕ) : Word :=
  flat img.pageTableL4 + BitVec.ofNat 64 (0x2000 + 8 * i)

/-- One pass of the loop fills the low half of an entry. -/
lemma mapP2Entry_spec (img : StartImage) {i : ℕ} (hi : i < 512) (hecx : s.ecx = BitVec.ofNat 32 i) :
    (mapP2Entry img s).ecx = BitVec.ofNat 32 (i + 1) ∧ s.SameControl (mapP2Entry img s) ∧
      ∃ entry : BitVec 32, entry.toNat = Paging.identityEntry i ∧
        (mapP2Entry img s).mem = s.mem.write32 (img.p2Entry i) entry := by
  have haddr : flat (img.pageTableL2 + BitVec.ofNat 32 i * 8) = img.p2Entry i := by
    have hsum : img.pageTableL2 + BitVec.ofNat 32 i * 8 =
        img.pageTableL4 + BitVec.ofNat 32 (0x2000 + 8 * i) := by
      rw [StartImage.pageTableL2]
      bv_omega
    rw [hsum, flat_add img (by omega), StartImage.p2Entry]
  refine ⟨?_, ⟨rfl, rfl, rfl, rfl, rfl, rfl, rfl⟩, _, toNat_entry hi, ?_⟩
  · show s.ecx + 1 = _
    rw [hecx, BitVec.ofNat_add]
    rfl
  · show s.mem.write32 (flat (img.pageTableL2 + s.ecx * 8))
      (((0x200000 : BitVec 32).setWidth 64 * s.ecx.setWidth 64).setWidth 32 ||| 0b10000011) = _
    rw [hecx, haddr]

/-- A store to an entry leaves the later ones. -/
lemma read32_p2Entry {m : Memory} {i j : ℕ} (hij : i < j) (hj : j < 512) (v : BitVec 32) :
    (m.write32 (img.p2Entry i) v).read32 (img.p2Entry j + 4) =
      m.read32 (img.p2Entry j + 4) := by
  have hadd : img.p2Entry j + 4 = flat img.pageTableL4 + BitVec.ofNat 64 (0x2000 + 8 * j + 4) := by
    rw [StartImage.p2Entry, BitVec.add_assoc, BitVec.ofNat_add (0x2000 + 8 * j)]
    rfl
  rw [hadd]
  have hdisjoint := span_add_add_disjoint (a := flat img.pageTableL4) (k := 0x2000 + 8 * i) (n := 4)
    (l := 0x2000 + 8 * j + 4) (p := 4) (by omega) (by omega)
  exact Memory.read32_congr (Memory.eqOn_write32 hdisjoint.symm)

/-- The loop fills the entries that are left, and writes nothing else. -/
lemma mapP2_spec (img : StartImage) : ∀ (k i fuel : ℕ) (s : StartCpu), i + k + 1 = 512 → k < fuel →
    s.ecx = BitVec.ofNat 32 i → ∃ s', mapP2 img fuel s = .ok s' ∧ s.SameControl s' ∧
      (∀ j, i ≤ j → j < 512 → ∃ entry : BitVec 32, entry.toNat = Paging.identityEntry j ∧
        s'.mem.read64 (img.p2Entry j) = s.mem.read32 (img.p2Entry j + 4) ++ entry) ∧
      Set.EqOn s'.mem s.mem (Compl.compl (span (img.p2Entry i) (8 * (k + 1)))) := by
  intro k
  induction k with
  | zero =>
    intro i fuel s hik hfuel hecx
    obtain ⟨fuel, rfl⟩ := Nat.exists_eq_succ_of_ne_zero hfuel.ne'
    obtain ⟨hnext, hsame, entry, hentry, hmem⟩ := mapP2Entry_spec img (by omega) hecx
    refine ⟨mapP2Entry img s, ?_, hsame, fun j hij hj => ?_, ?_⟩
    · rw [mapP2, hnext, if_neg (by simp [show i + 1 = 512 by omega])]
    · obtain rfl : j = i := by omega
      exact ⟨entry, hentry, by rw [hmem, Memory.read64_write32]⟩
    · rw [hmem]
      refine Memory.eqOn_write32 (disjoint_compl_left.mono_right ?_)
      simpa using span_add_subset (a := img.p2Entry i) (k := 0) (n := 4) (l := 8) (by omega)
  | succ k ih =>
    intro i fuel s hik hfuel hecx
    obtain ⟨fuel, rfl⟩ := Nat.exists_eq_succ_of_ne_zero (Nat.ne_zero_of_lt hfuel)
    obtain ⟨hnext, hsame, entry, hentry, hmem⟩ := mapP2Entry_spec img (by omega) hecx
    obtain ⟨s', hrun, hsame', hfilled, hframe⟩ :=
      ih (i + 1) fuel (mapP2Entry img s) (by omega) (by omega) hnext
    have hp2 : img.p2Entry (i + 1) = img.p2Entry i + BitVec.ofNat 64 8 := by
      rw [StartImage.p2Entry, StartImage.p2Entry]
      bv_omega
    have hne : BitVec.ofNat 32 (i + 1) ≠ 512 := by
      intro heq
      have h512 : (512 : BitVec 32).toNat = 512 := rfl
      have htoNat := congrArg BitVec.toNat heq
      rw [h512, BitVec.toNat_ofNat] at htoNat
      omega
    refine ⟨s', ?_, hsame.trans hsame', fun j hij hj => ?_, ?_⟩
    · rw [mapP2, hnext, if_pos hne, hrun]
    · rcases hij.eq_or_lt with rfl | hlt
      · refine ⟨entry, hentry, ?_⟩
        rw [Memory.read64_congr (hframe.mono ?_), hmem, Memory.read64_write32]
        rw [hp2]
        exact Set.subset_compl_iff_disjoint_right.mpr (span_add_disjoint (by omega))
      · obtain ⟨e, he, hread⟩ := hfilled j hlt hj
        exact ⟨e, he, by rw [hread, hmem, read32_p2Entry hlt hj]⟩
    · refine (hframe.mono (Set.compl_subset_compl.mpr ?_)).trans ?_
      · rw [hp2]
        exact span_add_subset (by omega)
      · rw [hmem]
        refine Memory.eqOn_write32 (disjoint_compl_left.mono_right ?_)
        simpa using span_add_subset (a := img.p2Entry i) (k := 0) (n := 4) (l := 8 * (k + 1 + 1))
          (by omega)

/-- What the code leaves in the tables. -/
structure IdentityTables (img : StartImage) (m : Memory) : Prop where
  /-- The first entry of the root points to the next table, the others are not present. -/
  l4 : ∀ i < 512, (m.read64 (flat img.pageTableL4 + BitVec.ofNat 64 (8 * i))).toNat =
    if i = 0 then (img.pageTableL4.toNat + 0x1000) ||| present ||| writable else 0
  /-- So does the first entry of that table. -/
  l3 : ∀ i < 512, (m.read64 (flat img.pageTableL4 + BitVec.ofNat 64 (0x1000 + 8 * i))).toNat =
    if i = 0 then (img.pageTableL4.toNat + 0x2000) ||| present ||| writable else 0
  /-- The page directory is the identity map. -/
  l2 : ∀ i < 512, (m.read64 (img.p2Entry i)).toNat = Paging.identityEntry i

/-- The part of the image that the tables fill. -/
def StartImage.tables (img : StartImage) : Set Word := span (flat img.pageTableL4) 0x3000

/-- A pointer to a table that the code writes into a zeroed entry. -/
lemma toNat_pointer (img : StartImage) {k : ℕ} (hk : k ≤ 0x2000) :
    ((0 : BitVec 32) ++ ((img.pageTableL4 + BitVec.ofNat 32 k) ||| 0b11)).toNat =
      (img.pageTableL4.toNat + k) ||| present ||| writable := by
  have hlow := img.low
  have hmod : (img.pageTableL4.toNat + k % 2 ^ 32) % 2 ^ 32 = img.pageTableL4.toNat + k := by omega
  have h0 : (0 : BitVec 32).toNat = 0 := rfl
  rw [BitVec.toNat_append, h0, Nat.zero_shiftLeft, Nat.zero_or, BitVec.toNat_or, BitVec.toNat_add,
    BitVec.toNat_ofNat, hmod, Nat.or_assoc]
  rfl

/-- A word of zeroed memory whose low half was written. -/
lemma read64_write32_zero {m : Memory} {a : Word} {v : BitVec 32}
    (h : Set.EqOn m (fun _ => 0) (span (a + 4) 4)) :
    (m.write32 a v).read64 a = (0 : BitVec 32) ++ v := by
  rw [Memory.read64_write32, Memory.read32_zero h]

/-- The code builds the tables in zeroed memory. -/
lemma setUpPageTables_spec (img : StartImage) {fuel : ℕ} (hfuel : 512 ≤ fuel) (s : StartCpu)
    (hzero : Set.EqOn s.mem (fun _ => 0) img.tables) :
    ∃ s', setUpPageTables img fuel s = .ok s' ∧ s.SameControl s' ∧
      IdentityTables img s'.mem ∧ Set.EqOn s'.mem s.mem (Compl.compl img.tables) := by
  let a := flat img.pageTableL4
  let entry₄ : BitVec 32 := img.pageTableL3 ||| 0b11
  let entry₃ : BitVec 32 := img.pageTableL2 ||| 0b11
  let mem₄ := s.mem.write32 a entry₄
  let mem := mem₄.write32 (flat img.pageTableL3) entry₃
  let s₁ : StartCpu := { s with eax := entry₃, ecx := 0, mem := mem }
  obtain ⟨s', hrun, hsame, hfilled, hframe⟩ :=
    mapP2_spec img 511 0 fuel s₁ (by norm_num) (by omega) rfl
  have hrun' : setUpPageTables img fuel s = .ok s' := by
    simp only [setUpPageTables, StartCpu.setEax, StartCpu.storeEax]
    exact hrun
  have hl3 : flat img.pageTableL3 = a + BitVec.ofNat 64 0x1000 := flat_add img (by decide)
  have ha : a = a + BitVec.ofNat 64 0 := (BitVec.add_zero a).symm
  have hin : ∀ {k n}, k + n ≤ 0x3000 → span (a + BitVec.ofNat 64 k) n ⊆ img.tables :=
    fun h => span_add_subset h
  -- the three stages write to one table each
  have hkept₄ : ∀ {k n}, 4 ≤ k → k + n ≤ 0x3000 →
      Set.EqOn mem₄ (fun _ => 0) (span (a + BitVec.ofNat 64 k) n) := by
    intro k n hk hkn
    have hdisjoint := span_add_add_disjoint (a := a) (k := 0) (n := 4) (l := k) (p := n) hk
      (by omega)
    rw [← ha] at hdisjoint
    exact (Memory.eqOn_write32 hdisjoint.symm).trans (hzero.mono (hin hkn))
  have hkept₃ : ∀ {k n}, k + n ≤ 0x1000 ∨ 0x1004 ≤ k ∧ k + n ≤ 0x3000 →
      Set.EqOn mem mem₄ (span (a + BitVec.ofNat 64 k) n) := by
    intro k n hkn
    refine Memory.eqOn_write32 ?_
    rw [hl3]
    rcases hkn with hkn | ⟨hk, hkn⟩
    · exact span_add_add_disjoint hkn (by omega)
    · exact (span_add_add_disjoint hk (by omega)).symm
  have hkept₂ : ∀ {k n}, k + n ≤ 0x2000 →
      Set.EqOn s'.mem mem (span (a + BitVec.ofNat 64 k) n) := by
    intro k n hkn
    refine hframe.mono (Set.subset_compl_iff_disjoint_right.mpr ?_)
    exact span_add_add_disjoint hkn (by omega)
  refine ⟨s', hrun', ⟨hsame.edi, hsame.esp, hsame.eflags, hsame.cr0, hsame.cr3, hsame.cr4,
    hsame.efer⟩, ⟨fun i hi => ?_, fun i hi => ?_, fun i hi => ?_⟩, fun x hx => ?_⟩
  · rw [Memory.read64_congr (hkept₂ (by omega)), Memory.read64_congr (hkept₃ (by omega))]
    split_ifs with h0
    · subst h0
      rw [← ha, read64_write32_zero (hzero.mono (hin (k := 4) (by omega)))]
      exact toNat_pointer img (by decide)
    · rw [Memory.read64_zero (hkept₄ (by omega) (by omega))]
      rfl
  · rw [Memory.read64_congr (hkept₂ (by omega))]
    split_ifs with h0
    · subst h0
      have hhigh : flat img.pageTableL3 + 4 = a + BitVec.ofNat 64 0x1004 := by
        rw [hl3, BitVec.add_assoc]
        rfl
      have hzeroed : Set.EqOn mem₄ (fun _ => 0) (span (flat img.pageTableL3 + 4) 4) := by
        rw [hhigh]
        exact hkept₄ (by omega) (by omega)
      rw [← hl3, read64_write32_zero hzeroed]
      exact toNat_pointer img (by decide)
    · rw [Memory.read64_congr (hkept₃ (by omega)),
        Memory.read64_zero (hkept₄ (by omega) (by omega))]
      rfl
  · obtain ⟨entry, hentry, hread⟩ := hfilled i (Nat.zero_le i) hi
    have hhigh : img.p2Entry i + 4 = a + BitVec.ofNat 64 (0x2000 + 8 * i + 4) := by
      rw [StartImage.p2Entry, BitVec.add_assoc, BitVec.ofNat_add (0x2000 + 8 * i)]
      rfl
    have hzeroed : mem.read32 (img.p2Entry i + 4) = 0 := by
      rw [hhigh]
      exact Memory.read32_zero ((hkept₃ (by omega)).trans (hkept₄ (by omega) (by omega)))
    rw [hread, hzeroed, BitVec.toNat_append, hentry]
    exact (congrArg (· ||| _) (Nat.zero_shiftLeft _)).trans (Nat.zero_or _)
  · have hp2 : span (img.p2Entry 0) (8 * (511 + 1)) ⊆ img.tables := hin (by omega)
    have h3 : span (flat img.pageTableL3) 4 ⊆ img.tables := hl3 ▸ hin (by omega)
    have h4 : span a 4 ⊆ img.tables := by
      rw [ha]
      exact hin (by omega)
    exact (hframe (mt (@hp2 x) hx)).trans
      ((Memory.eqOn_write32 (disjoint_compl_left.mono_right h3) hx).trans
        (Memory.eqOn_write32 (disjoint_compl_left.mono_right h4) hx))

/-- The state of paging as the walks of the kernel see it. -/
def StartCpu.paging (s : StartCpu) : Paging where
  mem a := (s.mem.read64 (BitVec.ofNat 64 a)).toNat
  cr3 := s.cr3.toNat
  allocs := 0

/-- The address of a table. -/
lemma ofNat_table (img : StartImage) (k : ℕ) :
    BitVec.ofNat 64 (img.pageTableL4.toNat + k) = flat img.pageTableL4 + BitVec.ofNat 64 k := by
  have hflat : BitVec.ofNat 64 img.pageTableL4.toNat = flat img.pageTableL4 := by
    apply BitVec.eq_of_toNat_eq
    simp only [flat, BitVec.toNat_setWidth, BitVec.toNat_ofNat]
  rw [BitVec.ofNat_add, hflat]

/-- A pointer to a table is present, no large page, and has the address of the table. -/
lemma pointer_and {t : ℕ} (ht : frameSize ∣ t) (hlow : t < 2 ^ 52) :
    (t ||| present ||| writable) &&& present ≠ 0 ∧ (t ||| present ||| writable) &&& huge = 0 ∧
      (t ||| present ||| writable) &&& addrMask = t := by
  rw [Nat.or_assoc]
  refine ⟨?_, ?_, entry_and_addrMask ht hlow (by decide)⟩
  · rw [entry_and ht (by decide) (by decide)]
    decide
  · rw [entry_and ht (by decide) (by decide)]
    decide

/-- Reading an entry of a table below the end of the identity map does not fault. -/
lemma readEntry_of_lt {s : Paging} {t : ℕ} (ht : t < identityLimit) (i : ℕ) :
    s.readEntry t i = .ok (s.mem (t + 8 * i)) := by
  rw [Paging.readEntry, physToVirt, if_pos ht]
  rfl

/-- A walk that meets a pointer to a table goes on in it, and one that meets an empty entry ends. -/
lemma translateLevels_pointer {s : Paging} {virt level t next : ℕ} (ht : t < identityLimit)
    (hnext : frameSize ∣ next) (hlow : next < 2 ^ 52)
    (hentry : s.mem (t + 8 * tableIndex virt (level + 1)) =
      if tableIndex virt (level + 1) = 0 then next ||| present ||| writable else 0) :
    s.translateLevels virt (level + 1) t =
      if tableIndex virt (level + 1) = 0 then s.translateLevels virt level next else .ok none := by
  rw [Paging.translateLevels, readEntry_of_lt ht, Exec.bind_ok, hentry]
  split_ifs with hindex hpresent hhuge hzero
  · exact absurd hpresent (pointer_and hnext hlow).1
  · exact absurd (pointer_and hnext hlow).2.1 hhuge.2
  · rw [(pointer_and hnext hlow).2.2]
  · rfl
  · exact absurd (Nat.zero_and _) hzero
  · exact absurd (Nat.zero_and _) hzero

/-- The three tables at an address, as a walk of the kernel reads them. -/
structure IdentityAt (s : Paging) (t : ℕ) : Prop where
  /-- The root. -/
  l4 : ∀ i < 512, s.mem (t + 8 * i) = if i = 0 then (t + 0x1000) ||| present ||| writable else 0
  /-- The table below it. -/
  l3 : ∀ i < 512, s.mem (t + 0x1000 + 8 * i) =
    if i = 0 then (t + 0x2000) ||| present ||| writable else 0
  /-- The page directory. -/
  l2 : ∀ i < 512, s.mem (t + 0x2000 + 8 * i) = Paging.identityEntry i

/-- The tables are as they were if their part of the memory is. -/
lemma IdentityAt.congr {s s' : Paging} {t : ℕ} (h : IdentityAt s t)
    (heq : ∀ a, t ≤ a → a < t + 0x3000 → s'.mem a = s.mem a) : IdentityAt s' t where
  l4 i hi := (heq _ (by omega) (by omega)).trans (h.l4 i hi)
  l3 i hi := (heq _ (by omega) (by omega)).trans (h.l3 i hi)
  l2 i hi := (heq _ (by omega) (by omega)).trans (h.l2 i hi)

/-- **A page walk over the tables finds the identity map of the first 1 GiB, and nothing else.** -/
lemma IdentityAt.translateFrom {s : Paging} {t : ℕ} (h : IdentityAt s t) (haligned : frameSize ∣ t)
    (hlow : t + 0x3000 ≤ identityLimit) {virt : ℕ} (hvirt : virt < 2 ^ 48) :
    s.translateFrom t virt = .ok (if virt < identityLimit then some virt else none) := by
  have h30 := identityLimit_eq
  obtain ⟨k, hk⟩ := haligned
  have hslot : ∀ level, tableIndex virt level = virt / 2 ^ (12 + 9 * level) % 512 :=
    fun level => tableIndex_eq virt level
  have hindex : ∀ level, tableIndex virt level < 512 := fun level => by
    rw [hslot]
    exact Nat.mod_lt _ (by norm_num)
  rw [Paging.translateFrom,
    translateLevels_pointer (by omega) ⟨k + 1, by rw [frameSize] at *; omega⟩ (by omega)
      (h.l4 _ (hindex 3)),
    translateLevels_pointer (by omega) ⟨k + 2, by rw [frameSize] at *; omega⟩ (by omega)
      (h.l3 _ (hindex 2))]
  by_cases hlt : virt < identityLimit
  · have hone : tableIndex virt 1 = virt / 2 ^ 21 := by
      rw [hslot]
      exact Nat.mod_eq_of_lt (by omega)
    obtain ⟨hp, hh, ha⟩ := identityEntry_and (hindex 1)
    rw [if_pos (by rw [hslot]; omega), if_pos (by rw [hslot]; omega), if_pos hlt,
      Paging.translateLevels, readEntry_of_lt (by omega), Exec.bind_ok, h.l2 _ (hindex 1),
      if_neg hp, if_pos ⟨by norm_num, hh⟩, ha, hone]
    exact congrArg (fun x => Except.ok (some x)) (large_page virt hlt)
  · rw [if_neg hlt]
    split_ifs with h3 h2
    · rw [hslot] at h2 h3
      omega
    · rfl
    · rfl

/-- The tables of the image, as a walk of the kernel reads them. -/
lemma IdentityTables.identityAt (h : IdentityTables img s.mem) :
    IdentityAt s.paging img.pageTableL4.toNat := by
  refine ⟨fun i hi => ?_, fun i hi => ?_, fun i hi => ?_⟩
  · rw [← h.l4 i hi, ← ofNat_table]
    rfl
  · rw [← h.l3 i hi, ← ofNat_table, ← Nat.add_assoc]
    rfl
  · rw [← h.l2 i hi, StartImage.p2Entry, ← ofNat_table, ← Nat.add_assoc]
    rfl

/-- The root of the tables. -/
lemma StartImage.and_addrMask (img : StartImage) :
    img.pageTableL4.toNat &&& addrMask = img.pageTableL4.toNat := by
  have hlow := img.low
  have hmask := entry_and_addrMask (f := 0) img.aligned (by omega) (by decide)
  rwa [Nat.or_zero] at hmask

/-- The tables lie in the identity map. -/
lemma StartImage.tables_low (img : StartImage) :
    img.pageTableL4.toNat + 0x3000 ≤ identityLimit := by
  have hlow := img.low
  have h30 := identityLimit_eq
  omega

/-- A page walk over the tables of the image. -/
lemma translate_of_identityTables (h : IdentityTables img s.mem)
    (hcr3 : s.cr3 = img.pageTableL4) {virt : ℕ} (hvirt : virt < 2 ^ 48) :
    s.paging.translate virt = .ok (if virt < identityLimit then some virt else none) := by
  have hroot : s.paging.cr3 &&& addrMask = img.pageTableL4.toNat := by
    rw [StartCpu.paging, hcr3, img.and_addrMask]
  rw [Paging.translate, hroot]
  exact h.identityAt.translateFrom img.aligned img.tables_low hvirt

end Tables

/-! ## The whole way -/

/-- The characters at the top left of the screen. -/
def screenText (m : Memory) (n : ℕ) : List (BitVec 8) :=
  (List.range n).map fun i => m (0xb8000 + BitVec.ofNat 64 (2 * i))

/-- The character that a failed check leaves. -/
lemma setAl_eax (s : StartCpu) (c : BitVec 8) : (s.setAl c).eax.setWidth 8 = c := by
  have hmask : (0xffffff00 : BitVec 32).setWidth 8 = 0 := by decide
  show (s.eax &&& 0xffffff00 ||| c.setWidth 32).setWidth 8 = c
  rw [BitVec.setWidth_or, BitVec.setWidth_and, hmask, BitVec.setWidth_setWidth_of_le c (by decide),
    BitVec.setWidth_eq]
  simp

/-- The cells that the message of a failed check is painted in. -/
def messageCells : Set Word := span 0xb8000 12

/-- The message of a failed check. -/
lemma startError_spec (s : StartCpu) (c : BitVec 8) :
    ∃ s', startError (s.setAl c) = Exec.fail (.halted s') ∧
      screenText s'.mem 6 = [0x45, 0x52, 0x52, 0x3a, 0x20, c] ∧
      Set.EqOn s'.mem s.mem (Compl.compl messageCells) := by
  refine ⟨_, rfl, ?_, ?_⟩
  · simp [screenText, List.range, List.range.loop, Memory.write8, Memory.write32,
      Function.update, mem_span, setAl_eax]
  · have hdword : ∀ k, k + 4 ≤ 12 → Disjoint (Compl.compl messageCells)
        (span (0xb8000 + BitVec.ofNat 64 k) 4) :=
      fun k hk => disjoint_compl_left.mono_right (span_add_subset hk)
    refine (Memory.eqOn_write8 (not_not_intro ?_)).trans ((Memory.eqOn_write32 (hdword 8 ?_)).trans
      ((Memory.eqOn_write32 (hdword 4 ?_)).trans (Memory.eqOn_write32 (hdword 0 ?_))))
    · exact show ((0xb800a : Word) - 0xb8000).toNat < 12 by decide
    all_goals decide

/-- The boot stack. -/
def StartImage.stack (img : StartImage) : Set Word := span (flat img.stackBottom) 0x4000

/-- Where the stack lies. -/
lemma flat_stackBottom (img : StartImage) :
    flat img.stackBottom = flat img.pageTableL4 + BitVec.ofNat 64 0x3000 := flat_add img (by decide)

/-- The checks are called with an empty stack. -/
lemma scratch_subset_stack {img : StartImage} {s : StartCpu} (hesp : s.esp = img.stackTop) :
    8 ≤ s.esp.toNat ∧ s.scratch ⊆ img.stack := by
  have hlow := img.low
  have htop : s.esp - 8 = img.pageTableL4 + BitVec.ofNat 32 0x6ff8 := by
    rw [hesp, StartImage.stackTop, StartImage.stackBottom]
    bv_omega
  constructor
  · rw [hesp, StartImage.stackTop, StartImage.stackBottom]
    bv_omega
  · have hadd : flat img.pageTableL4 + BitVec.ofNat 64 0x6ff8 =
        flat img.stackBottom + BitVec.ofNat 64 0x3ff8 := by
      rw [flat_stackBottom]
      bv_omega
    rw [StartCpu.scratch, htop, flat_add img (by decide), hadd, StartImage.stack]
    exact span_add_subset (by decide)

/-- The tables lie below the stack. -/
lemma disjoint_tables_stack (img : StartImage) : Disjoint img.tables img.stack := by
  have hdisjoint := span_add_add_disjoint (a := flat img.pageTableL4) (k := 0) (n := 0x3000)
    (l := 0x3000) (p := 0x4000) (by decide) (by decide)
  rw [← flat_stackBottom] at hdisjoint
  rw [StartImage.tables, StartImage.stack]
  simpa using hdisjoint

/-- Long mode, with the vector registers enabled and the tables of the image. -/
structure InLongMode (img : StartImage) (s : StartCpu) : Prop where
  root : s.cr3 = img.pageTableL4
  paging : s.cr0 &&& 1#32 <<< 31 ≠ 0
  pae : s.cr4 &&& 1#32 <<< 5 ≠ 0
  lme : s.efer &&& 1#64 <<< 8 ≠ 0
  monitor : s.cr0 &&& 0b110#32 = 0b010#32
  sse : s.cr4 &&& 0x600#32 = 0x600#32

section Booted

variable {img : StartImage} {s : StartCpu}

/-- The tables are as they were if their part of the memory is. -/
lemma IdentityTables.congr {m m' : Memory} (h : IdentityTables img m)
    (heq : Set.EqOn m' m img.tables) : IdentityTables img m' := by
  have hword : ∀ k, k + 8 ≤ 0x3000 → m'.read64 (flat img.pageTableL4 + BitVec.ofNat 64 k) =
      m.read64 (flat img.pageTableL4 + BitVec.ofNat 64 k) := fun k hk =>
    Memory.read64_congr (heq.mono (span_add_subset hk))
  refine ⟨fun i hi => ?_, fun i hi => ?_, fun i hi => ?_⟩
  · rw [hword _ (by omega)]
    exact h.l4 i hi
  · rw [hword _ (by omega)]
    exact h.l3 i hi
  · rw [StartImage.p2Entry, hword _ (by omega)]
    exact h.l2 i hi

/-- A bit that was set is set. -/
lemma or_and_self {w : ℕ} (x b : BitVec w) : (x ||| b) &&& b = b := by
  ext i hi
  simp only [BitVec.getElem_and, BitVec.getElem_or]
  cases x[i] <;> cases b[i] <;> rfl

/-- What the routines leave in the control registers. -/
lemma inLongMode (cr0 cr4 eferHigh eferLow : BitVec 32) (hroot : s.cr3 = img.pageTableL4)
    (hcr0 : s.cr0 = (cr0 &&& 0xFFFFFFFB#32 ||| 0x2#32) ||| 1#32 <<< 31)
    (hcr4 : s.cr4 = (cr4 ||| 0x600#32) ||| 1#32 <<< 5)
    (hefer : s.efer = eferHigh ++ (eferLow ||| 1#32 <<< 8)) : InLongMode img s where
  root := hroot
  paging := by
    rw [hcr0, or_and_self]
    decide
  pae := by
    rw [hcr4, or_and_self]
    decide
  lme := by
    intro hzero
    have hset : s.efer.getLsbD 8 = true := by
      rw [hefer, BitVec.getLsbD_append, if_pos (by decide), BitVec.getLsbD_or]
      simp
    have hbit : (s.efer &&& 1#64 <<< 8).getLsbD 8 = true := by
      rw [BitVec.getLsbD_and, hset]
      rfl
    rw [hzero] at hbit
    cases hbit
  monitor := by
    have h₁ : 0xFFFFFFFB#32 &&& 0b110#32 = 0b010#32 := by decide
    have h₂ : 0x2#32 &&& 0b110#32 = 0b010#32 := by decide
    have h₃ : 1#32 <<< 31 &&& 0b110#32 = 0#32 := by decide
    rw [hcr0, BitVec.and_or_distrib_right, BitVec.and_or_distrib_right, BitVec.and_assoc, h₁, h₂,
      h₃]
    ext i hi
    simp only [BitVec.getElem_or, BitVec.getElem_and]
    cases cr0[i] <;> simp
  sse := by
    rw [hcr4, BitVec.or_assoc, BitVec.or_comm 0x600#32, ← BitVec.or_assoc, or_and_self]

/-- A call of a routine that cannot fail. -/
lemma call32_pure (ret : BitVec 32) (f : StartCpu → StartCpu) (s : StartCpu) :
    call32 ret (fun s => pure (f s)) s = .ok (f (s.push ret)).pop := rfl

/-- After the checks nothing fails. -/
lemma start_longMode (img : StartImage) {fuel : ℕ} (hfuel : 512 ≤ fuel)
    (hesp : s.esp = img.stackTop) (hzero : Set.EqOn s.mem (fun _ => 0) img.tables) :
    ∃ s', (do
        let s ← call32 (img.returnTo 3) (fun s => pure (enableSse s)) s
        let s ← call32 (img.returnTo 4) (setUpPageTables img fuel) s
        call32 (img.returnTo 5) (fun s => pure (enablePaging img s)) s) = .ok s' ∧
      s'.edi = s.edi ∧ InLongMode img s' ∧ IdentityTables img s'.mem ∧
      Set.EqOn s'.mem s.mem (Compl.compl (img.tables ∪ img.stack)) := by
  have hpush : ∀ {t : StartCpu} (ret : BitVec 32), t.esp = img.stackTop →
      Set.EqOn (t.push ret).mem t.mem (Compl.compl img.stack) := by
    intro t ret ht
    obtain ⟨hroom, hscratch⟩ := scratch_subset_stack ht
    exact Memory.eqOn_write32 (disjoint_compl_left.mono_right
      ((span_subset_scratch hroom).1.trans hscratch))
  have hcompl : img.tables ⊆ Compl.compl img.stack :=
    Set.subset_compl_iff_disjoint_right.mpr (disjoint_tables_stack img)
  let s₃ := (enableSse (s.push (img.returnTo 3))).pop
  have hesp₃ : s₃.esp = img.stackTop := (BitVec.sub_add_cancel _ _).trans hesp
  have hzero₃ : Set.EqOn (s₃.push (img.returnTo 4)).mem (fun _ => 0) img.tables :=
    ((hpush _ hesp₃).mono hcompl).trans (((hpush _ hesp).mono hcompl).trans hzero)
  obtain ⟨s₄, hrun, hsame, htables, hframe⟩ := setUpPageTables_spec img hfuel _ hzero₃
  have hesp₄ : s₄.pop.esp = img.stackTop := by
    show s₄.esp + 4 = _
    rw [hsame.esp]
    exact (BitVec.sub_add_cancel _ _).trans hesp₃
  refine ⟨(enablePaging img (s₄.pop.push (img.returnTo 5))).pop, ?_, hsame.edi, ?_, ?_, ?_⟩
  · rw [call32_pure, Exec.bind_ok, call32, hrun]
    rfl
  · refine inLongMode s.cr0 s.cr4 ((s₄.efer >>> 32).setWidth 32) (s₄.efer.setWidth 32) rfl ?_ ?_
      rfl
    · show s₄.cr0 ||| 1#32 <<< 31 = _
      rw [hsame.cr0]
      rfl
    · show s₄.cr4 ||| 1#32 <<< 5 = _
      rw [hsame.cr4]
      rfl
  · exact htables.congr ((hpush (t := s₄.pop) _ hesp₄).mono hcompl)
  · have hstack : Compl.compl (img.tables ∪ img.stack) ⊆ Compl.compl img.stack :=
      Set.compl_subset_compl.mpr Set.subset_union_right
    exact ((hpush (t := s₄.pop) _ hesp₄).mono hstack).trans
      ((hframe.mono (Set.compl_subset_compl.mpr Set.subset_union_left)).trans
        (((hpush _ hesp₃).mono hstack).trans ((hpush _ hesp).mono hstack)))

/-- A check that fails ends the code with its message. -/
lemma Checked.fails {c : BitVec 8} {run : Exec StartStop StartCpu} (h : Checked s (some c) run)
    (hstack : s.scratch ⊆ img.stack) (next : StartCpu → Exec StartStop StartCpu) :
    ∃ s', (run >>= next) = Exec.fail (.halted s') ∧
      screenText s'.mem 6 = [0x45, 0x52, 0x52, 0x3a, 0x20, c] ∧
      Set.EqOn s'.mem s.mem (Compl.compl (img.stack ∪ messageCells)) := by
  cases h with
  | @failed t c hmem =>
    obtain ⟨s', hrun, htext, hframe⟩ := startError_spec t c
    refine ⟨s', by rw [hrun, Exec.bind_fail], htext, ?_⟩
    exact (hframe.mono (Set.compl_subset_compl.mpr Set.subset_union_right)).trans
      (hmem.mono (Set.compl_subset_compl.mpr (hstack.trans Set.subset_union_left)))

/-- A check that passes hands on what the next one needs. -/
lemma Checked.passes {run : Exec StartStop StartCpu} (h : Checked s none run)
    (hesp : s.esp = img.stackTop) : ∃ s', run = .ok s' ∧ s'.esp = img.stackTop ∧
      s'.edi = s.edi ∧ Set.EqOn s'.mem s.mem (Compl.compl img.stack) := by
  cases h with
  | @passed s' hsame hmem =>
    exact ⟨s', rfl, hsame.esp.trans hesp, hsame.edi,
      hmem.mono (Set.compl_subset_compl.mpr (scratch_subset_stack hesp).2)⟩

end Booted

/-- What the entry of the image comes to. -/
lemma start_cases (p : Processor) (img : StartImage) {fuel : ℕ} (hfuel : 512 ≤ fuel)
    (s : StartCpu) (hzero : Set.EqOn s.mem (fun _ => 0) img.tables) :
    (∀ c, failedCheck p s = some c → ∃ s', start p img fuel s = Exec.fail (.halted s') ∧
      screenText s'.mem 6 = [0x45, 0x52, 0x52, 0x3a, 0x20, c] ∧
      Set.EqOn s'.mem s.mem (Compl.compl (img.stack ∪ messageCells))) ∧
    (failedCheck p s = none → ∃ s', start p img fuel s = .ok s' ∧ s'.edi = s.ebx ∧
      InLongMode img s' ∧ IdentityTables img s'.mem ∧
      Set.EqOn s'.mem s.mem (Compl.compl (img.tables ∪ img.stack))) := by
  let s₀ : StartCpu := { s with esp := img.stackTop, edi := s.ebx }
  have hesp₀ : s₀.esp = img.stackTop := rfl
  have hfirst := checked_multiboot (img.returnTo 0) (scratch_subset_stack hesp₀).1
  have hcompl : img.tables ⊆ Compl.compl img.stack :=
    Set.subset_compl_iff_disjoint_right.mpr (disjoint_tables_stack img)
  have hstart : start p img fuel s = (do
      let s ← call32 (img.returnTo 0) checkMultiboot s₀
      let s ← call32 (img.returnTo 1) (checkCpuid p) s
      let s ← call32 (img.returnTo 2) (checkLongMode p) s
      let s ← call32 (img.returnTo 3) (fun s => pure (enableSse s)) s
      let s ← call32 (img.returnTo 4) (setUpPageTables img fuel) s
      call32 (img.returnTo 5) (fun s => pure (enablePaging img s)) s) := by
    rw [start]
  rw [hstart, failedCheck]
  by_cases heax : s.eax ≠ multiboot2Magic
  · rw [if_pos (show s₀.eax ≠ _ from heax)] at hfirst
    rw [if_pos heax]
    refine ⟨fun c hc => ?_, nofun⟩
    obtain rfl := Option.some.inj hc
    exact hfirst.fails (scratch_subset_stack hesp₀).2 _
  rw [if_neg (show ¬ s₀.eax ≠ _ from heax)] at hfirst
  rw [if_neg heax]
  obtain ⟨s₁, hrun₁, hesp₁, hedi₁, hmem₁⟩ := hfirst.passes hesp₀
  rw [hrun₁, Exec.bind_ok]
  have hsecond := checked_cpuid p (img.returnTo 1) (scratch_subset_stack hesp₁).1
  by_cases hid : p.popfdMask &&& 1#32 <<< 21 = 0
  · rw [if_pos hid] at hsecond ⊢
    refine ⟨fun c hc => ?_, nofun⟩
    obtain rfl := Option.some.inj hc
    obtain ⟨s', hrun, htext, hframe⟩ := hsecond.fails (scratch_subset_stack hesp₁).2 _
    exact ⟨s', hrun, htext,
      hframe.trans (hmem₁.mono (Set.compl_subset_compl.mpr Set.subset_union_left))⟩
  rw [if_neg hid] at hsecond ⊢
  obtain ⟨s₂, hrun₂, hesp₂, hedi₂, hmem₂⟩ := hsecond.passes hesp₁
  rw [hrun₂, Exec.bind_ok]
  have hthird := checked_longMode p (img.returnTo 2) (scratch_subset_stack hesp₂).1
  by_cases hlm : (p.cpuid 0x80000000).eax < 0x80000001 ∨
      (p.cpuid 0x80000001).edx &&& 1#32 <<< 29 = 0
  · rw [if_pos hlm] at hthird ⊢
    refine ⟨fun c hc => ?_, nofun⟩
    obtain rfl := Option.some.inj hc
    obtain ⟨s', hrun, htext, hframe⟩ := hthird.fails (scratch_subset_stack hesp₂).2 _
    exact ⟨s', hrun, htext, hframe.trans ((hmem₂.trans hmem₁).mono
      (Set.compl_subset_compl.mpr Set.subset_union_left))⟩
  rw [if_neg hlm] at hthird ⊢
  refine ⟨nofun, fun _ => ?_⟩
  obtain ⟨s₃, hrun₃, hesp₃, hedi₃, hmem₃⟩ := hthird.passes hesp₂
  have hmem : Set.EqOn s₃.mem s.mem (Compl.compl img.stack) := hmem₃.trans (hmem₂.trans hmem₁)
  obtain ⟨s', hrun, hedi, hlong, htables, hframe⟩ :=
    start_longMode img hfuel hesp₃ ((hmem.mono hcompl).trans hzero)
  refine ⟨s', by rw [hrun₃, Exec.bind_ok, hrun], ?_, hlong, htables, ?_⟩
  · rw [hedi, hedi₃, hedi₂, hedi₁]
  · exact hframe.trans (hmem.mono (Set.compl_subset_compl.mpr Set.subset_union_right))

/-- **The trampoline makes up for the loader**: on a processor with `cpuid` and long mode, whatever
the loader leaves in the registers, the code reaches long mode with the information structure of the
image. -/
lemma mb1Trampoline_eq_ok (p : Processor) (img : StartImage) {fuel : ℕ} (hfuel : 512 ≤ fuel)
    (s : StartCpu) (hzero : Set.EqOn s.mem (fun _ => 0) img.tables)
    (hid : p.popfdMask &&& 1#32 <<< 21 ≠ 0) (hlong : ¬ ((p.cpuid 0x80000000).eax < 0x80000001 ∨
      (p.cpuid 0x80000001).edx &&& 1#32 <<< 29 = 0)) :
    ∃ s', mb1Trampoline p img fuel s = .ok s' ∧ s'.edi = img.mb2Synth ∧ InLongMode img s' := by
  let s₀ : StartCpu := { s with eax := multiboot2Magic, ebx := img.mb2Synth }
  have hcheck : failedCheck p s₀ = none := by
    rw [failedCheck, if_neg (not_not.mpr rfl), if_neg hid, if_neg hlong]
  obtain ⟨s', hrun, hedi, hlong', -⟩ := (start_cases p img hfuel s₀ hzero).2 hcheck
  exact ⟨s', hrun, hedi, hlong'⟩

/-- **The entry of the image either reaches long mode on the identity map or names the check that
failed.**  Whatever the loader leaves in the registers and whatever the processor is, the code ends:
if a check fails, its letter is on the screen; otherwise the processor is in long mode with the
information structure of the loader in `edi`, the tables take exactly the addresses below 1 GiB to
themselves, and apart from them only the boot stack was written. -/
theorem start_spec (p : Processor) (img : StartImage) {fuel : ℕ} (hfuel : 512 ≤ fuel)
    (s : StartCpu) (hzero : Set.EqOn s.mem (fun _ => 0) img.tables) :
    (∀ c, failedCheck p s = some c → ∃ s', start p img fuel s = Exec.fail (.halted s') ∧
      screenText s'.mem 6 = [0x45, 0x52, 0x52, 0x3a, 0x20, c] ∧
      Set.EqOn s'.mem s.mem (Compl.compl (img.stack ∪ messageCells))) ∧
    (failedCheck p s = none → ∃ s', start p img fuel s = .ok s' ∧ s'.edi = s.ebx ∧
      InLongMode img s' ∧
      (∀ virt < 2 ^ 48, s'.paging.translate virt =
        .ok (if virt < identityLimit then some virt else none)) ∧
      Set.EqOn s'.mem s.mem (Compl.compl (img.tables ∪ img.stack))) := by
  obtain ⟨hfails, hpasses⟩ := start_cases p img hfuel s hzero
  refine ⟨hfails, fun hcheck => ?_⟩
  obtain ⟨s', hrun, hedi, hlong, htables, hframe⟩ := hpasses hcheck
  exact ⟨s', hrun, hedi, hlong,
    fun virt hvirt => translate_of_identityTables htables hlong.root hvirt, hframe⟩

/-! ### A sample machine -/

/-- Tables at 2 MiB. -/
def sampleStart : StartImage where
  pageTableL4 := 0x200000
  mb2Synth := 0x1f0000
  returnTo i := BitVec.ofNat 32 (0x100000 + 5 * i)
  aligned := by decide
  low := by decide

/-- A processor with `cpuid` and long mode. -/
def sampleProcessor : Processor where
  cpuid leaf := ⟨if leaf = 0x80000000 then 0x80000008 else 0, 0, 0, 1#32 <<< 29⟩
  popfdMask := 0x240dd5

/-- What a loader leaves, with the given value in `eax`. -/
def sampleLoader (eax : BitVec 32) : StartCpu :=
  ⟨eax, 0x9500, 0, 0, 0, 0, 0x2, 0x11, 0, 0, 0, fun _ => 0⟩

/-- The machine reaches long mode with the right magic value, and says `M` with a wrong one. -/
theorem start_spec_sampleStart :
    (∃ s', start sampleProcessor sampleStart 512 (sampleLoader multiboot2Magic) = .ok s' ∧
      s'.edi = 0x9500 ∧ s'.paging.translate 0xb8000 = .ok (some 0xb8000) ∧
      s'.paging.translate 0x40000000 = .ok none) ∧
    ∃ s', start sampleProcessor sampleStart 512 (sampleLoader 0x2badb002) =
        Exec.fail (.halted s') ∧
      screenText s'.mem 6 = [0x45, 0x52, 0x52, 0x3a, 0x20, 0x4d] := by
  have h30 := identityLimit_eq
  constructor
  · obtain ⟨s', hrun, hedi, -, htranslate, -⟩ := (start_spec sampleProcessor sampleStart le_rfl
      (sampleLoader multiboot2Magic) (Set.eqOn_refl _ _)).2 (by decide)
    refine ⟨s', hrun, hedi, ?_, ?_⟩
    · rw [htranslate _ (by norm_num), if_pos (by omega)]
    · rw [htranslate _ (by norm_num), if_neg (by omega)]
  · obtain ⟨s', hrun, htext, -⟩ := (start_spec sampleProcessor sampleStart le_rfl
      (sampleLoader 0x2badb002) (Set.eqOn_refl _ _)).1 0x4d (by decide)
    exact ⟨s', hrun, htext⟩

end ZiranOS
