import ZiranOS.Boot.Multiboot

/-!
# Reads of the boot information

`ReadsWithin lo hi x` says that the walk `x` ends and reads bytes from `lo` up to `hi` only.
Whether the walk over the boot information is confined to it depends on the tags that a walk in
unbounded arithmetic would meet (`TagAt`): each of them has to be `GoodTag`.

A walk can leave the structure in two ways.  The size of the entries of a memory map is read behind
the header of its tag, and only the header is known to lie in the structure.  And at the very end of
the address space an addition can wrap, so that the walk goes on at a low address.
-/

namespace ZiranOS

open ProgLib

/-! ## Confined walks -/

/-- The read lies between two addresses. -/
def BootRead.Inside (lo hi : ℕ) (r : BootRead) : Prop := lo ≤ r.addr ∧ r.addr + r.len ≤ hi

instance (lo hi : ℕ) (r : BootRead) : Decidable (r.Inside lo hi) :=
  inferInstanceAs (Decidable (_ ∧ _))

/-- The walk ends, and reads between two addresses only. -/
def ReadsWithin {α : Type} (lo hi : ℕ) (x : Traced BootRead Unit α) : Prop :=
  x.out ≠ Exec.fail () ∧ ∀ r ∈ x.log, r.Inside lo hi

section ReadsWithin

variable {α β : Type} {lo hi : ℕ}

/-- A value reads nothing. -/
@[simp] lemma readsWithin_pure (a : α) : ReadsWithin lo hi (pure a : Traced BootRead Unit α) :=
  ⟨nofun, fun _ hr => absurd hr List.not_mem_nil⟩

/-- A read followed by a walk. -/
lemma readsWithin_tell_bind (r : BootRead) (f : Unit → Traced BootRead Unit α) :
    ReadsWithin lo hi (Traced.tell r >>= f) ↔ r.Inside lo hi ∧ ReadsWithin lo hi (f ()) := by
  unfold ReadsWithin
  rw [Traced.log_tell_bind, List.forall_mem_cons, Traced.out_bind, Traced.out_tell, Exec.bind_ok]
  tauto

/-- What is done with the result does not matter. -/
lemma readsWithin_bind_pure (x : Traced BootRead Unit α) (g : α → β) :
    ReadsWithin lo hi (x >>= fun a => pure (g a)) ↔ ReadsWithin lo hi x := by
  unfold ReadsWithin
  cases hx : x.out with
  | ok a =>
    rw [Traced.log_bind_ok hx, Traced.out_bind, hx, Traced.log_pure, List.append_nil]
    exact and_congr_left fun _ => iff_of_true (fun h => nomatch h) fun h => nomatch h
  | error e =>
    rw [Traced.log_bind_error hx, Traced.out_bind, hx, Exec.bind_error]
    exact and_congr_left fun _ =>
      ⟨fun h h' => h (by cases h'; rfl), fun h h' => h (by cases h'; rfl)⟩

end ReadsWithin

/-- A number of `len` bytes. -/
lemma leBytes_lt (mem : ℕ → UInt8) (addr len : ℕ) : leBytes mem addr len < 256 ^ len := by
  induction len with
  | zero => exact Nat.one_pos
  | succ len ih =>
    have hbyte : (mem (wrapAdd addr len)).toNat ≤ 255 := by
      have := (mem (wrapAdd addr len)).toNat_lt
      omega
    have hmul : (mem (wrapAdd addr len)).toNat * 256 ^ len ≤ 255 * 256 ^ len :=
      Nat.mul_le_mul_right _ hbyte
    rw [leBytes, pow_succ]
    omega

/-- A number of 4 bytes. -/
lemma leBytes_four_lt (mem : ℕ → UInt8) (addr : ℕ) : leBytes mem addr 4 < 2 ^ 32 :=
  lt_of_lt_of_le (leBytes_lt mem addr 4) (by norm_num)

variable {mem : ℕ → UInt8} {lo hi : ℕ}

/-! ## The entries of a memory map -/

/-- One step over the entries. -/
lemma readsWithin_collect_succ (fuel : ℕ) (it : MemoryMapIter) :
    ReadsWithin lo hi (it.collect mem (fuel + 1)) ↔
      (wrapAdd it.next it.entrySize ≤ it.end → BootRead.Inside lo hi ⟨it.next, rawEntrySize⟩ ∧
        ReadsWithin lo hi
          (MemoryMapIter.collect mem fuel { it with next := wrapAdd it.next it.entrySize })) := by
  rw [MemoryMapIter.collect, MemoryMapIter.nextRegion]
  split_ifs with hend
  · exact iff_of_true (readsWithin_pure _) fun h => absurd h (not_le.mpr hend)
  · rw [forall_prop_of_true (not_lt.mp hend)]
    unfold readEntryAt
    simp only [bind_assoc]
    rw [readsWithin_tell_bind]
    exact and_congr_right fun _ => readsWithin_bind_pure _ _

/-- The entries of a memory map at `p` of the given size are read inside the structure, which ends
at `fin`: in unbounded arithmetic the last step over an entry does not leave the address space;
where the end of the map has wrapped, there is at most one entry, and it lies in the structure. -/
def EntriesOk (fin p size entrySize : ℕ) : Prop :=
  if p + size < 2 ^ 64 then
    p + 16 + entrySize * ((min (p + size) fin - (p + 16)) / entrySize + 1) < 2 ^ 64
  else
    p + 16 + entrySize < 2 ^ 64 ∨ size < 16 + entrySize ∨
      p + 40 ≤ fin ∧ size < 16 + 2 * entrySize

/-- **Entries up to an end in the structure** are read inside it unless the last step wraps. -/
lemma readsWithin_collect_iff {fin es : ℕ} (hfin : fin < 2 ^ 64) (hlo : fin ≤ lo + 2 ^ 32)
    (hes : 24 ≤ es) (hes' : es < 2 ^ 32) {stop : ℕ} (hstop : stop ≤ fin) :
    ∀ fuel next, lo ≤ next → next < 2 ^ 64 → next ≤ stop + 8 → (stop - next) / es + 2 < fuel →
      (ReadsWithin lo fin (MemoryMapIter.collect mem fuel ⟨next, stop, es⟩) ↔
        next + es * ((stop - next) / es + 1) < 2 ^ 64) := by
  intro fuel
  induction fuel with
  | zero => exact fun next _ _ _ hfuel => absurd hfuel (Nat.not_lt_zero _)
  | succ fuel ih =>
    intro next hnext hlt hle hfuel
    rw [readsWithin_collect_succ]
    dsimp only
    by_cases hin : next + es ≤ stop
    · -- the entry lies in the structure
      have hwrap : wrapAdd next es = next + es := wrapAdd_eq (by omega)
      have hdiv : (stop - next) / es = (stop - (next + es)) / es + 1 := by
        rw [← Nat.add_div_right _ (by omega : 0 < es)]
        congr 1
        omega
      have hinside : BootRead.Inside lo fin ⟨next, rawEntrySize⟩ :=
        ⟨hnext, by unfold rawEntrySize; dsimp only; omega⟩
      rw [hwrap, forall_prop_of_true hin, and_iff_right hinside,
        ih (next + es) (by omega) (by omega) (by omega) (by omega), hdiv]
      have hmul : next + es * ((stop - (next + es)) / es + 1 + 1) =
          next + es + es * ((stop - (next + es)) / es + 1) := by ring
      rw [hmul]
    · have hdiv : (stop - next) / es = 0 := Nat.div_eq_of_lt (by omega)
      rw [hdiv, Nat.zero_add, Nat.mul_one]
      by_cases hover : next + es < 2 ^ 64
      · rw [wrapAdd_eq hover]
        exact iff_of_true (fun h => absurd h hin) hover
      · -- the step wraps, and the walk goes on at a low address
        refine iff_of_false (fun h => ?_) hover
        rw [wrapAdd_eq_sub (not_lt.mp hover) (by omega)] at h
        obtain ⟨-, hnext'⟩ := h (by omega)
        obtain ⟨fuel, rfl⟩ := Nat.exists_eq_succ_of_ne_zero (n := fuel) (by omega)
        rw [readsWithin_collect_succ] at hnext'
        dsimp only at hnext'
        rw [wrapAdd_eq (by omega)] at hnext'
        obtain ⟨hinside, -⟩ := hnext' (by omega)
        have : lo ≤ next + es - 2 ^ 64 := hinside.1
        omega

/-- The entries of a map whose end wraps: at most one of them is read. -/
lemma readsWithin_entries_of_wrap {fin p size es fuel : ℕ} (hlo : fin ≤ lo + 2 ^ 32) (hp : lo ≤ p)
    (hp' : p + 12 ≤ fin) (hsize : size < 2 ^ 32) (hes : 24 ≤ es) (hes' : es < 2 ^ 32)
    (hover : 2 ^ 64 ≤ p + size) (hlt : p + 16 < 2 ^ 64) :
    ReadsWithin lo fin (MemoryMapIter.collect mem (fuel + 2) ⟨p + 16, p + size - 2 ^ 64, es⟩) ↔
      p + 16 + es < 2 ^ 64 ∨ size < 16 + es ∨ p + 40 ≤ fin ∧ size < 16 + 2 * es := by
  rw [readsWithin_collect_succ]
  dsimp only
  by_cases hes64 : p + 16 + es < 2 ^ 64
  · rw [wrapAdd_eq hes64]
    exact iff_of_true (fun h => absurd h (by omega)) (.inl hes64)
  · rw [wrapAdd_eq_sub (not_lt.mp hes64) (by omega), or_iff_right hes64, readsWithin_collect_succ]
    dsimp only
    rw [wrapAdd_eq (by omega)]
    unfold BootRead.Inside rawEntrySize
    dsimp only
    constructor
    · intro h
      by_contra hnot
      obtain ⟨hone, htwo⟩ := h (by omega)
      obtain ⟨⟨hlow, -⟩, -⟩ := htwo (by omega)
      omega
    · intro h hle
      exact ⟨by omega, fun hle' => by omega⟩

/-- The entries of a map whose first entry wraps: none of them may be read. -/
lemma readsWithin_entries_of_low {fin p es fuel : ℕ} (hlo : fin ≤ lo + 2 ^ 32) (hp : lo ≤ p)
    (hp' : p + 12 ≤ fin) (hes' : es < 2 ^ 32) (hlow : 2 ^ 64 ≤ p + 16) (stop : ℕ)
    (hfin : fin < 2 ^ 64) :
    ReadsWithin lo fin (MemoryMapIter.collect mem (fuel + 1) ⟨p + 16 - 2 ^ 64, stop, es⟩) ↔
      stop < p + 16 - 2 ^ 64 + es := by
  rw [readsWithin_collect_succ]
  dsimp only
  rw [wrapAdd_eq (by omega)]
  constructor
  · intro h
    by_contra hnot
    obtain ⟨⟨hin, -⟩, -⟩ := h (not_lt.mp hnot)
    dsimp only at hin
    omega
  · exact fun h hle => absurd hle (not_le.mpr h)

/-- **The entries of a memory map** are read inside the structure exactly if they are
`EntriesOk`. -/
lemma readsWithin_entries_iff {fin p size es fuel : ℕ} (hfin : fin < 2 ^ 64)
    (hlo : fin ≤ lo + 2 ^ 32) (hp : lo ≤ p) (hp' : p + 12 ≤ fin) (hsize : 8 ≤ size)
    (hsize' : size < 2 ^ 32) (hes : 24 ≤ es) (hes' : es < 2 ^ 32) (hfuel : 2 ^ 32 ≤ fuel) :
    ReadsWithin lo fin (MemoryMapIter.collect mem fuel
      ⟨wrapAdd p 16, min (wrapAdd p size) fin, es⟩) ↔ EntriesOk fin p size es := by
  obtain ⟨fuel, rfl⟩ := Nat.exists_eq_add_of_le' (le_trans (by norm_num : 2 ≤ 2 ^ 32) hfuel)
  unfold EntriesOk
  by_cases hend : p + size < 2 ^ 64
  · rw [if_pos hend, wrapAdd_eq hend]
    by_cases hlow : p + 16 < 2 ^ 64
    · have hdiv : (min (p + size) fin - (p + 16)) / es ≤ 2 ^ 32 / 24 :=
        Nat.div_le_div (by omega) hes (by norm_num)
      rw [wrapAdd_eq hlow]
      exact readsWithin_collect_iff hfin hlo hes hes' (min_le_right _ _) _ _ (by omega) hlow
        (by omega) (by omega)
    · rw [wrapAdd_eq_sub (not_lt.mp hlow) (by omega),
        readsWithin_entries_of_low hlo hp hp' hes' (not_lt.mp hlow) _ hfin]
      exact iff_of_false (by omega) fun h => hlow (by omega)
  · rw [if_neg hend, wrapAdd_eq_sub (not_lt.mp hend) (by omega), min_eq_left (by omega)]
    by_cases hlow : p + 16 < 2 ^ 64
    · rw [wrapAdd_eq hlow]
      exact readsWithin_entries_of_wrap hlo hp hp' hsize' hes hes' (not_lt.mp hend) hlow
    · rw [wrapAdd_eq_sub (not_lt.mp hlow) (by omega),
        readsWithin_entries_of_low hlo hp hp' hes' (not_lt.mp hlow) _ hfin]
      omega

/-! ## The tags -/

/-- The type of a tag. -/
def tagType (mem : ℕ → UInt8) (p : ℕ) : ℕ := leBytes mem p 4

/-- The size of a tag. -/
def tagSize (mem : ℕ → UInt8) (p : ℕ) : ℕ := leBytes mem (wrapAdd p 4) 4

/-- The size of the entries of a memory map. -/
def tagEntrySize (mem : ℕ → UInt8) (p : ℕ) : ℕ := leBytes mem (wrapAdd p 8) 4

/-- A tag that a walk goes past. -/
def Passes (mem : ℕ → UInt8) (fin p : ℕ) : Prop :=
  p + 8 ≤ fin ∧ 8 ≤ tagSize mem p ∧ tagType mem p ≠ tagTypeEnd ∧
    tagType mem p ≠ tagTypeMemoryMap

/-- From `p` a walk in unbounded arithmetic comes to a tag at an address. -/
inductive TagAt (mem : ℕ → UInt8) (fin : ℕ) : (p q : ℕ) → Prop
  | here (p : ℕ) : TagAt mem fin p p
  | later {p q : ℕ} (hp : Passes mem fin p)
      (hq : TagAt mem fin (p + (tagSize mem p + 7) / 8 * 8) q) : TagAt mem fin p q

/-- The header of a tag lies in the address space, and the tag of a memory map holds the size of its
entries in the structure and has `EntriesOk`. -/
def GoodTag (mem : ℕ → UInt8) (fin p : ℕ) : Prop :=
  p + 8 < 2 ^ 64 ∧
    (p + 8 ≤ fin → 8 ≤ tagSize mem p → tagType mem p = tagTypeMemoryMap →
      p + 12 ≤ fin ∧
        (24 ≤ tagEntrySize mem p → EntriesOk fin p (tagSize mem p) (tagEntrySize mem p)))

/-- All tags are good if the first is, and all tags behind it are. -/
lemma forall_tagAt_iff (fin p : ℕ) :
    (∀ q, TagAt mem fin p q → GoodTag mem fin q) ↔
      GoodTag mem fin p ∧ (Passes mem fin p →
        ∀ q, TagAt mem fin (p + (tagSize mem p + 7) / 8 * 8) q → GoodTag mem fin q) := by
  constructor
  · exact fun h => ⟨h p (.here p), fun hp q hq => h q (.later hp hq)⟩
  · rintro ⟨hfirst, hrest⟩ q hq
    cases hq with
    | here => exact hfirst
    | later hp hq => exact hrest hp q hq

/-! ## The walk -/

/-- Collect the regions of a memory map, if there is one. -/
def collectMap (mem : ℕ → UInt8) (fuel : ℕ) :
    Option MemoryMapIter → Traced BootRead Unit (Option (List MemoryRegion))
  | none => pure none
  | some it => some <$> it.collect mem fuel

/-- The regions are collected from the memory map. -/
lemma regions_eq (info : BootInfo) (fuel : ℕ) :
    info.regions mem fuel = info.memoryMap mem fuel >>= collectMap mem fuel := by
  unfold BootInfo.regions
  congr 1

/-- A round-up to a multiple of 8. -/
lemma roundup_eq {size : ℕ} (h : size < 2 ^ 32) : (size + 7) &&& not64 7 = (size + 7) / 8 * 8 := by
  have hmask : not64 7 = 2 ^ 64 - 2 ^ 3 := not64_two_pow_sub_one 3
  exact hmask ▸ and_mask_eq (by norm_num) (by omega)

/-- The tag of a memory map: the size of its entries is read, and then the entries. -/
lemma readsWithin_mapTag {fin p fuel' : ℕ} (hp : p + 8 < 2 ^ 64) (hlo : lo ≤ p) (stop : ℕ) :
    ReadsWithin lo fin ((do
      let entrySize ← readLe mem (wrapAdd p 8) 4
      if entrySize < rawEntrySize then
        pure none
      else
        pure (some ⟨wrapAdd p 16, stop, entrySize⟩)) >>= collectMap mem fuel') ↔
      p + 12 ≤ fin ∧ (24 ≤ tagEntrySize mem p →
        ReadsWithin lo fin
          (MemoryMapIter.collect mem fuel' ⟨wrapAdd p 16, stop, tagEntrySize mem p⟩)) := by
  have hread : BootRead.Inside lo fin ⟨p + 8, 4⟩ ↔ p + 12 ≤ fin :=
    and_iff_right (by dsimp only; omega)
  unfold readLe tagEntrySize rawEntrySize
  simp only [bind_assoc, pure_bind]
  rw [wrapAdd_eq hp, readsWithin_tell_bind, hread]
  refine and_congr_right fun _ => ?_
  split_ifs with hlt
  · exact iff_of_true (readsWithin_pure _) fun h => absurd h (not_le.mpr hlt)
  · rw [forall_prop_of_true (not_lt.mp hlt)]
    exact readsWithin_bind_pure _ _

/-- One step over the tags. -/
lemma readsWithin_findMap_succ {fin p fuel' : ℕ} (fuel : ℕ) (hp : p + 8 < 2 ^ 64)
    (hle : p + 8 ≤ fin) (hlo : lo ≤ p) :
    ReadsWithin lo fin (BootInfo.findMap mem fin (fuel + 1) p >>= collectMap mem fuel') ↔
      (8 ≤ tagSize mem p → tagType mem p = tagTypeMemoryMap → p + 12 ≤ fin ∧
        (24 ≤ tagEntrySize mem p → ReadsWithin lo fin (MemoryMapIter.collect mem fuel'
          ⟨wrapAdd p 16, min (wrapAdd p (tagSize mem p)) fin, tagEntrySize mem p⟩))) ∧
      (Passes mem fin p → ReadsWithin lo fin (BootInfo.findMap mem fin fuel
        ((p + (tagSize mem p + 7) / 8 * 8) % 2 ^ 64) >>= collectMap mem fuel')) := by
  have hround : wrapAdd p ((tagSize mem p + 7) &&& not64 7) =
      (p + (tagSize mem p + 7) / 8 * 8) % 2 ^ 64 := by
    have hlt : tagSize mem p < 2 ^ 32 := leBytes_four_lt mem _
    rw [roundup_eq hlt]
    rfl
  have htype : leBytes mem p 4 = tagType mem p := rfl
  have hsizeEq : leBytes mem (wrapAdd p 4) 4 = tagSize mem p := rfl
  have hinside : BootRead.Inside lo fin ⟨p, tagHeaderSize⟩ := ⟨hlo, hle⟩
  rw [BootInfo.findMap, if_pos (by rwa [tagHeaderSize, wrapAdd_eq hp])]
  unfold readHeader
  simp only [bind_assoc, pure_bind]
  rw [readsWithin_tell_bind, and_iff_right hinside]
  rw [htype, hsizeEq, hround, tagHeaderSize]
  unfold Passes
  split_ifs with hsize hend hmap
  · -- the size is malformed
    exact iff_of_true (readsWithin_pure _) ⟨fun h => absurd h (not_le.mpr hsize),
      fun h => absurd h.2.1 (not_le.mpr hsize)⟩
  · -- the end of the list
    refine iff_of_true (readsWithin_pure _) ⟨fun _ h => ?_, fun h => absurd hend h.2.2.1⟩
    rw [hend] at h
    exact absurd h (by decide)
  · -- the memory map
    rw [and_iff_left fun h => absurd hmap h.2.2.2, forall_prop_of_true (not_lt.mp hsize),
      forall_prop_of_true hmap]
    exact readsWithin_mapTag hp hlo _
  · -- another tag
    rw [and_iff_right fun _ h => absurd h hmap,
      forall_prop_of_true ⟨hle, not_lt.mp hsize, hend, hmap⟩]

/-- **The walk over the tags** and the entries of the map reads inside the structure exactly if all
tags that it comes to are good. -/
lemma readsWithin_findMap_iff {fin fuel' : ℕ} (hfin : fin < 2 ^ 64) (hlo : fin ≤ lo + 2 ^ 32)
    (hfuel' : 2 ^ 32 ≤ fuel') :
    ∀ fuel p, lo ≤ p → p < fin + 2 ^ 32 + 8 → (fin - p) / 8 + 2 ≤ fuel →
      (ReadsWithin lo fin (BootInfo.findMap mem fin fuel (p % 2 ^ 64) >>= collectMap mem fuel') ↔
        ∀ q, TagAt mem fin p q → GoodTag mem fin q) := by
  intro fuel
  induction fuel with
  | zero => exact fun p _ _ hfuel => absurd hfuel (by omega)
  | succ fuel ih =>
    intro p hp hp' hfuel
    rw [forall_tagAt_iff]
    by_cases hover : p + 8 < 2 ^ 64
    · rw [Nat.mod_eq_of_lt (by omega)]
      by_cases hle : p + 8 ≤ fin
      · have hsize : tagSize mem p < 2 ^ 32 := leBytes_four_lt mem _
        rw [readsWithin_findMap_succ fuel hover hle hp]
        unfold GoodTag
        rw [and_iff_right hover, forall_prop_of_true hle]
        refine and_congr ?_ ?_
        · refine forall_congr' fun hlt => forall_congr' fun _ => and_congr_right fun hle' =>
            forall_congr' fun hes => ?_
          exact readsWithin_entries_iff hfin hlo hp hle' hlt hsize hes (leBytes_four_lt mem _)
            hfuel'
        · refine forall_congr' fun hpass => ?_
          have hlt : 8 ≤ tagSize mem p := hpass.2.1
          exact ih _ (by omega) (by omega) (by omega)
      · rw [BootInfo.findMap, if_neg (by rwa [tagHeaderSize, wrapAdd_eq hover])]
        exact iff_of_true (readsWithin_pure _)
          ⟨⟨hover, fun h => absurd h hle⟩, fun h => absurd h.1 hle⟩
    · -- the header is read at a low address
      refine iff_of_false (fun h => ?_) fun h => hover h.1.1
      have hwrap : wrapAdd (p % 2 ^ 64) tagHeaderSize ≤ fin := by
        unfold wrapAdd tagHeaderSize
        omega
      rw [BootInfo.findMap, if_pos hwrap] at h
      unfold readHeader at h
      simp only [bind_assoc, pure_bind] at h
      rw [readsWithin_tell_bind] at h
      obtain ⟨⟨hlow, hhigh⟩, -⟩ := h
      unfold tagHeaderSize at hhigh
      dsimp only at hlow hhigh
      omega

/-- The parser of the boot information terminates and reads inside the structure exactly if every
tag that a walk in unbounded arithmetic comes to is good. -/
theorem regions_readsWithin_iff (mem : ℕ → UInt8) (addr : ℕ) (htotal : 8 ≤ leBytes mem addr 4)
    (haddr : addr + leBytes mem addr 4 < 2 ^ 64) (fuel : ℕ) (hfuel : 2 ^ 32 ≤ fuel) :
    ReadsWithin addr (addr + leBytes mem addr 4)
        (BootInfo.new mem addr >>= fun info => info.regions mem fuel) ↔
      ∀ q, TagAt mem (addr + leBytes mem addr 4) (addr + 8) q →
        GoodTag mem (addr + leBytes mem addr 4) q := by
  have hlt := leBytes_four_lt mem addr
  have hinside : BootRead.Inside addr (addr + leBytes mem addr 4) ⟨addr, 4⟩ :=
    ⟨le_rfl, by dsimp only; omega⟩
  unfold BootInfo.new readLe
  simp only [bind_assoc, pure_bind]
  rw [readsWithin_tell_bind, and_iff_right hinside, regions_eq]
  unfold BootInfo.memoryMap
  dsimp only
  have hstart : wrapAdd addr 8 = (addr + 8) % 2 ^ 64 := rfl
  rw [wrapAdd_eq haddr, hstart]
  exact readsWithin_findMap_iff haddr (by omega) hfuel fuel (addr + 8) (by omega) (by omega)
    (by omega)

/-- A structure of 64 bytes at `0x10000`: a tag of another type, a memory map with one entry, and
the tag that ends the list. -/
def goodTags (addr : ℕ) : UInt8 :=
  match addr with
  | 0x10000 => 64
  | 0x10008 => 1
  | 0x1000C => 8
  | 0x10010 => 6
  | 0x10014 => 40
  | 0x10018 => 24
  | 0x10029 => 0xFC
  | 0x1002A => 9
  | 0x10030 => 1
  | 0x1003C => 8
  | _ => 0

/-- The three tags are good, so it is read inside the structure. -/
theorem regions_readsWithin_iff_goodTags : ReadsWithin 0x10000 0x10040
    (BootInfo.new goodTags 0x10000 >>= fun info => info.regions goodTags (2 ^ 32)) := by
  refine (regions_readsWithin_iff goodTags 0x10000 (by decide) (by decide) (2 ^ 32) le_rfl).mpr ?_
  have htotal : 0x10000 + leBytes goodTags 0x10000 4 = 0x10040 := by decide
  have hother : tagType goodTags 0x10008 = 1 ∧ tagSize goodTags 0x10008 = 8 := by decide
  have hmap : tagType goodTags 0x10010 = tagTypeMemoryMap ∧ tagSize goodTags 0x10010 = 40 ∧
      tagEntrySize goodTags 0x10010 = 24 := by decide
  rw [htotal, forall_tagAt_iff, hother.2, forall_tagAt_iff]
  refine ⟨⟨by norm_num, fun _ _ h => ?_⟩, fun _ => ⟨⟨by norm_num, fun _ _ _ => ⟨by norm_num, ?_⟩⟩,
    fun hpass => absurd hmap.1 hpass.2.2.2⟩⟩
  · rw [hother.1] at h
    exact absurd h (by decide)
  · rw [hmap.2.1, hmap.2.2, EntriesOk]
    decide

/-- A structure of 16 bytes at `0x10000` that ends with the header of a memory map. -/
def truncatedTag (addr : ℕ) : UInt8 :=
  match addr with
  | 0x10000 => 16
  | 0x10008 => 6
  | 0x1000C => 8
  | _ => 0

/-- The size of the entries is read behind the end of the structure. -/
theorem truncatedTag_not_readsWithin :
    8 ≤ leBytes truncatedTag 0x10000 4 ∧ 0x10000 + leBytes truncatedTag 0x10000 4 < 2 ^ 64 ∧
      ∀ fuel, ¬ ReadsWithin 0x10000 (0x10000 + leBytes truncatedTag 0x10000 4)
        (BootInfo.new truncatedTag 0x10000 >>= fun info => info.regions truncatedTag fuel) := by
  refine ⟨by decide, by decide, fun fuel h => ?_⟩
  cases fuel with
  | zero => exact h.1 rfl
  | succ fuel =>
    have hlog : (BootInfo.new truncatedTag 0x10000 >>= fun info =>
        info.regions truncatedTag (fuel + 1)).log = [⟨0x10000, 4⟩, ⟨0x10008, 8⟩, ⟨0x10010, 4⟩] :=
      rfl
    have hread := h.2 ⟨0x10010, 4⟩ (by rw [hlog]; decide)
    exact absurd hread (by decide)

end ZiranOS
