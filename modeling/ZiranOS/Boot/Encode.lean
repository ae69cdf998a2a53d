import ZiranOS.Boot.Bounds
import ZiranOS.Lib.Field

/-!
# The boot information as it is written

A loader writes the total size, a reserved word and a list of tags, each filled up to a multiple of
8 bytes.  `BootStructure` is such a structure by its parts: tags of other types, then the tag of the
memory map or, if there is none, the tag that ends the list, and then whatever follows.  The walk
over its bytes yields the entries of the memory map in order, and no map where there is none
(`regions_bytes`).  The distance of the entries is part of the map, so entries may be longer than
what is read of them.
-/

namespace ZiranOS

open ProgLib

/-! ## The parts of the structure -/

/-- A tag that neither holds the memory map nor ends the list. -/
structure BootTag where
  typ : ℕ
  payload : List UInt8
  /-- What fills the tag up to a multiple of 8 bytes. -/
  padding : List UInt8
  typ_lt : typ < 2 ^ 32
  ne_end : typ ≠ tagTypeEnd
  ne_map : typ ≠ tagTypeMemoryMap
  padding_lt : padding.length < 8
  padded : (payload.length + padding.length) % 8 = 0

/-- The bytes of a tag; its size does not count the padding. -/
def BootTag.bytes (t : BootTag) : List UInt8 :=
  leField 4 t.typ ++ (leField 4 (tagHeaderSize + t.payload.length) ++ (t.payload ++ t.padding))

/-- An entry of a memory map, as long as the map says. -/
structure MapEntry (entrySize : ℕ) where
  region : MemoryRegion
  /-- The reserved word, and what else there is behind the kind. -/
  padding : List UInt8
  base_lt : region.base < 2 ^ 64
  length_lt : region.length < 2 ^ 64
  kind_lt : region.kind < 2 ^ 32
  padded : 20 + padding.length = entrySize

/-- The bytes of an entry. -/
def MapEntry.bytes {entrySize : ℕ} (e : MapEntry entrySize) : List UInt8 :=
  leField 8 e.region.base ++ (leField 8 e.region.length ++ (leField 4 e.region.kind ++ e.padding))

/-- The tag of a memory map. -/
structure MapTag where
  entrySize : ℕ
  version : ℕ
  entries : List (MapEntry entrySize)
  /-- An entry holds at least the fields that are read of it. -/
  le_entrySize : rawEntrySize ≤ entrySize
  entrySize_lt : entrySize < 2 ^ 32

namespace MapTag

/-- The size of the tag. -/
def size (m : MapTag) : ℕ := 16 + m.entrySize * m.entries.length

/-- The bytes of the tag. -/
def bytes (m : MapTag) : List UInt8 :=
  leField 4 tagTypeMemoryMap ++ (leField 4 m.size ++ (leField 4 m.entrySize ++
    (leField 4 m.version ++ m.entries.flatMap MapEntry.bytes)))

/-- The regions of the map. -/
def regions (m : MapTag) : List MemoryRegion := m.entries.map MapEntry.region

end MapTag

/-- The tag that ends the list. -/
def endTag : List UInt8 := leField 4 tagTypeEnd ++ leField 4 tagHeaderSize

/-- The tags of the boot information. -/
structure BootTags where
  /-- The tags in front of the memory map, or of the end of the list. -/
  tags : List BootTag
  /-- The memory map, if there is one before the end of the list. -/
  map : Option MapTag
  /-- Further tags and the end of the list behind the map, or anything behind the end. -/
  rest : List UInt8

/-- The bytes of the tags. -/
def BootTags.bytes (b : BootTags) : List UInt8 :=
  b.tags.flatMap BootTag.bytes ++ (b.map.elim endTag MapTag.bytes ++ b.rest)

/-- The boot information. -/
structure BootStructure extends BootTags where
  reserved : ℕ
  /-- The total size is a word of 32 bits. -/
  fits : 8 + toBootTags.bytes.length < 2 ^ 32

/-- The bytes of the boot information. -/
def BootStructure.bytes (s : BootStructure) : List UInt8 :=
  leField 4 (8 + s.toBootTags.bytes.length) ++ (leField 4 s.reserved ++ s.toBootTags.bytes)

variable {mem : ℕ → UInt8} {p fin : ℕ}

/-! ## Lengths -/

/-- A tag is its header and its payload, rounded up. -/
lemma BootTag.length_bytes (t : BootTag) :
    t.bytes.length = (tagHeaderSize + t.payload.length + 7) / 8 * 8 := by
  have hlt := t.padding_lt
  have hpad := t.padded
  simp only [bytes, tagHeaderSize, List.length_append, length_leField]
  omega

/-- An entry is as long as the map says. -/
lemma MapEntry.length_bytes {entrySize : ℕ} (e : MapEntry entrySize) :
    e.bytes.length = entrySize := by
  have hpad := e.padded
  simp only [bytes, List.length_append, length_leField]
  omega

/-- The entries of a map. -/
lemma MapEntry.length_flatMap {entrySize : ℕ} (entries : List (MapEntry entrySize)) :
    (entries.flatMap MapEntry.bytes).length = entrySize * entries.length := by
  induction entries with
  | nil => rfl
  | cons e entries ih =>
    rw [List.flatMap_cons, List.length_append, e.length_bytes, ih, List.length_cons, Nat.mul_succ,
      Nat.add_comm]

/-- The tag of a map has the size that it says. -/
lemma MapTag.length_bytes (m : MapTag) : m.bytes.length = m.size := by
  simp only [bytes, size, List.length_append, length_leField, MapEntry.length_flatMap]
  omega

/-- A structure has the total size that it says. -/
lemma BootStructure.length_bytes (s : BootStructure) :
    s.bytes.length = 8 + s.toBootTags.bytes.length := by
  simp only [bytes, List.length_append, length_leField]
  omega

/-! ## Reading what was written -/

/-- The low bytes of a field. -/
lemma leBytes_eq_mod {n v : ℕ} (h : BytesAt mem p (leField n v)) (hroom : p + n ≤ 2 ^ 64) :
    ∀ len ≤ n, leBytes mem p len = v % 256 ^ len := by
  intro len
  induction len with
  | zero => exact fun _ => (Nat.mod_one v).symm
  | succ len ih =>
    intro hlen
    rw [leBytes, ih (by omega), wrapAdd_eq (by omega), toNat_of_bytesAt h hlen,
      Nat.mod_pow_succ, Nat.mul_comm]

/-- **A field is read back.** -/
lemma leBytes_leField {n v : ℕ} (h : BytesAt mem p (leField n v)) (hroom : p + n ≤ 2 ^ 64)
    (hv : v < 256 ^ n) : leBytes mem p n = v := by
  rw [leBytes_eq_mod h hroom n le_rfl, Nat.mod_eq_of_lt hv]

/-- Reading a number. -/
lemma out_readLe (mem : ℕ → UInt8) (addr len : ℕ) :
    (readLe mem addr len).out = .ok (leBytes mem addr len) := rfl

/-- Reading the header of a tag. -/
lemma out_readHeader {typ size : ℕ} {rest : List UInt8}
    (h : BytesAt mem p (leField 4 typ ++ (leField 4 size ++ rest))) (hroom : p + 8 ≤ 2 ^ 64)
    (htyp : typ < 2 ^ 32) (hsize : size < 2 ^ 32) : (readHeader mem p).out = .ok (typ, size) := by
  simp only [bytesAt_append, length_leField] at h
  obtain ⟨hfirst, hsecond, -⟩ := h
  unfold readHeader
  rw [Traced.out_bind, Traced.out_tell, Exec.bind_ok, Traced.out_pure, wrapAdd_eq (by omega),
    leBytes_leField hfirst (by omega) (by omega), leBytes_leField hsecond (by omega) (by omega)]

/-- Reading an entry. -/
lemma out_readEntryAt {entrySize : ℕ} (e : MapEntry entrySize) (h : BytesAt mem p e.bytes)
    (hroom : p + 20 ≤ 2 ^ 64) : (readEntryAt mem p).out = .ok e.region := by
  simp only [MapEntry.bytes, bytesAt_append, length_leField, Nat.add_assoc] at h
  obtain ⟨hbase, hlength, hkind, -⟩ := h
  have hbase_lt := e.base_lt
  have hlength_lt := e.length_lt
  have hkind_lt := e.kind_lt
  unfold readEntryAt
  rw [Traced.out_bind, Traced.out_tell, Exec.bind_ok, Traced.out_pure, wrapAdd_eq (by omega),
    wrapAdd_eq (by omega), leBytes_leField hbase (by omega) (by omega),
    leBytes_leField hlength (by omega) (by omega), leBytes_leField hkind (by omega) (by omega)]

/-- **The entries of a map** are yielded in order. -/
lemma out_collect {es fuel : ℕ} (hes : rawEntrySize ≤ es) (entries : List (MapEntry es))
    (h : BytesAt mem p (entries.flatMap MapEntry.bytes))
    (hroom : p + es * entries.length + es < 2 ^ 64) (hfuel : entries.length < fuel) :
    (MemoryMapIter.collect mem fuel ⟨p, p + es * entries.length, es⟩).out =
      .ok (entries.map MapEntry.region) := by
  unfold rawEntrySize at hes
  induction entries generalizing p fuel with
  | nil =>
    obtain ⟨fuel, rfl⟩ := Nat.exists_eq_succ_of_ne_zero (Nat.ne_of_gt hfuel)
    rw [List.length_nil, Nat.mul_zero] at hroom
    rw [MemoryMapIter.collect, MemoryMapIter.nextRegion, if_pos]
    · rfl
    · dsimp only
      rw [wrapAdd_eq (by omega), List.length_nil]
      omega
  | cons e entries ih =>
    obtain ⟨fuel, rfl⟩ := Nat.exists_eq_succ_of_ne_zero (Nat.ne_zero_of_lt hfuel)
    rw [List.flatMap_cons, bytesAt_append, e.length_bytes] at h
    rw [List.length_cons, Nat.mul_succ] at hroom ⊢
    have hnext : wrapAdd p es = p + es := wrapAdd_eq (by omega)
    have hstop : p + (es * entries.length + es) = p + es + es * entries.length := by omega
    have hrest := @ih (p + es) fuel h.2 (by omega) (Nat.lt_of_succ_lt_succ hfuel)
    rw [MemoryMapIter.collect, MemoryMapIter.nextRegion, if_neg (by dsimp only; omega)]
    simp only [Traced.out_bind, out_readEntryAt e h.1 (by omega), Exec.bind_ok, Traced.out_pure,
      hnext, hstop, hrest, List.map_cons]

/-! ## The walk over the tags -/

/-- The walk goes past a tag of another type. -/
lemma out_findMap_tag (t : BootTag) (fuel : ℕ) (h : BytesAt mem p t.bytes)
    (hin : p + t.bytes.length ≤ fin) (hfin : fin < 2 ^ 64) (hfits : t.bytes.length < 2 ^ 32) :
    (BootInfo.findMap mem fin (fuel + 1) p).out =
      (BootInfo.findMap mem fin fuel (p + t.bytes.length)).out := by
  have hlen := t.length_bytes
  unfold tagHeaderSize at hlen
  have hround : (8 + t.payload.length + 7) &&& not64 7 = t.bytes.length := by
    rw [roundup_eq (by omega), hlen]
  have hheader : (readHeader mem p).out = .ok (t.typ, 8 + t.payload.length) :=
    out_readHeader h (by omega) t.typ_lt (by omega)
  rw [BootInfo.findMap, tagHeaderSize, wrapAdd_eq (by omega), if_pos (by omega), Traced.out_bind,
    hheader, Exec.bind_ok]
  dsimp only
  rw [if_neg (by omega), if_neg t.ne_end, if_neg t.ne_map, hround, wrapAdd_eq (by omega)]

/-- **The walk goes past all tags in front of the map.** -/
lemma out_findMap_tags (tags : List BootTag) (fuel : ℕ)
    (h : BytesAt mem p (tags.flatMap BootTag.bytes))
    (hin : p + (tags.flatMap BootTag.bytes).length ≤ fin) (hfin : fin < 2 ^ 64)
    (hfits : (tags.flatMap BootTag.bytes).length < 2 ^ 32) :
    (BootInfo.findMap mem fin (fuel + tags.length) p).out =
      (BootInfo.findMap mem fin fuel (p + (tags.flatMap BootTag.bytes).length)).out := by
  induction tags generalizing p with
  | nil => rfl
  | cons t tags ih =>
    rw [List.flatMap_cons, bytesAt_append] at h
    rw [List.flatMap_cons, List.length_append] at hin hfits ⊢
    rw [List.length_cons, ← Nat.add_assoc, out_findMap_tag t _ h.1 (by omega) hfin (by omega),
      ih h.2 (by omega) (by omega), Nat.add_assoc]

/-- The walk ends at the end of the list. -/
lemma out_findMap_endTag (fuel : ℕ) (h : BytesAt mem p endTag) (hin : p + 8 ≤ fin)
    (hfin : fin < 2 ^ 64) : (BootInfo.findMap mem fin (fuel + 1) p).out = .ok none := by
  have hheader : (readHeader mem p).out = .ok (tagTypeEnd, tagHeaderSize) := by
    refine @out_readHeader mem p _ _ [] ?_ (by omega) (by decide) (by decide)
    rwa [List.append_nil]
  rw [BootInfo.findMap, tagHeaderSize, wrapAdd_eq (by omega), if_pos hin, Traced.out_bind, hheader,
    Exec.bind_ok]
  rfl

/-- The distance of the entries is read behind the header of the map. -/
lemma leBytes_entrySize (m : MapTag) (h : BytesAt mem p m.bytes) (hroom : p + 12 ≤ 2 ^ 64) :
    leBytes mem (p + 8) 4 = m.entrySize := by
  have hlt := m.entrySize_lt
  simp only [MapTag.bytes, bytesAt_append, length_leField, Nat.add_assoc] at h
  exact leBytes_leField h.2.2.1 (by omega) (by omega)

/-- The walk ends at the memory map. -/
lemma out_findMap_map (m : MapTag) (fuel : ℕ) (h : BytesAt mem p m.bytes)
    (hin : p + m.size ≤ fin) (hfin : fin < 2 ^ 64) (hfits : m.size < 2 ^ 32) :
    (BootInfo.findMap mem fin (fuel + 1) p).out =
      .ok (some ⟨p + 16, p + m.size, m.entrySize⟩) := by
  have hsize : 16 ≤ m.size := by
    rw [MapTag.size]
    omega
  have hheader : (readHeader mem p).out = .ok (tagTypeMemoryMap, m.size) :=
    out_readHeader h (by omega) (by decide) hfits
  have hread := leBytes_entrySize m h (by omega)
  have hnext : wrapAdd p 16 = p + 16 := wrapAdd_eq (by omega)
  have hstop : wrapAdd p m.size = p + m.size := wrapAdd_eq (by omega)
  rw [BootInfo.findMap, tagHeaderSize, wrapAdd_eq (by omega), if_pos (by omega), Traced.out_bind,
    hheader, Exec.bind_ok]
  dsimp only
  rw [if_neg (by omega), if_neg (by decide), if_pos rfl]
  rw [Traced.out_bind, out_readLe, Exec.bind_ok, hread]
  rw [if_neg (not_lt.mpr m.le_entrySize), Traced.out_pure, hnext, hstop, Nat.min_eq_left hin]

/-! ## The whole structure -/

/-- There are no more tags than bytes. -/
lemma BootTag.length_le (tags : List BootTag) :
    tags.length ≤ (tags.flatMap BootTag.bytes).length := by
  induction tags with
  | nil => exact le_rfl
  | cons t tags ih =>
    have hlen := t.length_bytes
    unfold tagHeaderSize at hlen
    rw [List.length_cons, List.flatMap_cons, List.length_append]
    omega

/-- There are no more entries than bytes. -/
lemma MapTag.length_entries_le (m : MapTag) : m.entries.length ≤ m.size := by
  have hpos : 0 < m.entrySize := lt_of_lt_of_le (by decide) m.le_entrySize
  have hmul : 1 * m.entries.length ≤ m.entrySize * m.entries.length := Nat.mul_le_mul_right _ hpos
  rw [MapTag.size]
  omega

/-- The entries of a map are those of its tag. -/
lemma out_collect_map (m : MapTag) {fuel : ℕ} (h : BytesAt mem p m.bytes)
    (hroom : p + m.size + m.entrySize < 2 ^ 64) (hfuel : m.size < fuel) :
    (MemoryMapIter.collect mem fuel ⟨p + 16, p + m.size, m.entrySize⟩).out = .ok m.regions := by
  have hcount := m.length_entries_le
  have hstop : p + m.size = p + 16 + m.entrySize * m.entries.length := by
    rw [MapTag.size, Nat.add_assoc]
  simp only [MapTag.bytes, bytesAt_append, length_leField, Nat.add_assoc] at h
  rw [hstop] at hroom ⊢
  exact out_collect m.le_entrySize m.entries h.2.2.2.2 hroom (by omega)

/-- **The walk over the tags** finds the memory map if there is one, and its entries are yielded. -/
lemma out_findMap_tagsBytes (b : BootTags) (fuel fuel' : ℕ) (h : BytesAt mem p b.bytes)
    (hin : p + b.bytes.length = fin) (hroom : fin + 2 ^ 32 ≤ 2 ^ 64)
    (hfits : b.bytes.length < 2 ^ 32) (hfuel : 2 ^ 32 ≤ fuel) (hfuel' : 2 ^ 32 ≤ fuel') :
    (BootInfo.findMap mem fin fuel p >>= collectMap mem fuel').out =
      .ok (b.map.map MapTag.regions) := by
  have hcount := BootTag.length_le b.tags
  obtain ⟨tags, map, rest⟩ := b
  simp only [BootTags.bytes, bytesAt_append, List.length_append] at h hin hfits hcount ⊢
  obtain ⟨htags, hmap, -⟩ := h
  obtain ⟨more, rfl⟩ := Nat.exists_eq_add_of_le' (show tags.length + 1 ≤ fuel by omega)
  rw [Nat.add_comm tags.length, ← Nat.add_assoc, Traced.out_bind,
    out_findMap_tags tags _ htags (by omega) (by omega) (by omega)]
  cases map with
  | none =>
    have hlen : endTag.length = 8 := rfl
    rw [Option.elim_none, hlen] at hin
    rw [out_findMap_endTag _ hmap (by omega) (by omega)]
    rfl
  | some m =>
    have hlen := m.length_bytes
    have hlt := m.entrySize_lt
    have hentries := m.length_entries_le
    rw [Option.elim_some, hlen] at hin hfits
    rw [out_findMap_map m _ hmap (by omega) (by omega) (by omega), Exec.bind_ok, collectMap,
      map_eq_pure_bind, Traced.out_bind, out_collect_map m hmap (by omega) (by omega)]
    rfl

/-- **Decoding undoes encoding.**  If the bytes of a boot information lie in memory, and not in the
last 4 GiB of the address space, the walk over it yields the entries of its memory map in order, and
no map if there is none before the end of the list of tags. -/
theorem regions_bytes (s : BootStructure) (mem : ℕ → UInt8) (addr : ℕ)
    (h : BytesAt mem addr s.bytes) (haddr : addr + s.bytes.length + 2 ^ 32 ≤ 2 ^ 64) (fuel : ℕ)
    (hfuel : 2 ^ 32 ≤ fuel) :
    (BootInfo.new mem addr >>= fun info => info.regions mem fuel).out =
      .ok (s.map.map MapTag.regions) := by
  have hlen := s.length_bytes
  have hfits := s.fits
  rw [BootStructure.bytes, bytesAt_append, bytesAt_append, length_leField, length_leField,
    Nat.add_assoc] at h
  obtain ⟨htotal, -, htags⟩ := h
  have hread : leBytes mem addr 4 = 8 + s.toBootTags.bytes.length :=
    leBytes_leField htotal (by omega) (by omega)
  rw [BootInfo.new, bind_assoc, Traced.out_bind, out_readLe, Exec.bind_ok, pure_bind, regions_eq,
    BootInfo.memoryMap, hread]
  dsimp only
  rw [wrapAdd_eq (by omega), wrapAdd_eq (by omega)]
  exact out_findMap_tagsBytes s.toBootTags fuel fuel htags (by omega) (by omega) (by omega) hfuel
    hfuel

/-- A tag with a payload of three bytes, and a map with one entry of 40 bytes. -/
def oneEntry : BootStructure where
  tags := [⟨1, [0x61, 0x62, 0x63], List.replicate 5 0xFF, by decide, by decide, by decide,
    by decide, by decide⟩]
  map := some ⟨40, 0, [⟨⟨0, 0x9FC00, 1⟩, List.replicate 20 0xFF, by decide, by decide, by decide,
    by decide⟩], by decide, by decide⟩
  rest := endTag
  reserved := 0
  fits := by decide

/-- The entry is read back. -/
theorem regions_bytes_oneEntry :
    (BootInfo.new (fun a => oneEntry.bytes.getD (a - 0x10000) 0) 0x10000 >>= fun info =>
      info.regions (fun a => oneEntry.bytes.getD (a - 0x10000) 0) (2 ^ 32)).out =
        .ok (some [⟨0, 0x9FC00, 1⟩]) :=
  regions_bytes oneEntry _ 0x10000 (bytesAt_getD 0x10000 _ 0) (by decide) (2 ^ 32) le_rfl

end ZiranOS
