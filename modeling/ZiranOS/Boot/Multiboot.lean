import ZiranOS.Lib.Traced
import ZiranOS.Lib.Words

/-!
# The boot information

The boot loader leaves a structure in memory: its total size, and from its eighth byte on a list of
tags, each with its type and its size.  `memoryMap` walks the tags to the memory map, and
`MemoryMapIter.next` yields the regions of the map one after another.

Addresses are 64-bit words and additions wrap, as in the release build.  Every read is logged with
its address and its length.  A walk has a fuel argument, and the outcome `Exec.fail ()` if it has
not come to its end when the fuel is used up.
-/

namespace ZiranOS

open ProgLib

/-- Type of the tag with the memory map. -/
def tagTypeMemoryMap : ℕ := 6
/-- Type of the tag that ends the list. -/
def tagTypeEnd : ℕ := 0
/-- Kind of a region of usable memory. -/
def memoryKindUsable : ℕ := 1

/-- The size of the header that every tag starts with: its type and its size. -/
def tagHeaderSize : ℕ := 8
/-- The size of an entry of the memory map: base, length, kind and padding. -/
def rawEntrySize : ℕ := 24

/-- Addition of addresses. -/
def wrapAdd (a b : ℕ) : ℕ := (a + b) % 2 ^ 64

/-- A sum in the address space. -/
lemma wrapAdd_eq {a b : ℕ} (h : a + b < 2 ^ 64) : wrapAdd a b = a + b := Nat.mod_eq_of_lt h

/-- A sum that wraps. -/
lemma wrapAdd_eq_sub {a b : ℕ} (h : 2 ^ 64 ≤ a + b) (h' : a + b < 2 ^ 64 + 2 ^ 64) :
    wrapAdd a b = a + b - 2 ^ 64 := by
  rw [wrapAdd, Nat.mod_eq_sub_mod h, Nat.mod_eq_of_lt (by omega)]

/-- The number in `len` bytes, the lowest byte first. -/
def leBytes (mem : ℕ → UInt8) (addr : ℕ) : ℕ → ℕ
  | 0 => 0
  | len + 1 => leBytes mem addr len + (mem (wrapAdd addr len)).toNat * 256 ^ len

/-- A read of `len` bytes. -/
structure BootRead where
  addr : ℕ
  len : ℕ
  deriving DecidableEq, Repr

/-- One region of physical memory. -/
structure MemoryRegion where
  base : ℕ
  length : ℕ
  kind : ℕ
  deriving DecidableEq, Repr

namespace MemoryRegion

/-- One past the last byte of the region; a region that is too long ends with the address space. -/
def endAddr (r : MemoryRegion) : ℕ := min (r.base + r.length) (2 ^ 64 - 1)

/-- Whether the region is usable memory. -/
def isUsable (r : MemoryRegion) : Bool := r.kind = memoryKindUsable

end MemoryRegion

/-- An iterator over the entries of the memory map: the next entry, the end of the map, and the
distance of entries. -/
structure MemoryMapIter where
  next : ℕ
  «end» : ℕ
  entrySize : ℕ
  deriving DecidableEq, Repr

/-- The boot information at an address. -/
structure BootInfo where
  addr : ℕ
  totalSize : ℕ
  deriving DecidableEq, Repr

section Walk

variable (mem : ℕ → UInt8)

/-- Read a number of `len` bytes. -/
def readLe (addr len : ℕ) : Traced BootRead Unit ℕ := do
  Traced.tell ⟨addr, len⟩
  pure (leBytes mem addr len)

/-- Read the header of a tag: its type and its size. -/
def readHeader (addr : ℕ) : Traced BootRead Unit (ℕ × ℕ) := do
  Traced.tell ⟨addr, tagHeaderSize⟩
  pure (leBytes mem addr 4, leBytes mem (wrapAdd addr 4) 4)

/-- Read an entry of the memory map. -/
def readEntryAt (addr : ℕ) : Traced BootRead Unit MemoryRegion := do
  Traced.tell ⟨addr, rawEntrySize⟩
  pure ⟨leBytes mem addr 8, leBytes mem (wrapAdd addr 8) 8, leBytes mem (wrapAdd addr 16) 4⟩

namespace BootInfo

/-- The boot information at an address; its total size is its first word. -/
def new (addr : ℕ) : Traced BootRead Unit BootInfo := do
  let totalSize ← readLe mem addr 4
  pure ⟨addr, totalSize⟩

/-- The bytes of the structure. -/
def region (info : BootInfo) : ℕ × ℕ :=
  (info.addr, min (info.addr + info.totalSize) (2 ^ 64 - 1))

/-- Walk the tags from `tagPtr` on to the memory map. -/
def findMap («end» : ℕ) : (fuel tagPtr : ℕ) → Traced BootRead Unit (Option MemoryMapIter)
  | 0, _ => Traced.lift (Exec.fail ())
  | fuel + 1, tagPtr =>
    if wrapAdd tagPtr tagHeaderSize ≤ «end» then do
      let header ← readHeader mem tagPtr
      if header.2 < tagHeaderSize then
        pure none
      else if header.1 = tagTypeEnd then
        pure none
      else if header.1 = tagTypeMemoryMap then do
        let entrySize ← readLe mem (wrapAdd tagPtr 8) 4
        if entrySize < rawEntrySize then
          pure none
        else
          pure (some ⟨wrapAdd tagPtr 16, min (wrapAdd tagPtr header.2) «end», entrySize⟩)
      else
        findMap «end» fuel (wrapAdd tagPtr ((header.2 + 7) &&& not64 7))
    else
      pure none

/-- An iterator over the regions of memory, or `none` without a memory map. -/
def memoryMap (info : BootInfo) (fuel : ℕ) : Traced BootRead Unit (Option MemoryMapIter) :=
  findMap mem (wrapAdd info.addr info.totalSize) fuel (wrapAdd info.addr 8)

end BootInfo

/-- The next region, and the iterator behind it. -/
def MemoryMapIter.nextRegion (it : MemoryMapIter) :
    Traced BootRead Unit (Option (MemoryRegion × MemoryMapIter)) :=
  if wrapAdd it.next it.entrySize > it.end then
    pure none
  else do
    let raw ← readEntryAt mem it.next
    pure (some (raw, { it with next := wrapAdd it.next it.entrySize }))

/-- All regions that an iterator yields. -/
def MemoryMapIter.collect : (fuel : ℕ) → MemoryMapIter → Traced BootRead Unit (List MemoryRegion)
  | 0, _ => Traced.lift (Exec.fail ())
  | fuel + 1, it => do
    match ← it.nextRegion mem with
    | none => pure []
    | some x => do
      let regions ← collect fuel x.2
      pure (x.1 :: regions)

/-- The regions of the memory map in the boot information, or `none` without a memory map. -/
def BootInfo.regions (info : BootInfo) (fuel : ℕ) :
    Traced BootRead Unit (Option (List MemoryRegion)) := do
  match ← info.memoryMap mem fuel with
  | none => pure none
  | some it => do
    let regions ← it.collect mem fuel
    pure (some regions)

end Walk

end ZiranOS
