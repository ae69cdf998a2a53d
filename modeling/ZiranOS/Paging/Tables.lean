import Mathlib
import ZiranOS.Lib.Exec
import ZiranOS.Lib.Run
import ZiranOS.Lib.Words

/-!
# Four-level page tables

A page table is a 4 KiB frame of 512 words; a word is an entry with the address of the next table,
or of a page, and flag bits.  Memory is a map from physical byte addresses to 64-bit words, and a
table is reached at its own address, which `physToVirt` asserts to lie in the identity map: every
access through another address is a failed assertion.

The frame allocator is outside of this file: `frames k` is its answer to the `k`-th request for a
frame, `none` when it has none.  The translation lookaside buffer only caches walks and is left
out.
-/

namespace ZiranOS

open ProgLib

/-! ## Entries -/

/-- Page and frame size. -/
def frameSize : ℕ := 4096
/-- The address bits of an entry, 51 to 12. -/
def addrMask : ℕ := 0x000FFFFFFFFFF000
/-- Flag: the entry is valid. -/
def present : ℕ := 1 <<< 0
/-- Flag: the region under the entry is writable. -/
def writable : ℕ := 1 <<< 1
/-- Flag: the region under the entry is reachable from ring 3. -/
def user : ℕ := 1 <<< 2
/-- Flag: the entry maps a large page. -/
def huge : ℕ := 1 <<< 7
/-- The end of the identity-mapped window. -/
def identityLimit : ℕ := 1 <<< 30

/-- The index of the entry for `virt` in a table of the given level. -/
def tableIndex (virt level : ℕ) : ℕ := (virt >>> (12 + 9 * level)) &&& 0x1FF

/-! ## Memory -/

/-- The state of paging: physical memory, the root of the live tables, and the number of requests
made to the frame allocator. -/
structure Paging where
  mem : ℕ → ℕ
  cr3 : ℕ
  allocs : ℕ

/-- A physical address as the kernel dereferences it. -/
def physToVirt (phys : ℕ) : Exec Unit ℕ :=
  if phys < identityLimit then .ok phys else Exec.panic .assertion

/-- Why a mapping can fail. -/
inductive MapError where
  | outOfFrames
  | hugePage
  deriving DecidableEq, Repr

namespace Paging

/-- Read the entry with the given index of a table. -/
def readEntry (s : Paging) (table index : ℕ) : Exec Unit ℕ := do
  let table ← physToVirt table
  pure (s.mem (table + 8 * index))

/-- Write the entry with the given index of a table. -/
def writeEntry (s : Paging) (table index entry : ℕ) : Exec Unit Paging := do
  let table ← physToVirt table
  pure { s with mem := Function.update s.mem (table + 8 * index) entry }

/-- Zero the 512 words of a frame. -/
def zeroFrame (s : Paging) (frame : ℕ) : Exec Unit Paging := do
  let ptr ← physToVirt frame
  pure { s with mem :=
    (List.range (frameSize / 8)).foldl (fun mem i => Function.update mem (ptr + 8 * i) 0) s.mem }

/-! ## Walking the tables -/

/-- Walk from the table of the given level down to the page of `virt`. -/
def translateLevels (s : Paging) (virt : ℕ) : (level table : ℕ) → Exec Unit (Option ℕ)
  | 0, table => do
    let entry ← s.readEntry table (tableIndex virt 0)
    if entry &&& present = 0 then
      pure none
    else
      pure (some ((entry &&& addrMask) + (virt &&& 0xFFF)))
  | level + 1, table => do
    let entry ← s.readEntry table (tableIndex virt (level + 1))
    if entry &&& present = 0 then
      pure none
    else if level + 1 ≤ 2 ∧ entry &&& huge ≠ 0 then
      let offsetMask := 2 ^ (12 + 9 * (level + 1)) - 1
      let page := (entry &&& addrMask) &&& not64 offsetMask
      pure (some (page + (virt &&& offsetMask)))
    else
      s.translateLevels virt level (entry &&& addrMask)

/-- Walk the tables rooted at `pml4`. -/
def translateFrom (s : Paging) (pml4 virt : ℕ) : Exec Unit (Option ℕ) :=
  s.translateLevels virt 3 pml4

/-- Translate a virtual address by the live tables. -/
def translate (s : Paging) (virt : ℕ) : Exec Unit (Option ℕ) :=
  s.translateFrom (s.cr3 &&& addrMask) virt

/-! ## Building an address space -/

variable (frames : ℕ → Option ℕ)

/-- Allocate one frame for a table and zero it, or `none` if no frame is free. -/
def allocTable (s : Paging) : Exec Unit (Paging × Option ℕ) :=
  let s' := { s with allocs := s.allocs + 1 }
  match frames s.allocs with
  | none => pure (s', none)
  | some phys => do
    let s' ← s'.zeroFrame phys
    pure (s', some phys)

/-- A table that has to be there: running out of frames is fatal. -/
def expectTable (s : Paging) : Exec Unit (Paging × ℕ) := do
  match ← s.allocTable frames with
  | (s, some phys) => pure (s, phys)
  | (_, none) => Exec.panic .assertion

/-- The entry of the page directory that maps the `i`-th 2 MiB to itself. -/
def identityEntry (i : ℕ) : ℕ := i * 0x200000 ||| present ||| writable ||| huge

/-- Build tables that identity-map the first 1 GiB with 2 MiB pages; the result is the root. -/
def buildAddressSpace (s : Paging) : Exec Unit (Paging × ℕ) := do
  let (s, pml4) ← s.expectTable frames
  let (s, pdpt) ← s.expectTable frames
  let (s, pd) ← s.expectTable frames
  let s ← (List.range 512).foldlM (fun s i => s.writeEntry pd i (identityEntry i)) s
  let s ← s.writeEntry pdpt 0 (pd ||| present ||| writable)
  let s ← s.writeEntry pml4 0 (pdpt ||| present ||| writable)
  pure (s, pml4)

/-- Load the root of the tables. -/
def writeCr3 (s : Paging) (pml4 : ℕ) : Paging := { s with cr3 := pml4 }

/-- Build the tables of the kernel, verify a few representative addresses and switch to them. -/
def init (s : Paging) : Exec Unit Paging := do
  let (s, pml4) ← s.buildAddressSpace frames
  if (← s.translateFrom pml4 0xb8000) ≠ some 0xb8000 then
    Exec.panic .assertion
  else if (← s.translateFrom pml4 0x100000) ≠ some 0x100000 then
    Exec.panic .assertion
  else if (← s.translateFrom pml4 0x3FFFF000) ≠ some 0x3FFFF000 then
    Exec.panic .assertion
  else if (← s.translateFrom pml4 0x40000000) ≠ none then
    Exec.panic .assertion
  else
    pure (s.writeCr3 pml4)

/-! ## Mapping and unmapping -/

/-- The flags of a new table entry. -/
def newTable (userPage : Bool) : ℕ :=
  if userPage then present ||| writable ||| user else present ||| writable

/-- Descend from the table of the given level to the page table for `virt`, creating any missing
table on the way. -/
def descend (virt : ℕ) (userPage : Bool) :
    (level table : ℕ) → Paging → Exec Unit (Paging × Except MapError ℕ)
  | 0, table, s => pure (s, .ok table)
  | level + 1, table, s => do
    let index := tableIndex virt (level + 1)
    let entry ← s.readEntry table index
    if entry &&& present ≠ 0 then
      if level + 1 ≤ 2 ∧ entry &&& huge ≠ 0 then
        pure (s, .error .hugePage)
      else
        let s ← if userPage ∧ entry &&& user = 0 then s.writeEntry table index (entry ||| user)
          else pure s
        descend virt userPage level (entry &&& addrMask) s
    else
      match ← s.allocTable frames with
      | (s, none) => pure (s, .error .outOfFrames)
      | (s, some next) => do
        let s ← s.writeEntry table index (next ||| newTable userPage)
        descend virt userPage level next s

/-- The shared walk of `map_page` and `map_user_page`. -/
def mapInner (s : Paging) (virt phys flags : ℕ) (userPage : Bool) :
    Exec Unit (Paging × Except MapError Unit) := do
  let virt := virt &&& not64 (frameSize - 1)
  let phys := phys &&& not64 (frameSize - 1)
  match ← descend frames virt userPage 3 (s.cr3 &&& addrMask) s with
  | (s, .error e) => pure (s, .error e)
  | (s, .ok table) => do
    let leaf := phys ||| flags ||| present ||| if userPage then user else 0
    let s ← s.writeEntry table (tableIndex virt 0) leaf
    pure (s, .ok ())

/-- Map a page for the kernel only. -/
def mapPage (s : Paging) (virt phys flags : ℕ) : Exec Unit (Paging × Except MapError Unit) :=
  s.mapInner frames virt phys flags false

/-- Map a page for ring 3; the address has to lie above the identity window. -/
def mapUserPage (s : Paging) (virt phys flags : ℕ) : Exec Unit (Paging × Except MapError Unit) :=
  if virt ≥ identityLimit then s.mapInner frames virt phys flags true
  else Exec.panic .assertion

/-- Walk to the page table of `virt`; `none` if it is not there or the walk meets a large page. -/
def findTable (s : Paging) (virt : ℕ) : (level table : ℕ) → Exec Unit (Option ℕ)
  | 0, table => pure (some table)
  | level + 1, table => do
    let entry ← s.readEntry table (tableIndex virt (level + 1))
    if entry &&& present = 0 ∨ entry &&& huge ≠ 0 then
      pure none
    else
      s.findTable virt level (entry &&& addrMask)

/-- Unmap a page; the result says whether it was mapped. -/
def unmapPage (s : Paging) (virt : ℕ) : Exec Unit (Paging × Bool) := do
  let virt := virt &&& not64 (frameSize - 1)
  match ← s.findTable virt 3 (s.cr3 &&& addrMask) with
  | none => pure (s, false)
  | some table => do
    let index := tableIndex virt 0
    let entry ← s.readEntry table index
    if entry &&& present = 0 then
      pure (s, false)
    else
      let s ← s.writeEntry table index 0
      pure (s, true)

end Paging

/-! ## Calls -/

/-- The calls that change the tables. -/
inductive PagingCall where
  | mapPage (virt phys flags : ℕ)
  | mapUserPage (virt phys flags : ℕ)
  | unmapPage (virt : ℕ)
  deriving DecidableEq, Repr

/-- What a call returns. -/
inductive PagingResult where
  | mapped (result : Except MapError Unit)
  | unmapped (found : Bool)
  deriving DecidableEq

namespace Paging

variable (frames : ℕ → Option ℕ)

/-- The effect of a call. -/
def call (s : Paging) : PagingCall → Exec Unit (Paging × PagingResult)
  | .mapPage virt phys flags => do
    let (s, r) ← s.mapPage frames virt phys flags
    pure (s, .mapped r)
  | .mapUserPage virt phys flags => do
    let (s, r) ← s.mapUserPage frames virt phys flags
    pure (s, .mapped r)
  | .unmapPage virt => do
    let (s, b) ← s.unmapPage virt
    pure (s, .unmapped b)

end Paging

end ZiranOS
