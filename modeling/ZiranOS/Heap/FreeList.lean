import ZiranOS.Lib.Exec
import ZiranOS.Lib.FirstFit
import ZiranOS.Lib.Words

/-!
# The free-list heap

The heap is a list of free regions, in the order in which the links run through them.  An
allocation takes the first region that fits (`findRegion`), hands out its start and pushes the rest
of it to the front of the list; a deallocation pushes the block to the front.  Neighbouring regions
are never merged.

Machine arithmetic wraps as in the release build, except where the source checks it.
-/

namespace ZiranOS

open ProgLib

/-- Base of the kernel heap. -/
def heapBase : ℕ := 0x40000000
/-- Size of the kernel heap. -/
def heapSize : ℕ := 0x100000
/-- The size of a `ListNode`, and so the smallest region that can be listed. -/
def nodeSize : ℕ := 16
/-- The alignment of a `ListNode`. -/
def nodeAlign : ℕ := 8

/-- The size and the alignment of a memory block, as the language admits them: the alignment is a
power of two, and the size rounded up to it is at most `2 ^ 63 - 1`. -/
structure Layout where
  size : ℕ
  align : ℕ
  align_pow : ∃ k < 64, align = 2 ^ k
  size_le : size + align ≤ 2 ^ 63

/-- The layout of an array of bytes; a size that no layout admits is a capacity overflow. -/
def Layout.bytes {ε : Type} (size : ℕ) : Exec ε Layout :=
  if h : size + 1 ≤ 2 ^ 63 then .ok ⟨size, 1, ⟨0, by omega, rfl⟩, h⟩ else Exec.panic .overflow

/-- Round `addr` up to a multiple of `align`. -/
def alignUp (addr align : ℕ) : ℕ := (addr + align - 1) % 2 ^ 64 &&& not64 (align - 1)

/-- Round a request up so that every block can hold a `ListNode`; an alignment that is too large
for the size is a failed assertion. -/
def sizeAlign {ε : Type} (layout : Layout) : Exec ε (ℕ × ℕ) :=
  let align := max layout.align nodeAlign
  if layout.size + align ≤ 2 ^ 63 then
    let size := (layout.size + align - 1) / align * align
    .ok (max size nodeSize, align)
  else
    Exec.panic .assertion

/-- A free region, as its node describes it. -/
structure Region where
  start : ℕ
  size : ℕ
  deriving DecidableEq, Repr

/-- The end of a region. -/
def Region.endAddr (r : Region) : ℕ := (r.start + r.size) % 2 ^ 64

/-- The free-list allocator: the regions in the order of the list. -/
structure FreeListHeap where
  regions : List Region
  deriving DecidableEq, Repr

namespace FreeListHeap

variable {ε : Type}

/-- The allocator before it owns any memory. -/
def new : FreeListHeap := ⟨[]⟩

/-- Push a free region onto the front of the list. -/
def addFreeRegion (h : FreeListHeap) (addr size : ℕ) : Exec ε FreeListHeap :=
  if size ≥ nodeSize then .ok ⟨⟨addr, size⟩ :: h.regions⟩ else Exec.panic .assertion

/-- Adopt a region as the one free block. -/
def init (h : FreeListHeap) (start size : ℕ) : Exec ε FreeListHeap := h.addFreeRegion start size

/-- The start of a block of the given size and alignment in the region, if the region can hold it
and what is left behind it is nothing or large enough for a node. -/
def allocFromRegion (r : Region) (size align : ℕ) : Option ℕ :=
  let allocStart := alignUp r.start align
  if allocStart + size ≥ 2 ^ 64 then none
  else if allocStart + size > r.endAddr then none
  else
    let excess := r.endAddr - (allocStart + size)
    if 0 < excess ∧ excess < nodeSize then none else some allocStart

/-- The first region that can hold the block, with the start of the block and the list without
that region. -/
def findRegion (size align : ℕ) (regions : List Region) : Option (Region × ℕ × List Region) :=
  extractFirst (fun r => allocFromRegion r size align) regions

/-- Allocate a block; `none` is the null pointer. -/
def alloc (h : FreeListHeap) (layout : Layout) : Exec ε (FreeListHeap × Option ℕ) := do
  let (size, align) ← sizeAlign layout
  match findRegion size align h.regions with
  | none => pure (h, none)
  | some (region, allocStart, rest) =>
    let allocEnd := allocStart + size
    let excess := region.endAddr - allocEnd
    let h ← if excess > 0 then (⟨rest⟩ : FreeListHeap).addFreeRegion allocEnd excess
      else pure ⟨rest⟩
    pure (h, some allocStart)

/-- Take a block back. -/
def dealloc (h : FreeListHeap) (ptr : ℕ) (layout : Layout) : Exec ε FreeListHeap := do
  let (size, _) ← sizeAlign layout
  h.addFreeRegion ptr size

end FreeListHeap

end ZiranOS
