import ZiranOS.Heap.FreeList

/-!
# The free list in the memory that it manages

Every free region starts with its own node: a word for its size and a word for the address of the
next node, 0 for none.  The allocator itself is the head of the list.  `findRegion` walks the list
cell by cell, where a cell is the head or the second word of a node, and unlinks the region it
takes; a region that becomes free is pushed to the front by writing a node into it.

Arithmetic is that of the debug build: an operation that leaves the machine word is a fault, and
`add_free_region` asserts the alignment of its region.  A walk has a fuel argument, and the outcome
`Exec.fail ()` if it has not come to its end when the fuel is used up.
-/

namespace ZiranOS

open ProgLib

/-- The free-list allocator in memory: the words of memory, and the first node. -/
structure NodeHeap where
  mem : ℕ → ℕ
  head : ℕ

namespace NodeHeap

/-- Round `addr` up to a multiple of `align`. -/
def alignUp (addr align : ℕ) : Exec Unit ℕ := do
  let sum ← addUsize addr align
  pure ((sum - 1) &&& not64 (align - 1))

/-- The end of a region. -/
def endAddr (r : Region) : Exec Unit ℕ := addUsize r.start r.size

/-- The region that the node at an address describes. -/
def regionAt (h : NodeHeap) (addr : ℕ) : Region := ⟨addr, h.mem addr⟩

/-- The pointer in a cell: the head, or the second word of a node. -/
def getNext (h : NodeHeap) : Option ℕ → ℕ
  | none => h.head
  | some addr => h.mem (addr + 8)

/-- Write the pointer in a cell. -/
def setNext (h : NodeHeap) : Option ℕ → ℕ → NodeHeap
  | none, next => { h with head := next }
  | some addr, next => { h with mem := Function.update h.mem (addr + 8) next }

/-- Push a free region onto the front of the list. -/
def addFreeRegion (h : NodeHeap) (addr size : ℕ) : Exec Unit NodeHeap := do
  if (← alignUp addr nodeAlign) ≠ addr then
    Exec.panic .assertion
  else if size ≥ nodeSize then
    pure
      { mem := Function.update (Function.update h.mem addr size) (addr + 8) h.head
        head := addr }
  else
    Exec.panic .assertion

/-- Adopt a region as the one free block. -/
def init (h : NodeHeap) (start size : ℕ) : Exec Unit NodeHeap := h.addFreeRegion start size

/-- The start of a block of the given size and alignment in the region, if the region can hold it
and what is left behind it is nothing or large enough for a node. -/
def allocFromRegion (r : Region) (size align : ℕ) : Exec Unit (Option ℕ) := do
  let allocStart ← alignUp r.start align
  if allocStart + size ≥ 2 ^ 64 then
    pure none
  else do
    let regionEnd ← endAddr r
    if allocStart + size > regionEnd then
      pure none
    else
      let excess := regionEnd - (allocStart + size)
      if 0 < excess ∧ excess < nodeSize then
        pure none
      else
        pure (some allocStart)

/-- Find the first region that can hold the block and unlink it; the result is the address of its
node and the start of the block. -/
def findRegion (size align : ℕ) (h : NodeHeap) :
    (fuel : ℕ) → (current : Option ℕ) → Exec Unit (NodeHeap × Option (ℕ × ℕ))
  | 0, _ => Exec.fail ()
  | fuel + 1, current => do
    let region := h.getNext current
    if region = 0 then
      pure (h, none)
    else
      match ← allocFromRegion (h.regionAt region) size align with
      | some allocStart =>
        let next := h.getNext (some region)
        let h := h.setNext (some region) 0
        let h := h.setNext current next
        pure (h, some (region, allocStart))
      | none => findRegion size align h fuel (some region)

/-- Allocate a block; `none` is the null pointer. -/
def alloc (h : NodeHeap) (fuel : ℕ) (layout : Layout) : Exec Unit (NodeHeap × Option ℕ) := do
  let (size, align) ← sizeAlign layout
  match ← findRegion size align h fuel none with
  | (h, none) => pure (h, none)
  | (h, some (region, allocStart)) => do
    let allocEnd ← addUsize allocStart size
    let regionEnd ← endAddr (h.regionAt region)
    let excess := regionEnd - allocEnd
    let h ← if excess > 0 then h.addFreeRegion allocEnd excess else pure h
    pure (h, some allocStart)

/-- Take a block back. -/
def dealloc (h : NodeHeap) (ptr : ℕ) (layout : Layout) : Exec Unit NodeHeap := do
  let (size, _) ← sizeAlign layout
  h.addFreeRegion ptr size

/-- The sum of the sizes in the list from the node `cur` on. -/
def sumFree (h : NodeHeap) : (fuel cur total : ℕ) → Exec Unit ℕ
  | 0, _, _ => Exec.fail ()
  | fuel + 1, cur, total =>
    if cur = 0 then
      pure total
    else do
      let total ← addUsize total (h.mem cur)
      h.sumFree fuel (h.mem (cur + 8)) total

/-- The used and the free bytes of the heap. -/
def stats (h : NodeHeap) (fuel : ℕ) : Exec Unit (ℕ × ℕ) := do
  let free ← h.sumFree fuel h.head 0
  pure (heapSize - free, free)

end NodeHeap

end ZiranOS
