import ZiranOS.Boot.Multiboot
import ZiranOS.Lib.Bitmap

/-!
# The allocator of physical frames

One bit for each frame of the first 4 GiB: set if the frame is used.  `init` marks everything used,
frees the frames of the usable regions of the memory map, and takes back the null frame, the kernel
and the boot information.  `alloc` takes the first free frame and `free` gives one back.

Accesses to the bitmap are checked, and so is the subtraction from the counter of free frames; other
arithmetic wraps as in the release build.
-/

namespace ZiranOS

open ProgLib

/-- The size of a physical frame. -/
def physFrameSize : ℕ := 4096
/-- The end of the physical memory that the bitmap covers. -/
def maxAddress : ℕ := 4 * 1024 * 1024 * 1024
/-- The number of frames that the bitmap covers. -/
def frameCount : ℕ := maxAddress / physFrameSize
/-- The number of words of the bitmap. -/
def bitmapWords : ℕ := frameCount / 64

/-- A physical frame, by its start address. -/
structure PhysFrame where
  start : ℕ
  deriving DecidableEq, Repr

namespace PhysFrame

/-- The frame that contains an address. -/
def containingAddress (addr : ℕ) : PhysFrame := ⟨addr &&& not64 (physFrameSize - 1)⟩

/-- The number of a frame in the bitmap. -/
def index (frame : PhysFrame) : ℕ := frame.start / physFrameSize

end PhysFrame

/-- The allocator: the bitmap, a set bit for each used frame, and the number of free frames. -/
structure FrameAllocator where
  bitmap : ℕ → BitVec 64
  freeFrames : ℕ

/-- What `init` reports: the usable frames of the map, its usable regions, the frames that remain
free, and the bytes that the bitmap does not cover. -/
structure InitReport where
  usableFrames : ℕ
  usableRegions : ℕ
  freeFrames : ℕ
  ignoredBytes : ℕ
  deriving DecidableEq, Repr

/-- What became of a frame that was given back. -/
inductive FreeOutcome where
  | freed
  | doubleFree
  | outOfRange
  deriving DecidableEq, Repr

namespace FrameAllocator

/-- The allocator before `init`. -/
def new : FrameAllocator := ⟨fun _ => 0, 0⟩

/-- Mark a frame as used. -/
def setUsed (a : FrameAllocator) (index : ℕ) : Exec Unit FrameAllocator :=
  if index / 64 < bitmapWords then .ok { a with bitmap := Bitmap.setBit a.bitmap index }
  else Exec.panic .outOfBounds

/-- Mark a frame as free. -/
def setFree (a : FrameAllocator) (index : ℕ) : Exec Unit FrameAllocator :=
  if index / 64 < bitmapWords then .ok { a with bitmap := Bitmap.clearBit a.bitmap index }
  else Exec.panic .outOfBounds

/-- Whether a frame is marked used. -/
def isUsed (a : FrameAllocator) (index : ℕ) : Exec Unit Bool :=
  if index / 64 < bitmapWords then
    .ok (decide (a.bitmap (index / 64) &&& Bitmap.mask 64 index ≠ 0))
  else Exec.panic .outOfBounds

/-- One free frame less. -/
def decFree (a : FrameAllocator) : Exec Unit FrameAllocator :=
  if 1 ≤ a.freeFrames then .ok { a with freeFrames := a.freeFrames - 1 }
  else Exec.panic .overflow

/-- One free frame more. -/
def incFree (a : FrameAllocator) : FrameAllocator := { a with freeFrames := a.freeFrames + 1 }

/-- Mark one frame as used. -/
def reserveFrame (a : FrameAllocator) (index : ℕ) : Exec Unit FrameAllocator := do
  let used ← a.isUsed index
  let a ← if !used then a.decFree else pure a
  a.setUsed index

/-- Mark every frame that overlaps the bytes from `start` to `end` as used. -/
def reserve (a : FrameAllocator) (start «end» : ℕ) : Exec Unit FrameAllocator :=
  if «end» ≤ start then
    pure a
  else
    let first := start / physFrameSize
    let last := wrapAdd «end» (physFrameSize - 1) / physFrameSize
    (List.range' first (min last frameCount - first)).foldlM reserveFrame a

/-- Free one frame of a usable region. -/
def releaseFrame (a : FrameAllocator) (index : ℕ) : Exec Unit FrameAllocator := do
  if ← a.isUsed index then
    a.incFree.setFree index
  else
    pure a

/-- The allocator while `init` goes through the regions, with the two other counters. -/
structure Progress where
  allocator : FrameAllocator
  usableRegions : ℕ
  ignoredBytes : ℕ

/-- Free the frames that lie wholly inside one region, if it is usable. -/
def freeRegion (p : Progress) (region : MemoryRegion) : Exec Unit Progress :=
  if !region.isUsable then
    pure p
  else if region.base ≥ maxAddress then
    pure { p with ignoredBytes := wrapAdd p.ignoredBytes region.length }
  else do
    let regionEnd := min region.endAddr maxAddress
    let ignoredBytes :=
      if region.endAddr > maxAddress then wrapAdd p.ignoredBytes (region.endAddr - maxAddress)
      else p.ignoredBytes
    let first := (region.base + physFrameSize - 1) / physFrameSize
    let last := regionEnd / physFrameSize
    if last ≤ first then
      pure { p with ignoredBytes := ignoredBytes }
    else
      let allocator ← (List.range' first (last - first)).foldlM releaseFrame p.allocator
      pure ⟨allocator, p.usableRegions + 1, ignoredBytes⟩

/-- Stand the allocator up from the regions of the memory map, the bytes of the kernel and the bytes
of the boot information.  Without a memory map, or without a usable frame, that is a failed
assertion. -/
def init (regions : Option (List MemoryRegion)) (kernelStart kernelEnd : ℕ) (bootInfo : ℕ × ℕ) :
    Exec Unit (FrameAllocator × InitReport) := do
  match regions with
  | none => Exec.panic .assertion
  | some memoryMap => do
    let allUsed : FrameAllocator := ⟨fun _ => BitVec.allOnes 64, 0⟩
    let p ← memoryMap.foldlM freeRegion ⟨allUsed, 0, 0⟩
    let usableFrames := p.allocator.freeFrames
    if usableFrames > 0 then do
      let a ← p.allocator.reserve 0 physFrameSize
      let a ← a.reserve kernelStart kernelEnd
      let a ← a.reserve bootInfo.1 bootInfo.2
      pure (a, ⟨usableFrames, p.usableRegions, a.freeFrames, p.ignoredBytes⟩)
    else
      Exec.panic .assertion

/-- Take the first free frame, or `none` without one. -/
def alloc (a : FrameAllocator) : Exec Unit (FrameAllocator × Option PhysFrame) :=
  match (List.range bitmapWords).find? fun wordIndex =>
      a.bitmap wordIndex ≠ BitVec.allOnes 64 with
  | none => pure (a, none)
  | some wordIndex => do
    let bit := Bitmap.trailingOnes (a.bitmap wordIndex)
    let index := wordIndex * 64 + bit
    let a ← a.setUsed index
    let a ← a.decFree
    pure (a, some ⟨index * physFrameSize⟩)

/-- Give a frame back; one that is free or does not exist is only reported. -/
def free (a : FrameAllocator) (frame : PhysFrame) : Exec Unit (FrameAllocator × FreeOutcome) :=
  let index := frame.index
  if index ≥ frameCount then
    pure (a, .outOfRange)
  else do
    if !(← a.isUsed index) then
      pure (a, .doubleFree)
    else do
      let a ← a.setFree index
      pure (a.incFree, .freed)

end FrameAllocator

end ZiranOS
