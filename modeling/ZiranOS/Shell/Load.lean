import ZiranOS.Fs.Reader
import ZiranOS.Heap.FreeList
import ZiranOS.Shell.Base64

/-!
# The `load` command

`cmdLoad` reads a base64 payload up to the sentinel, decodes it, mounts it and stores it as the
active image.  Every byte it holds lies in blocks of the heap: the payload in a vector that doubles
its block when it is full, the decoded image in one block of its final size.  A growing vector
takes its new block before it gives the old one back.

A null pointer from the heap is fatal to the kernel (`LoadStop.null`); while the sentinel has not
arrived, the command keeps waiting (`LoadStop.waiting`).  The command is modelled in its strict
mode, in which nothing is appended to the image.
-/

namespace ZiranOS

open ProgLib

/-- Why the command does not return. -/
inductive LoadStop where
  /-- An allocation returned null. -/
  | null
  /-- The stream has not brought the sentinel yet. -/
  | waiting
  deriving DecidableEq, Repr

/-! ## Vectors of bytes -/

namespace FreeListHeap

/-- Allocate a block of bytes. -/
def allocBytes (h : FreeListHeap) (size : ℕ) : Exec LoadStop (FreeListHeap × ℕ) := do
  let layout ← Layout.bytes size
  match ← h.alloc layout with
  | (h, some ptr) => pure (h, ptr)
  | (_, none) => Exec.fail .null

/-- Give a block of bytes back. -/
def deallocBytes (h : FreeListHeap) (ptr size : ℕ) : Exec LoadStop FreeListHeap := do
  let layout ← Layout.bytes size
  h.dealloc ptr layout

end FreeListHeap

/-- A vector of bytes, with its block; an empty capacity has no block. -/
structure ByteVec where
  bytes : List UInt8
  ptr : ℕ
  cap : ℕ
  deriving DecidableEq, Repr

namespace ByteVec

/-- The empty vector. -/
def empty : ByteVec := ⟨[], 1, 0⟩

/-- The smallest capacity of a vector that has a block. -/
def minCapacity : ℕ := 8

/-- An empty vector with room for `cap` bytes. -/
def withCapacity (h : FreeListHeap) (cap : ℕ) : Exec LoadStop (FreeListHeap × ByteVec) :=
  if cap = 0 then pure (h, empty)
  else do
    let (h, ptr) ← h.allocBytes cap
    pure (h, ⟨[], ptr, cap⟩)

/-- Move the vector to a block of the given capacity: a new block is taken, then the old one is
given back. -/
def realloc (h : FreeListHeap) (v : ByteVec) (cap : ℕ) :
    Exec LoadStop (FreeListHeap × ByteVec) := do
  let (h, ptr) ← h.allocBytes cap
  let h ← if v.cap = 0 then pure h else h.deallocBytes v.ptr v.cap
  pure (h, ⟨v.bytes, ptr, cap⟩)

/-- Append a byte; a full vector at least doubles its capacity first. -/
def push (h : FreeListHeap) (v : ByteVec) (b : UInt8) : Exec LoadStop (FreeListHeap × ByteVec) := do
  let (h, v) ← if v.bytes.length = v.cap then
      v.realloc h (max (2 * v.cap) (max (v.bytes.length + 1) minCapacity))
    else pure (h, v)
  pure (h, { v with bytes := v.bytes ++ [b] })

/-- Give the block of the vector back. -/
def drop (h : FreeListHeap) (v : ByteVec) : Exec LoadStop FreeListHeap :=
  if v.cap = 0 then pure h else h.deallocBytes v.ptr v.cap

end ByteVec

/-! ## The command -/

/-- Largest image `load` accepts. -/
def maxImage : ℕ := 64 * 1024
/-- Largest payload `load` stores. -/
def b64Cap : ℕ := maxImage / 3 * 4 + 4
/-- The byte that ends the payload, a period. -/
def sentinel : UInt8 := 0x2E

/-- Space, tab, line feed, form feed or carriage return. -/
def isAsciiWhitespace (b : UInt8) : Bool :=
  b == 0x20 || b == 0x09 || b == 0x0A || b == 0x0C || b == 0x0D

/-- Read the payload up to the sentinel.  Whitespace is skipped; past the cap the bytes are read
but not stored. -/
def readPayload (h : FreeListHeap) (payload : ByteVec) (overflowed : Bool) :
    List UInt8 → Exec LoadStop (FreeListHeap × ByteVec × Bool)
  | [] => Exec.fail .waiting
  | b :: stream =>
    if b = sentinel then
      pure (h, payload, overflowed)
    else if isAsciiWhitespace b then
      readPayload h payload overflowed stream
    else if payload.bytes.length ≥ b64Cap then
      readPayload h payload true stream
    else do
      let (h, payload) ← payload.push h b
      readPayload h payload overflowed stream

/-- Decode the payload into a vector of its final capacity. -/
def b64DecodeVec (h : FreeListHeap) (input : List UInt8) :
    Exec LoadStop (FreeListHeap × Except B64Error ByteVec) :=
  if input.length % 4 ≠ 0 then
    pure (h, .error .badLength)
  else do
    let (h, out) ← ByteVec.withCapacity h (input.length / 4 * 3)
    match b64Groups input with
    | .error e => do
      let h ← out.drop h
      pure (h, .error e)
    | .ok bytes => pure (h, .ok { out with bytes := bytes })

/-- What the command reports. -/
inductive LoadOutcome where
  | tooLarge
  | badBase64 (error : B64Error)
  | emptyImage
  | notValid (error : FsError)
  | mounted (length : ℕ)
  deriving DecidableEq, Repr

/-- The heap, and the image that was loaded last. -/
structure LoadState where
  heap : FreeListHeap
  loaded : Option ByteVec
  deriving DecidableEq, Repr

/-- Replace the active image by the one pasted over the console. -/
def cmdLoad (s : LoadState) (stream : List UInt8) : Exec LoadStop (LoadState × LoadOutcome) := do
  let (heap, payload, overflowed) ← readPayload s.heap ByteVec.empty false stream
  if overflowed then
    let heap ← payload.drop heap
    pure ({ s with heap := heap }, .tooLarge)
  else
    match ← b64DecodeVec heap payload.bytes with
    | (heap, .error e) => do
      let heap ← payload.drop heap
      pure ({ s with heap := heap }, .badBase64 e)
    | (heap, .ok image) =>
      -- a rejected image is dropped before the payload
      let reject (outcome : LoadOutcome) : Exec LoadStop (LoadState × LoadOutcome) := do
        let heap ← image.drop heap
        let heap ← payload.drop heap
        pure ({ s with heap := heap }, outcome)
      if image.bytes.isEmpty then
        reject .emptyImage
      else if image.bytes.length > maxImage then
        reject .tooLarge
      else
        match Fs.mount image.bytes with
        | .error (.panic f) => Exec.panic f
        | .error (.fail e) => reject (.notValid e)
        | .ok _ => do
          let heap ← match s.loaded with
            | some old => old.drop heap
            | none => pure heap
          let heap ← payload.drop heap
          pure (⟨heap, some image⟩, .mounted image.bytes.length)

/-- Load a sequence of images one after another. -/
def loadAll (s : LoadState) (streams : List (List UInt8)) : Exec LoadStop LoadState :=
  streams.foldlM (fun s stream => do
    let (s, _) ← cmdLoad s stream
    pure s) s

end ZiranOS
