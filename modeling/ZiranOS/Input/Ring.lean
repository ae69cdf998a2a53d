import ZiranOS.Lib.Ring
import ZiranOS.Lib.Run

/-!
# The input ring

The keyboard interrupt pushes bytes into a ring and the shell pops them.  `push` and `pop` are
sequences of single loads and stores of the shared cells `RING`, `HEAD` and `TAIL`; a state of
`InputRing` contains these cells and how far the producer and the consumer have come.  The steps of
the two interleave in any order.
-/

namespace ZiranOS

open ProgLib

/-- The number of cells of the ring. -/
def ringCap : ℕ := 256

/-- How far a `push` has come. -/
inductive Producer where
  /-- No push is going on. -/
  | idle
  /-- `TAIL` is loaded. -/
  | loaded (byte : UInt8) (tail : ℕ)
  /-- `HEAD` was loaded, and the ring was not full. -/
  | room (byte : UInt8) (tail : ℕ)
  /-- The byte is stored, and `TAIL` is not. -/
  | stored (byte : UInt8) (tail : ℕ)
  deriving DecidableEq, Repr

/-- How far a `pop` has come. -/
inductive Consumer where
  /-- No pop is going on. -/
  | idle
  /-- `HEAD` is loaded. -/
  | loaded (head : ℕ)
  /-- `TAIL` was loaded, and the ring was not empty. -/
  | ready (head : ℕ)
  /-- The byte is loaded, and `HEAD` is not stored. -/
  | taken (head : ℕ) (byte : UInt8)
  deriving DecidableEq, Repr

/-- The shared cells, and the local state of the producer and of the consumer. -/
structure InputRing where
  ring : ℕ → UInt8
  head : ℕ
  tail : ℕ
  producer : Producer
  consumer : Consumer

/-- One load or store. -/
inductive RingEvent where
  /-- `push` loads `TAIL`. -/
  | pushTail (byte : UInt8)
  /-- `push` loads `HEAD`, and drops its byte if the ring is full. -/
  | pushHead (full : Bool)
  /-- `push` stores its byte in the cell `i`. -/
  | pushStore (i : ℕ)
  /-- `push` stores `TAIL`, which makes the byte available. -/
  | pushPublish (byte : UInt8)
  /-- `pop` loads `HEAD`. -/
  | popHead
  /-- `pop` loads `TAIL`, and returns nothing if the ring is empty. -/
  | popTail (empty : Bool)
  /-- `pop` loads the cell `i`. -/
  | popLoad (i : ℕ)
  /-- `pop` stores `HEAD` and returns its byte. -/
  | popPublish (byte : UInt8)
  deriving DecidableEq, Repr

namespace InputRing

/-- The ring at its start. -/
def new : InputRing := ⟨fun _ => 0, 0, 0, .idle, .idle⟩

/-- One step of the producer or the consumer.  An index that is not below `ringCap` would be a
fault at the load or the store of its cell. -/
inductive Steps : InputRing → RingEvent → InputRing → Prop
  | pushTail (s : InputRing) (byte : UInt8) (h : s.producer = .idle) :
    Steps s (.pushTail byte) { s with producer := .loaded byte s.tail }
  | pushFull (s : InputRing) (byte : UInt8) (tail : ℕ) (h : s.producer = .loaded byte tail)
    (hfull : (tail + 1) % ringCap = s.head) :
    Steps s (.pushHead true) { s with producer := .idle }
  | pushRoom (s : InputRing) (byte : UInt8) (tail : ℕ) (h : s.producer = .loaded byte tail)
    (hroom : (tail + 1) % ringCap ≠ s.head) :
    Steps s (.pushHead false) { s with producer := .room byte tail }
  | pushStore (s : InputRing) (byte : UInt8) (tail : ℕ) (h : s.producer = .room byte tail)
    (hi : tail < ringCap) :
    Steps s (.pushStore tail)
      { s with ring := Function.update s.ring tail byte, producer := .stored byte tail }
  | pushPublish (s : InputRing) (byte : UInt8) (tail : ℕ) (h : s.producer = .stored byte tail) :
    Steps s (.pushPublish byte) { s with tail := (tail + 1) % ringCap, producer := .idle }
  | popHead (s : InputRing) (h : s.consumer = .idle) :
    Steps s .popHead { s with consumer := .loaded s.head }
  | popEmpty (s : InputRing) (head : ℕ) (h : s.consumer = .loaded head) (hempty : head = s.tail) :
    Steps s (.popTail true) { s with consumer := .idle }
  | popReady (s : InputRing) (head : ℕ) (h : s.consumer = .loaded head) (hready : head ≠ s.tail) :
    Steps s (.popTail false) { s with consumer := .ready head }
  | popLoad (s : InputRing) (head : ℕ) (h : s.consumer = .ready head) (hi : head < ringCap) :
    Steps s (.popLoad head) { s with consumer := .taken head (s.ring head) }
  | popPublish (s : InputRing) (head : ℕ) (byte : UInt8) (h : s.consumer = .taken head byte) :
    Steps s (.popPublish byte) { s with head := (head + 1) % ringCap, consumer := .idle }

/-! ## Histories -/

/-- The byte that becomes available. -/
def acceptedBy (x : Transition InputRing RingEvent) : List UInt8 :=
  match x.event with
  | .pushPublish byte => [byte]
  | _ => []

/-- The byte that a pop returns. -/
def poppedBy (x : Transition InputRing RingEvent) : List UInt8 :=
  match x.event with
  | .popPublish byte => [byte]
  | _ => []

end InputRing

/-- An access to a cell of the ring. -/
inductive Access where
  | write
  | read
  deriving DecidableEq, Repr

namespace InputRing

/-- The access of a step to the cell `i`. -/
def accessOf (i : ℕ) (x : Transition InputRing RingEvent) : List Access :=
  match x.event with
  | .pushStore j => if j = i then [.write] else []
  | .popLoad j => if j = i then [.read] else []
  | _ => []

end InputRing

/-- Every read of a cell follows a write, and every write but the first follows a read; `full` tells
whether the cell holds a byte that has not been read. -/
def Alternating : Bool → List Access → Prop
  | _, [] => True
  | full, .write :: as => full = false ∧ Alternating true as
  | full, .read :: as => full = true ∧ Alternating false as

end ZiranOS
