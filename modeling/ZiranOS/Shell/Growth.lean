import ZiranOS.Fs.Validate
import ZiranOS.Heap.Blocks
import ZiranOS.Shell.Load

/-!
# The heap operations of a load

What `load` does to the heap depends on the length of its payload only.  The payload vector grows
`growths n` times, to the capacities 8, 16, 32 and so on, while `n` bytes are appended
(`readPayload_eq`), and a load that succeeds then takes one block for the image, gives the block of
the previous image back, and that of the payload (`cmdLoad_eq`).
-/

namespace ZiranOS

open ProgLib

/-! ## Capacities of a growing vector -/

/-- The capacity of a vector that grew `k` times. -/
def capacity : ℕ → ℕ
  | 0 => 0
  | k + 1 => 8 * 2 ^ k

/-- How often a vector grows while `n` bytes are appended to it. -/
def growths : ℕ → ℕ
  | 0 => 0
  | n + 1 => if n = capacity (growths n) then growths n + 1 else growths n

/-- Every growth raises the capacity. -/
lemma capacity_lt_succ (k : ℕ) : capacity k < capacity (k + 1) := by
  cases k with
  | zero => simp [capacity]
  | succ k =>
    have := Nat.two_pow_pos k
    rw [capacity, capacity, Nat.pow_succ]
    omega

/-- Capacities increase. -/
lemma capacity_strictMono : StrictMono capacity := strictMono_nat_of_lt_succ capacity_lt_succ

/-- A vector that grew has room for at least 8 bytes. -/
lemma eight_le_capacity (k : ℕ) : 8 ≤ capacity (k + 1) := by
  have := Nat.two_pow_pos k
  rw [capacity]
  omega

/-- A full vector grows to the next capacity. -/
lemma capacity_succ_eq (k : ℕ) :
    max (2 * capacity k) (max (capacity k + 1) ByteVec.minCapacity) = capacity (k + 1) := by
  cases k with
  | zero => rfl
  | succ k =>
    have := Nat.two_pow_pos k
    rw [capacity, capacity, Nat.pow_succ, ByteVec.minCapacity]
    omega

/-- The bytes fit the capacity, and did not fit the one before. -/
lemma growths_spec (n : ℕ) :
    n ≤ capacity (growths n) ∧ ∀ k, growths n = k + 1 → capacity k < n := by
  induction n with
  | zero => exact ⟨Nat.zero_le _, fun k hk => nomatch hk⟩
  | succ n ih =>
    obtain ⟨hle, hlt⟩ := ih
    rw [growths]
    split_ifs with hfull
    · refine ⟨?_, fun k hk => ?_⟩
      · have := capacity_lt_succ (growths n)
        omega
      · obtain rfl := Nat.succ.inj hk
        omega
    · exact ⟨by omega, fun k hk => (hlt k hk).trans (Nat.lt_succ_self n)⟩

/-- The number of growths is known from the capacities around the length. -/
lemma growths_eq {n k : ℕ} (hlt : capacity k < n) (hle : n ≤ capacity (k + 1)) :
    growths n = k + 1 := by
  obtain ⟨hn, hprev⟩ := growths_spec n
  have h1 : k < growths n := capacity_strictMono.lt_iff_lt.mp (hlt.trans_le hn)
  obtain ⟨m, hm⟩ : ∃ m, growths n = m + 1 := ⟨growths n - 1, by omega⟩
  have h2 : m < k + 1 := capacity_strictMono.lt_iff_lt.mp ((hprev m hm).trans_le hle)
  omega

/-- Appending more bytes takes at least as many growths. -/
lemma growths_mono {m n : ℕ} (hle : m ≤ n) : growths m ≤ growths n := by
  cases hm : growths m with
  | zero => exact Nat.zero_le _
  | succ k =>
    have h1 := (growths_spec m).2 k hm
    have h2 := (growths_spec n).1
    exact capacity_strictMono.lt_iff_lt.mp (h1.trans_le (hle.trans h2))

/-! ## Appending the payload -/

/-- The heap, and the block of the vector, after the first `k` growths of a vector. -/
def growAll (h : FreeListHeap) : ℕ → Exec LoadStop (FreeListHeap × ℕ)
  | 0 => pure (h, ByteVec.empty.ptr)
  | k + 1 => do
    let (h, old) ← growAll h k
    let (h, ptr) ← h.allocBytes (capacity (k + 1))
    let h ← if k = 0 then pure h else h.deallocBytes old (capacity k)
    pure (h, ptr)

/-- A growth that fails stops the vector for good. -/
lemma growAll_error {h : FreeListHeap} {e : Abort LoadStop} {k m : ℕ} (hle : k ≤ m)
    (herr : growAll h k = .error e) : growAll h m = .error e := by
  induction m, hle using Nat.le_induction with
  | base => exact herr
  | succ m _ ih => rw [growAll, ih, Exec.bind_error]

/-- The bytes of a stream that `load` stores: those before the sentinel that are not whitespace. -/
def payloadOf (stream : List UInt8) : List UInt8 :=
  (stream.takeWhile (· != sentinel)).filter fun b => !isAsciiWhitespace b

/-- The bytes before the sentinel. -/
lemma takeWhile_sentinel {pre : List UInt8} (hpre : sentinel ∉ pre) (rest : List UInt8) :
    (pre ++ sentinel :: rest).takeWhile (· != sentinel) = pre := by
  have hne : ∀ b ∈ pre, (b != sentinel) = true := by
    intro b hb
    rw [bne_iff_ne]
    exact fun heq => hpre (heq ▸ hb)
  rw [List.takeWhile_append_of_pos hne]
  simp

/-- Only a vector without growths has no block. -/
lemma capacity_eq_zero {k : ℕ} : capacity k = 0 ↔ k = 0 := by
  cases k with
  | zero => simp [capacity]
  | succ k => simp [capacity]

/-- Appending a byte grows the vector if it is full. -/
lemma push_eq {h₀ h : FreeListHeap} {v : ByteVec} (b : UInt8)
    (hgrow : growAll h₀ (growths v.bytes.length) = .ok (h, v.ptr))
    (hcap : v.cap = capacity (growths v.bytes.length)) :
    v.push h b = (do
      let x ← growAll h₀ (growths (v.bytes.length + 1))
      pure (x.1, ⟨v.bytes ++ [b], x.2, capacity (growths (v.bytes.length + 1))⟩)) := by
  unfold ByteVec.push
  by_cases hfull : v.bytes.length = v.cap
  · have hgrowths : growths (v.bytes.length + 1) = growths v.bytes.length + 1 := by
      rw [growths, if_pos (hfull.trans hcap)]
    have hcapacity : max (2 * v.cap) (max (v.bytes.length + 1) ByteVec.minCapacity) =
        capacity (growths v.bytes.length + 1) := by
      rw [← capacity_succ_eq (growths v.bytes.length), ← hcap, hfull]
    rw [if_pos hfull, hgrowths, growAll, hgrow, Exec.bind_ok, ByteVec.realloc, hcapacity]
    dsimp only
    cases h.allocBytes (capacity (growths v.bytes.length + 1)) with
    | error e => rfl
    | ok x =>
      simp only [Exec.bind_ok, hcap, capacity_eq_zero]
      split_ifs
      · rfl
      · cases x.1.deallocBytes v.ptr (capacity (growths v.bytes.length)) with
        | error e => rfl
        | ok h' => rfl
  · have hgrowths : growths (v.bytes.length + 1) = growths v.bytes.length := by
      rw [growths, if_neg (fun heq => hfull (heq.trans hcap.symm))]
    rw [if_neg hfull, hgrowths, hgrow, ← hcap]
    rfl

/-- **Appending the payload grows the vector as its length says.** -/
lemma readPayload_eq (h₀ : FreeListHeap) : ∀ (stream : List UInt8) (h : FreeListHeap)
    (v : ByteVec), sentinel ∈ stream →
    v.bytes.length + (payloadOf stream).length ≤ b64Cap →
    growAll h₀ (growths v.bytes.length) = .ok (h, v.ptr) →
    v.cap = capacity (growths v.bytes.length) →
    readPayload h v false stream =
      (do
        let x ← growAll h₀ (growths (v.bytes.length + (payloadOf stream).length))
        pure (x.1, ⟨v.bytes ++ payloadOf stream, x.2,
          capacity (growths (v.bytes.length + (payloadOf stream).length))⟩, false)) := by
  intro stream
  induction stream with
  | nil => exact fun h v hmem => absurd hmem List.not_mem_nil
  | cons b stream ih =>
    intro h v hmem hcap hgrow hvcap
    rw [readPayload]
    by_cases hb : b = sentinel
    · have hp : payloadOf (b :: stream) = [] := by simp [payloadOf, hb]
      rw [if_pos hb, hp, List.length_nil, Nat.add_zero, hgrow, Exec.bind_ok, List.append_nil,
        ← hvcap]
    · have hmem' : sentinel ∈ stream := List.mem_of_ne_of_mem (Ne.symm hb) hmem
      rw [if_neg hb]
      by_cases hws : isAsciiWhitespace b
      · have hp : payloadOf (b :: stream) = payloadOf stream := by simp [payloadOf, hb, hws]
        rw [if_pos hws, hp]
        rw [hp] at hcap
        exact ih h v hmem' hcap hgrow hvcap
      · have hp : payloadOf (b :: stream) = b :: payloadOf stream := by simp [payloadOf, hb, hws]
        have hlen : v.bytes.length + (b :: payloadOf stream).length =
            (v.bytes ++ [b]).length + (payloadOf stream).length := by
          simp only [List.length_append, List.length_cons, List.length_nil]
          omega
        have hsucc : (v.bytes ++ [b]).length = v.bytes.length + 1 := by simp
        rw [hp, hlen] at hcap
        rw [if_neg hws, if_neg (by omega), push_eq b hgrow hvcap, hp, hlen,
          ← List.singleton_append (l := payloadOf stream), ← List.append_assoc]
        cases hnext : growAll h₀ (growths (v.bytes.length + 1)) with
        | error e =>
          have hle : growths (v.bytes.length + 1) ≤
              growths ((v.bytes ++ [b]).length + (payloadOf stream).length) :=
            growths_mono (by omega)
          rw [growAll_error hle hnext]
          rfl
        | ok x =>
          rw [← hsucc] at hnext
          refine ih x.1 ⟨v.bytes ++ [b], x.2, _⟩ hmem' hcap hnext ?_
          rw [hsucc]

/-! ## The whole command -/

/-- The stream is the base64 of an image that the strict reader mounts and `load` accepts. -/
structure Encodes (stream image : List UInt8) : Prop where
  /-- The stream ends with the sentinel. -/
  sentinel_mem : sentinel ∈ stream
  /-- The payload decodes to the image. -/
  decode : b64Decode (payloadOf stream) = .ok image
  /-- The image is not too large. -/
  length_le : image.length ≤ maxImage
  /-- The image mounts. -/
  mount : (Fs.mount image).IsOk

/-- The payload of an accepted image is stored as a whole, and has at least six groups. -/
lemma Encodes.payload_le {stream image : List UInt8} (h : Encodes stream image) :
    (payloadOf stream).length ≤ b64Cap ∧ (payloadOf stream).length % 4 = 0 ∧
      16 ≤ image.length ∧ 24 ≤ (payloadOf stream).length := by
  have hdecode := h.decode
  rw [b64Decode] at hdecode
  split_ifs at hdecode with hmod
  obtain ⟨hlow, hhigh⟩ := b64Groups_length hdecode
  have hle := h.length_le
  have hmax : maxImage = 65536 := rfl
  have hcap : b64Cap = 87384 := by decide
  have h16 := ((mount_isOk_iff image).mp h.mount).1
  exact ⟨by omega, by omega, h16, by omega⟩

/-- Give the block of the image that was loaded last back. -/
def dropLoaded (h : FreeListHeap) : Option ByteVec → Exec LoadStop FreeListHeap
  | some old => old.drop h
  | none => pure h

/-- The heap operations of a load whose payload vector grows `k` times and whose image has a block
of `size` bytes; the result is the heap and the block of the image. -/
def loadBlocks (h : FreeListHeap) (loaded : Option ByteVec) (k size : ℕ) :
    Exec LoadStop (FreeListHeap × ℕ) := do
  let (h, ptr) ← growAll h k
  let (h, imagePtr) ← h.allocBytes size
  let h ← dropLoaded h loaded
  let h ← h.deallocBytes ptr (capacity k)
  pure (h, imagePtr)

/-- **The heap operations of a load that succeeds.** -/
lemma cmdLoad_eq {stream image : List UInt8} (henc : Encodes stream image) (s : LoadState) :
    cmdLoad s stream = (do
      let n := (payloadOf stream).length
      let (heap, imagePtr) ← loadBlocks s.heap s.loaded (growths n) (n / 4 * 3)
      pure (⟨heap, some ⟨image, imagePtr, n / 4 * 3⟩⟩, .mounted image.length)) := by
  obtain ⟨hcap, hmod, h16, h24⟩ := henc.payload_le
  have hpos : (payloadOf stream).length / 4 * 3 ≠ 0 := by omega
  have hread := readPayload_eq s.heap stream s.heap ByteVec.empty henc.sentinel_mem
    (by simpa [ByteVec.empty] using hcap) rfl rfl
  have hgroups : b64Groups (payloadOf stream) = .ok image := by
    have hdecode := henc.decode
    rwa [b64Decode, if_neg (not_not.mpr hmod)] at hdecode
  have hne : growths (payloadOf stream).length ≠ 0 := by
    intro h0
    have := (growths_spec (payloadOf stream).length).1
    rw [h0, capacity] at this
    omega
  obtain ⟨fs, hmount⟩ := henc.mount
  have hempty : image.isEmpty = false := by
    cases image with
    | nil => simp at h16
    | cons _ _ => rfl
  have hzero : ByteVec.empty.bytes.length + (payloadOf stream).length =
      (payloadOf stream).length := Nat.zero_add _
  rw [cmdLoad, hread, hzero]
  dsimp only [loadBlocks]
  cases growAll s.heap (growths (payloadOf stream).length) with
  | error e => rfl
  | ok x =>
    simp only [Exec.bind_ok, Exec.pure_eq_ok, Bool.false_eq_true, if_false, b64DecodeVec,
      ByteVec.empty, List.nil_append, hmod, not_true, ne_eq, ByteVec.withCapacity,
      hpos, hgroups]
    cases x.1.allocBytes ((payloadOf stream).length / 4 * 3) with
    | error e => rfl
    | ok y =>
      have hle := not_lt.mpr henc.length_le
      simp only [Exec.bind_ok, hempty, Bool.false_eq_true, if_false, gt_iff_lt, hle, hmount]
      cases s.loaded <;> simp [dropLoaded, ByteVec.drop, capacity_eq_zero, hne]

end ZiranOS
