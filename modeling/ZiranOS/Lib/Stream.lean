import Mathlib

/-!
# Streams of values from a device

A device hands out one value at a time and changes its state with each, `next : StateM σ α`.  `draw`
takes a number of values in a row, and `Yields next s xs` says that `xs` are the values it hands out
next; a stream of several parts is read part by part (`yields_append`).  `counted next` keeps the
number of values that were handed out.

`fromBeBytes` and `toBeBytes` are the numbers that such a stream carries, the highest byte first.
-/

namespace ProgLib

variable {σ α : Type}

/-- A sequence of two programs: the second one runs in the state that the first one left. -/
lemma stateM_bind {β : Type} (x : StateM σ α) (f : α → StateM σ β) (s : σ) :
    (x >>= f) s = f (x s).1 (x s).2 := rfl

section Draw

variable (next : StateM σ α)

/-- Take `n` values, one after another. -/
def draw : ℕ → StateM σ (List α)
  | 0 => pure []
  | n + 1 => do
    let x ← next
    let xs ← draw n
    pure (x :: xs)

/-- The values that are handed out next are `xs`. -/
def Yields (s : σ) (xs : List α) : Prop := (draw next xs.length s).1 = xs

instance [DecidableEq α] (s : σ) (xs : List α) : Decidable (Yields next s xs) :=
  inferInstanceAs (Decidable (_ = _))

variable {next} {s : σ} {xs ys : List α}

lemma draw_succ (n : ℕ) (s : σ) : draw next (n + 1) s =
    ((next s).1 :: (draw next n (next s).2).1, (draw next n (next s).2).2) := rfl

/-- As many values are taken as were asked for. -/
@[simp] lemma length_draw (n : ℕ) (s : σ) : (draw next n s).1.length = n := by
  induction n generalizing s with
  | zero => rfl
  | succ n ih => rw [draw_succ, List.length_cons, ih]

/-- Taking values in two goes. -/
lemma draw_add (m n : ℕ) (s : σ) : draw next (m + n) s =
    ((draw next m s).1 ++ (draw next n (draw next m s).2).1,
      (draw next n (draw next m s).2).2) := by
  induction m generalizing s with
  | zero =>
    rw [Nat.zero_add]
    rfl
  | succ m ih =>
    rw [Nat.add_right_comm, draw_succ, ih, draw_succ]
    rfl

/-- A stream of two parts: the second one comes when the first one was taken. -/
lemma yields_append : Yields next s (xs ++ ys) ↔
    Yields next s xs ∧ Yields next (draw next xs.length s).2 ys := by
  rw [Yields, List.length_append, draw_add]
  constructor
  · intro h
    exact List.append_inj h (length_draw _ _)
  · rintro ⟨hxs, hys⟩
    dsimp only
    rw [hxs, hys]

/-- Taking fewer values than are known. -/
lemma Yields.take (h : Yields next s xs) {n : ℕ} (hn : n ≤ xs.length) :
    (draw next n s).1 = xs.take n := by
  rw [← List.take_append_drop n xs, yields_append] at h
  have htake := h.1
  rwa [Yields, List.length_take, Nat.min_eq_left hn] at htake

variable (next) in
/-- The same device with a counter of the values handed out. -/
def counted : StateM (σ × ℕ) α := fun s => ((next s.1).1, ((next s.1).2, s.2 + 1))

/-- Counting changes no value, and counts each of them. -/
lemma draw_counted (n k : ℕ) (s : σ) : draw (counted next) n (s, k) =
    ((draw next n s).1, ((draw next n s).2, k + n)) := by
  induction n generalizing s k with
  | zero => rfl
  | succ n ih =>
    have hstep : counted next (s, k) = ((next s).1, ((next s).2, k + 1)) := rfl
    rw [draw_succ, hstep, ih, draw_succ, Nat.add_right_comm, Nat.add_assoc]

end Draw

/-! ## Numbers with the highest byte first -/

/-- The number that bytes stand for, the highest byte first. -/
def fromBeBytes (bytes : List UInt8) : ℕ := bytes.foldl (fun v b => 256 * v + b.toNat) 0

/-- The `n` low bytes of a number, the highest first. -/
def toBeBytes : ℕ → ℕ → List UInt8
  | 0, _ => []
  | n + 1, v => toBeBytes n (v / 256) ++ [UInt8.ofNat v]

example : toBeBytes 4 0x10204 = [0, 1, 2, 4] := by decide

/-- The number of bytes is the given one. -/
@[simp] lemma length_toBeBytes (n v : ℕ) : (toBeBytes n v).length = n := by
  induction n generalizing v with
  | zero => rfl
  | succ n ih => rw [toBeBytes, List.length_append, ih, List.length_singleton]

/-- One more byte behind the others. -/
lemma fromBeBytes_concat (bytes : List UInt8) (b : UInt8) :
    fromBeBytes (bytes ++ [b]) = 256 * fromBeBytes bytes + b.toNat := by
  rw [fromBeBytes, List.foldl_append]
  rfl

/-- A number that fits is read back. -/
lemma fromBeBytes_toBeBytes {n v : ℕ} (h : v < 256 ^ n) : fromBeBytes (toBeBytes n v) = v := by
  induction n generalizing v with
  | zero => exact (Nat.lt_one_iff.mp h).symm
  | succ n ih =>
    have hhigh : v / 256 < 256 ^ n := Nat.div_lt_of_lt_mul (by rwa [← Nat.pow_succ'])
    rw [toBeBytes, fromBeBytes_concat, ih hhigh, UInt8.toNat_ofNat']
    exact Nat.div_add_mod v 256

end ProgLib
