import Mathlib

/-!
# Fallible machine code: faults, errors and bounded accesses

A program that may stop abnormally is a value of `Exec ε α`: it returns an `α`, it returns an
error `e : ε` of its own, or it faults.  A fault is what the language does when the program
breaks one of its implicit rules (an index past the end of a slice, an addition that leaves the
machine word, a failed assertion), so "this code never faults" is the statement that no run of
it ends in `Abort.panic`.

The file provides the monad, the checked accesses to a byte buffer and to 64-bit arithmetic, and
the rules that take a successful or a fault-free run of a sequence apart.
-/

namespace ProgLib

/-- The ways a program can be stopped by the language instead of by its own error handling. -/
inductive Fault where
  /-- A slice or an array was indexed past its end. -/
  | outOfBounds
  /-- An arithmetic operation left the range of its machine type. -/
  | overflow
  /-- More nested calls than the stack has room for. -/
  | stackOverflow
  /-- An explicit assertion failed. -/
  | assertion
  deriving DecidableEq, Repr

/-- The reason a run did not return a value: a fault, or an error of the program's own. -/
inductive Abort (ε : Type) where
  /-- The run faulted. -/
  | panic (fault : Fault)
  /-- The run returned the error `error`. -/
  | fail (error : ε)
  deriving DecidableEq, Repr

/-- A run of a fallible program with result type `α` and error type `ε`. -/
abbrev Exec (ε α : Type) := Except (Abort ε) α

instance {ε α : Type} [DecidableEq ε] [DecidableEq α] : DecidableEq (Exec ε α) := fun x y =>
  match x, y with
  | .ok a, .ok b => decidable_of_iff (a = b) (by simp)
  | .error a, .error b => decidable_of_iff (a = b) (by simp)
  | .ok _, .error _ => .isFalse (by simp)
  | .error _, .ok _ => .isFalse (by simp)

namespace Exec

variable {ε α β : Type}

/-- Stop with the program's own error `e`. -/
def fail (e : ε) : Exec ε α := .error (.fail e)

/-- Stop with the fault `f`. -/
def panic (f : Fault) : Exec ε α := .error (.panic f)

/-- The run returned a value. -/
def IsOk (x : Exec ε α) : Prop := ∃ a, x = .ok a

/-- The run did not fault: it returned a value or an error of the program's own. -/
def NoPanic (x : Exec ε α) : Prop := ∀ f, x ≠ .error (.panic f)

instance (x : Exec ε α) : Decidable x.IsOk :=
  match x with
  | .ok a => .isTrue ⟨a, rfl⟩
  | .error _ => .isFalse (by rintro ⟨a, h⟩; cases h)

/-- The same run with its own errors renamed. -/
def mapFail {δ : Type} (g : ε → δ) : Exec ε α → Exec δ α
  | .ok a => .ok a
  | .error (.panic f) => .error (.panic f)
  | .error (.fail e) => .error (.fail (g e))

/-- Run and hand over the program's own error as a value; a fault stops the caller too. -/
def attempt {δ : Type} : Exec ε α → Exec δ (Except ε α)
  | .ok a => .ok (.ok a)
  | .error (.panic f) => .error (.panic f)
  | .error (.fail e) => .ok (.error e)

@[simp] theorem attempt_ok {δ : Type} (a : α) :
    attempt (.ok a : Exec ε α) = (.ok (.ok a) : Exec δ (Except ε α)) := rfl

@[simp] theorem mapFail_ok {δ : Type} (g : ε → δ) (a : α) :
    mapFail g (.ok a : Exec ε α) = .ok a := rfl

@[simp] theorem pure_eq_ok (a : α) : (pure a : Except ε α) = .ok a := rfl

@[simp] theorem bind_ok (a : α) (f : α → Except ε β) : ((.ok a : Except ε α) >>= f) = f a := rfl

@[simp] theorem bind_error (e : ε) (f : α → Except ε β) :
    ((.error e : Except ε α) >>= f) = .error e := rfl

@[simp] theorem bind_fail (e : ε) (f : α → Exec ε β) : ((fail e : Exec ε α) >>= f) = fail e := rfl

@[simp] theorem bind_panic (e : Fault) (f : α → Exec ε β) :
    ((panic e : Exec ε α) >>= f) = panic e := rfl

@[simp] theorem fail_ne_ok (e : ε) (a : α) : (fail e : Exec ε α) ≠ .ok a := by simp [fail]

@[simp] theorem panic_ne_ok (f : Fault) (a : α) : (panic f : Exec ε α) ≠ .ok a := by simp [panic]

@[simp] theorem noPanic_ok (a : α) : NoPanic (.ok a : Exec ε α) := by simp [NoPanic]

@[simp] theorem noPanic_fail (e : ε) : NoPanic (fail e : Exec ε α) := by simp [NoPanic, fail]

/-- A sequence returns exactly when its first part returns a value on which its second part
returns. -/
theorem bind_eq_ok {x : Except ε α} {f : α → Except ε β} {b : β} :
    (x >>= f) = .ok b ↔ ∃ a, x = .ok a ∧ f a = .ok b := by
  cases x with
  | ok a => simp
  | error e => simp

/-- What follows a run matters for the values that it returns. -/
theorem bind_congr {x : Exec ε α} {f g : α → Exec ε β} (h : ∀ a, x = .ok a → f a = g a) :
    (x >>= f) = (x >>= g) := by
  cases x with
  | ok a => exact h a rfl
  | error e => rfl

/-- Two sequences agree if their parts do, up to what `f` and `h` forget. -/
theorem map_bind {γ δ : Type} {f : α → β} {h : γ → δ} {x : Exec ε α} {y : Exec ε β}
    {k : α → Exec ε γ} {l : β → Exec ε δ} (hx : x.map f = y)
    (hk : ∀ a, (k a).map h = l (f a)) : (x >>= k).map h = y >>= l := by
  subst hx
  cases x with
  | error e => rfl
  | ok a => exact hk a

/-- An attempt returns a value exactly when the run does. -/
theorem attempt_eq_ok_ok {δ : Type} {x : Exec ε α} {a : α} :
    attempt x = (.ok (.ok a) : Exec δ (Except ε α)) ↔ x = .ok a := by
  match x with
  | .ok b => simp
  | .error (.panic f) => simp [attempt]
  | .error (.fail e) => simp [attempt]

/-- A sequence returns if its first part does and its second part always does. -/
theorem IsOk.bind {x : Exec ε α} {f : α → Exec ε β} (hx : x.IsOk) (hf : ∀ a, (f a).IsOk) :
    (x >>= f).IsOk := by
  obtain ⟨a, rfl⟩ := hx
  exact hf a

/-- An attempt of a fault-free run returns. -/
theorem NoPanic.attempt {δ : Type} {x : Exec ε α} (h : x.NoPanic) :
    IsOk (attempt x : Exec δ (Except ε α)) := by
  match x with
  | .ok a => exact ⟨_, rfl⟩
  | .error (.panic f) => exact absurd rfl (h f)
  | .error (.fail e) => exact ⟨_, rfl⟩

/-- A sequence of two fault-free parts is fault-free. -/
theorem NoPanic.bind {x : Exec ε α} {f : α → Exec ε β} (hx : x.NoPanic)
    (hf : ∀ a, x = .ok a → (f a).NoPanic) : (x >>= f).NoPanic := by
  cases x with
  | ok a => exact hf a rfl
  | error e =>
    intro g hg
    exact hx g (by simpa using hg)

/-- An assertion: a fault unless `p` holds. -/
def assert (p : Prop) [Decidable p] : Exec ε Unit := if p then .ok () else panic .assertion

/-- An assertion that holds is passed. -/
theorem assert_bind {p : Prop} [Decidable p] (h : p) (f : Unit → Exec ε α) :
    (assert p >>= f) = f () := by
  rw [assert, if_pos h, bind_ok]

end Exec

/-! ## Byte buffers and 64-bit arithmetic -/

variable {ε : Type}

/-- `buf[i]`: the byte at index `i`, a fault past the end. -/
def getByte (buf : List UInt8) (i : ℕ) : Exec ε UInt8 :=
  match buf[i]? with
  | some b => .ok b
  | none => Exec.panic .outOfBounds

/-- `&buf[lo..hi]`: the bytes from `lo` up to `hi`, a fault unless `lo ≤ hi ≤ buf.len()`. -/
def slice (buf : List UInt8) (lo hi : ℕ) : Exec ε (List UInt8) :=
  if lo ≤ hi ∧ hi ≤ buf.length then .ok ((buf.drop lo).take (hi - lo))
  else Exec.panic .outOfBounds

/-- `a + b` on 64-bit words, a fault when the sum does not fit. -/
def addUsize (a b : ℕ) : Exec ε ℕ := if a + b < 2 ^ 64 then .ok (a + b) else Exec.panic .overflow

/-- `a * b` on 64-bit words, a fault when the product does not fit. -/
def mulUsize (a b : ℕ) : Exec ε ℕ := if a * b < 2 ^ 64 then .ok (a * b) else Exec.panic .overflow

/-- `a.checked_add(b).ok_or(e)`: the sum, or the error `e` when it does not fit. -/
def checkedAdd (a b : ℕ) (e : ε) : Exec ε ℕ := if a + b < 2 ^ 64 then .ok (a + b) else Exec.fail e

/-- `a.checked_mul(b).ok_or(e)`: the product, or the error `e` when it does not fit. -/
def checkedMul (a b : ℕ) (e : ε) : Exec ε ℕ := if a * b < 2 ^ 64 then .ok (a * b) else Exec.fail e

theorem getByte_eq {buf : List UInt8} {i : ℕ} (h : i < buf.length) :
    (getByte buf i : Exec ε UInt8) = .ok (buf.getD i 0) := by
  simp [getByte, h]

/-- A byte that could be read. -/
theorem eq_of_getByte {buf : List UInt8} {i : ℕ} {b : UInt8}
    (h : (getByte buf i : Exec ε UInt8) = .ok b) : b = buf.getD i 0 := by
  unfold getByte at h
  rw [List.getD_eq_getElem?_getD]
  cases hb : buf[i]? with
  | none =>
    rw [hb] at h
    exact absurd h (Exec.panic_ne_ok _ _)
  | some x =>
    rw [hb] at h
    exact (Except.ok.inj h).symm

theorem slice_eq {buf : List UInt8} {lo hi : ℕ} (h : lo ≤ hi) (hb : hi ≤ buf.length) :
    (slice buf lo hi : Exec ε (List UInt8)) = .ok ((buf.drop lo).take (hi - lo)) := by
  simp [slice, h, hb]

theorem addUsize_eq {a b : ℕ} (h : a + b < 2 ^ 64) : (addUsize a b : Exec ε ℕ) = .ok (a + b) :=
  if_pos h

/-- A sum that fits. -/
theorem eq_of_addUsize {a b x : ℕ} (h : (addUsize a b : Exec ε ℕ) = .ok x) : x = a + b := by
  unfold addUsize at h
  split_ifs at h
  · exact (Except.ok.inj h).symm
  · exact absurd h (Exec.panic_ne_ok _ _)

theorem mulUsize_eq {a b : ℕ} (h : a * b < 2 ^ 64) : (mulUsize a b : Exec ε ℕ) = .ok (a * b) :=
  if_pos h

theorem checkedAdd_eq {a b : ℕ} {e : ε} (h : a + b < 2 ^ 64) :
    (checkedAdd a b e : Exec ε ℕ) = .ok (a + b) := if_pos h

/-- A sum that was not refused. -/
theorem eq_of_checkedAdd {a b x : ℕ} {e : ε} (h : (checkedAdd a b e : Exec ε ℕ) = .ok x) :
    x = a + b := by
  unfold checkedAdd at h
  split_ifs at h
  · exact (Except.ok.inj h).symm
  · exact absurd h (Exec.fail_ne_ok _ _)

theorem checkedMul_eq {a b : ℕ} {e : ε} (h : a * b < 2 ^ 64) :
    (checkedMul a b e : Exec ε ℕ) = .ok (a * b) := if_pos h

end ProgLib
