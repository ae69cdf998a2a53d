import Mathlib

/-!
# Counting loops

A loop `for i in start..start + n` over a state is a fold over `List.range' start n`.
-/

namespace ProgLib

variable {σ : Type*}

/-- A property of the counter and the state that every iteration carries to the next value of the
counter holds at the end of the loop. -/
lemma foldl_range'_induction {P : ℕ → σ → Prop} {f : σ → ℕ → σ} (start n : ℕ) {s : σ}
    (hs : P start s)
    (hstep : ∀ i s, start ≤ i → i < start + n → P i s → P (i + 1) (f s i)) :
    P (start + n) ((List.range' start n).foldl f s) := by
  induction n generalizing start s with
  | zero => exact hs
  | succ n ih =>
    rw [List.range'_succ, List.foldl_cons, Nat.add_comm n 1, ← Nat.add_assoc]
    refine ih (start + 1) (hstep start s le_rfl (by omega) hs) fun i s hle hlt hP => ?_
    exact hstep i s (by omega) (by omega) hP

/-- The rule for a loop that starts at 0. -/
lemma foldl_range_induction {P : ℕ → σ → Prop} {f : σ → ℕ → σ} (n : ℕ) {s : σ} (hs : P 0 s)
    (hstep : ∀ i s, i < n → P i s → P (i + 1) (f s i)) : P n ((List.range n).foldl f s) := by
  have h := foldl_range'_induction (P := P) (f := f) 0 n hs
    fun i s _ hlt hP => hstep i s (by omega) hP
  rwa [Nat.zero_add, ← List.range_eq_range'] at h

end ProgLib
