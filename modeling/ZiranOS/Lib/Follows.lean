import ZiranOS.Lib.Exec

/-!
# Computations that follow an abstract one

An abstract computation has a next state or is stuck.  A run of fallible machine code `Follows` it
if the run returns a state that is related to the abstract one, and is a failed assertion where the
abstract computation is stuck.  The rule for sequences (`Follows.bind`) and the one for loops
(`Follows.foldlM`) make the two go step by step, so that a function of the code that is written as
a sequence of calls needs no more than the sequence of the abstract steps.
-/

namespace ProgLib

universe u

variable {ε σ σ' : Type} {τ τ' : Type u}

/-- The run returns a state related to the abstract one, or is a failed assertion if there is
none. -/
def Follows (R : σ → τ → Prop) (x : Exec ε σ) : Option τ → Prop
  | some a => ∃ s, x = .ok s ∧ R s a
  | none => x = Exec.panic .assertion

namespace Follows

variable {R : σ → τ → Prop} {R' : σ' → τ' → Prop} {x : Exec ε σ} {y : Option τ}

/-- A run that returns follows a computation that has a state. -/
lemma of_ok {s : σ} {a : τ} (h : R s a) : Follows R (.ok s : Exec ε σ) (some a) := ⟨s, rfl, h⟩

/-- **Sequences follow sequences** if their parts do. -/
lemma bind {f : σ → Exec ε σ'} {g : τ → Option τ'} (h : Follows R x y)
    (hfg : ∀ s a, y = some a → R s a → Follows R' (f s) (g a)) :
    Follows R' (x >>= f) (y >>= g) := by
  cases y with
  | none =>
    obtain rfl : x = Exec.panic .assertion := h
    rfl
  | some a =>
    obtain ⟨s, rfl, hs⟩ := h
    exact hfg s a rfl hs

/-- A run that follows does not depend on what else its states are related to. -/
lemma mono {R₁ : σ → τ → Prop} (h : Follows R x y) (hR : ∀ s a, y = some a → R s a → R₁ s a) :
    Follows R₁ x y := by
  cases y with
  | none => exact h
  | some a =>
    obtain ⟨s, hx, hs⟩ := h
    exact ⟨s, hx, hR s a rfl hs⟩

/-- **Loops follow loops** if their bodies do; the relation may depend on the counter. -/
lemma foldlM_range {R : ℕ → σ → τ → Prop} {f : σ → ℕ → Exec ε σ} {g : τ → ℕ → Option τ} {s : σ}
    {a : τ} (h : R 0 s a) : ∀ n, (∀ i < n, ∀ s a, R i s a → Follows (R (i + 1)) (f s i) (g a i)) →
      Follows (R n) ((List.range n).foldlM f s) ((List.range n).foldlM g a) := by
  intro n
  induction n with
  | zero => exact fun _ => of_ok h
  | succ n ih =>
    intro hfg
    rw [List.range_succ, List.foldlM_append, List.foldlM_append]
    refine bind (ih fun i hi => hfg i (hi.trans (Nat.lt_succ_self n))) fun s a _ hs => ?_
    simpa only [List.foldlM_cons, List.foldlM_nil, bind_pure] using
      hfg n (Nat.lt_succ_self n) s a hs

/-- A caller may rename the errors. -/
lemma mapFail {δ : Type} {g : ε → δ} (h : Follows R x y) : Follows R (x.mapFail g) y := by
  cases y with
  | none =>
    obtain rfl : x = Exec.panic .assertion := h
    rfl
  | some a =>
    obtain ⟨s, rfl, hs⟩ := h
    exact of_ok hs

/-- A run that has returned has an abstract state. -/
lemma exists_of_ok {s : σ} (h : Follows R (.ok s : Exec ε σ) y) : ∃ a, y = some a ∧ R s a := by
  cases y with
  | none => cases h
  | some a =>
    obtain ⟨s', hs', hR⟩ := h
    obtain rfl := Except.ok.inj hs'
    exact ⟨a, rfl, hR⟩

end Follows

end ProgLib
