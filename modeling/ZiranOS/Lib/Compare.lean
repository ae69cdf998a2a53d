import ZiranOS.Lib.Traced

/-!
# Two runs of similar programs

Rules to compare, part by part, the runs of two programs that differ in a few checks.

* `Exec.EqUnless e x y`: the runs are equal, unless `x` ends with the error `e`.
* `Traced.EqIf P x y`: the runs are equal, if all events that `x` emits satisfy `P`.
-/

namespace ProgLib

variable {τ ε α β σ : Type}

/-- The runs are equal, unless the first one ends with the error. -/
def Exec.EqUnless (e : ε) (x y : Exec ε α) : Prop := x = Exec.fail e ∨ x = y

namespace Exec.EqUnless

variable {e : ε}

/-- Equal runs. -/
lemma refl (x : Exec ε α) : EqUnless e x x := .inr rfl

/-- A run that ends with the error. -/
lemma fail_left (y : Exec ε α) : EqUnless e (fail e) y := .inl rfl

/-- Sequences with the same first part. -/
lemma bind_left (x : Exec ε α) {f g : α → Exec ε β}
    (hf : ∀ a, x = .ok a → EqUnless e (f a) (g a)) : EqUnless e (x >>= f) (x >>= g) := by
  cases x with
  | ok a => exact hf a rfl
  | error d => exact .inr rfl

/-- Sequences whose parts are compared. -/
lemma bind {x y : Exec ε α} {f g : α → Exec ε β} (h : EqUnless e x y)
    (hf : ∀ a, EqUnless e (f a) (g a)) : EqUnless e (x >>= f) (y >>= g) := by
  rcases h with rfl | rfl
  · exact .inl (bind_fail e f)
  · exact bind_left x fun a _ => hf a

/-- Loops whose bodies are compared. -/
lemma foldlM {f g : σ → β → Exec ε σ} (h : ∀ s b, EqUnless e (f s b) (g s b)) (l : List β) (s : σ) :
    EqUnless e (l.foldlM f s) (l.foldlM g s) := by
  induction l generalizing s with
  | nil => exact refl _
  | cons b l ih =>
    rw [List.foldlM_cons, List.foldlM_cons]
    exact (h s b).bind ih

end Exec.EqUnless

/-- A sequence that emits nothing. -/
lemma Traced.lift_bind (x : Exec ε α) (f : α → Exec ε β) :
    (Traced.lift (x >>= f) : Traced τ ε β) = Traced.lift x >>= fun a => Traced.lift (f a) := by
  cases x <;> rfl

/-- The runs are equal, if all events of the first one satisfy `P`. -/
def Traced.EqIf (P : τ → Prop) (x : Traced τ ε α) (y : Exec ε α) : Prop :=
  (∀ t ∈ x.log, P t) → x.out = y

namespace Traced.EqIf

variable {P : τ → Prop}

/-- A run that emits nothing. -/
lemma lift (x : Exec ε α) : EqIf P (Traced.lift x) x := fun _ => rfl

/-- A sequence after an event. -/
lemma tell_bind {t : τ} {f : Unit → Traced τ ε β} {y : Exec ε β} (h : P t → EqIf P (f ()) y) :
    EqIf P (Traced.tell t >>= f) y := by
  intro hlog
  rw [log_tell_bind, List.forall_mem_cons] at hlog
  exact h hlog.1 hlog.2

/-- Sequences with the same first part, which emits nothing. -/
lemma lift_bind {x : Exec ε α} {f : α → Traced τ ε β} {g : α → Exec ε β}
    (h : ∀ a, x = .ok a → EqIf P (f a) (g a)) : EqIf P (Traced.lift x >>= f) (x >>= g) := by
  cases x with
  | ok a => exact h a rfl
  | error d => exact fun _ => rfl

/-- Sequences whose parts are compared. -/
lemma bind {x : Traced τ ε α} {y : Exec ε α} {f : α → Traced τ ε β} {g : α → Exec ε β}
    (h : EqIf P x y) (hf : ∀ a, EqIf P (f a) (g a)) : EqIf P (x >>= f) (y >>= g) := by
  intro hlog
  cases hx : x.out with
  | ok a =>
    rw [log_bind_ok hx, List.forall_mem_append] at hlog
    rw [out_bind, ← h hlog.1, hx, Exec.bind_ok, Exec.bind_ok]
    exact hf a hlog.2
  | error d =>
    rw [log_bind_error hx] at hlog
    rw [out_bind, ← h hlog, hx, Exec.bind_error, Exec.bind_error]

/-- Loops whose bodies are compared. -/
lemma foldlM {f : σ → β → Traced τ ε σ} {g : σ → β → Exec ε σ} (h : ∀ s b, EqIf P (f s b) (g s b))
    (l : List β) (s : σ) : EqIf P (l.foldlM f s) (l.foldlM g s) := by
  induction l generalizing s with
  | nil => exact fun _ => rfl
  | cons b l ih =>
    rw [List.foldlM_cons, List.foldlM_cons]
    exact (h s b).bind ih

end Traced.EqIf

end ProgLib
