import ZiranOS.Lib.Exec

/-!
# Two runs side by side

To show that an observer cannot tell two runs apart one keeps a relation between their states.
`Exec.Both R x y` says that two fallible runs return related results or stop for the same reason.
The rules are the ones for sequences (`Both.bind`) and for a step that is taken over and over
(`Both.iterate`); what the observer sees is then the same in both runs (`Both.map_eq`).
-/

namespace ProgLib

namespace Exec

variable {ε σ τ σ' τ' : Type}

/-- Both runs return, with related results, or both stop for the same reason. -/
inductive Both (R : σ → τ → Prop) : Exec ε σ → Exec ε τ → Prop
  | ok {a : σ} {b : τ} (h : R a b) : Both R (.ok a) (.ok b)
  | error (e : Abort ε) : Both R (.error e) (.error e)

/-- Take a step over and over. -/
def iterate (f : σ → Exec ε σ) : ℕ → σ → Exec ε σ
  | 0, s => .ok s
  | n + 1, s => f s >>= iterate f n

namespace Both

variable {R : σ → τ → Prop} {R' : σ' → τ' → Prop} {x : Exec ε σ} {y : Exec ε τ}

/-- A run beside itself. -/
lemma of_eq {x y : Exec ε σ} (h : x = y) : Both (· = ·) x y := by
  subst h
  cases x with
  | ok a => exact .ok rfl
  | error e => exact .error e

/-- Runs that go together also go together under a weaker relation. -/
lemma mono {R₁ : σ → τ → Prop} (h : Both R x y) (hR : ∀ a b, R a b → R₁ a b) : Both R₁ x y := by
  cases h with
  | ok hab => exact .ok (hR _ _ hab)
  | error e => exact .error e

/-- **Sequences**: the second parts go together from related results. -/
lemma bind {f : σ → Exec ε σ'} {g : τ → Exec ε τ'} (h : Both R x y)
    (hfg : ∀ a b, R a b → Both R' (f a) (g b)) : Both R' (x >>= f) (y >>= g) := by
  cases h with
  | ok hab => exact hfg _ _ hab
  | error e => exact .error e

/-- **Loops**: a step that keeps the relation keeps it however often it is taken. -/
lemma iterate {f : σ → Exec ε σ} {g : τ → Exec ε τ}
    (hstep : ∀ s t, R s t → Both R (f s) (g t)) : ∀ n s t, R s t →
      Both R (iterate f n s) (iterate g n t) := by
  intro n
  induction n with
  | zero => exact fun s t h => .ok h
  | succ n ih => exact fun s t h => (hstep s t h).bind ih

/-- What can be observed of related results is the same, if the relation says so. -/
lemma map_eq {α : Type} {p : σ → α} {q : τ → α} (h : Both R x y)
    (hpq : ∀ a b, R a b → p a = q b) : x.map p = y.map q := by
  cases h with
  | ok hab => exact congrArg Except.ok (hpq _ _ hab)
  | error e => rfl

end Both

end Exec

/-- Loops with bodies that agree on the elements agree. -/
lemma foldlM_congr_mem {m : Type → Type} [Monad m] {α β : Type} {f g : β → α → m β} :
    ∀ {l : List α}, (∀ x ∈ l, ∀ s, f s x = g s x) → ∀ s, l.foldlM f s = l.foldlM g s
  | [], _, _ => rfl
  | x :: l, h, s => by
    rw [List.foldlM_cons, List.foldlM_cons, h x List.mem_cons_self]
    exact congrArg _ (funext fun s => foldlM_congr_mem (fun y hy => h y (.tail x hy)) s)

end ProgLib
