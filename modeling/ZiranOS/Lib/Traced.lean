import Mathlib
import ZiranOS.Lib.Exec

/-!
# Runs that leave a log

`Traced τ ε α` is a run of a fallible program together with the list of events it emitted, kept
also when the run fails.  A program is instrumented by a copy of it in this monad; the lemmas here
show that the copy returns what the program returns (`out_bind`, `out_foldlM`) and describe the log
of a sequence and of a loop.
-/

namespace ProgLib

/-- A run with outcome `out` that emitted the events `log`. -/
@[ext] structure Traced (τ ε α : Type) where
  /-- The events emitted, oldest first. -/
  log : List τ
  /-- How the run ended. -/
  out : Exec ε α

namespace Traced

variable {τ ε α β σ : Type}

/-- Run `x`, then `f` on its result if it returned one. -/
def bind (x : Traced τ ε α) (f : α → Traced τ ε β) : Traced τ ε β :=
  match x.out with
  | .ok a => ⟨x.log ++ (f a).log, (f a).out⟩
  | .error e => ⟨x.log, .error e⟩

instance : Monad (Traced τ ε) where
  pure a := ⟨[], .ok a⟩
  bind := bind

/-- Emit one event. -/
def tell (t : τ) : Traced τ ε Unit := ⟨[t], .ok ()⟩

/-- A run that emits nothing. -/
def lift (x : Exec ε α) : Traced τ ε α := ⟨[], x⟩

@[simp] theorem log_pure (a : α) : (pure a : Traced τ ε α).log = [] := rfl

@[simp] theorem out_pure (a : α) : (pure a : Traced τ ε α).out = .ok a := rfl

@[simp] theorem log_lift (x : Exec ε α) : (lift x : Traced τ ε α).log = [] := rfl

@[simp] theorem out_lift (x : Exec ε α) : (lift x : Traced τ ε α).out = x := rfl

@[simp] theorem out_tell (t : τ) : (tell t : Traced τ ε Unit).out = .ok () := rfl

/-- The outcome of a sequence is the sequence of the outcomes. -/
@[simp] theorem out_bind (x : Traced τ ε α) (f : α → Traced τ ε β) :
    (x >>= f).out = x.out >>= fun a => (f a).out := by
  change (bind x f).out = _
  unfold bind
  cases x.out <;> rfl

/-- The log of a sequence whose first part returned. -/
theorem log_bind_ok {x : Traced τ ε α} {a : α} (h : x.out = .ok a) (f : α → Traced τ ε β) :
    (x >>= f).log = x.log ++ (f a).log := by
  change (bind x f).log = _
  simp only [bind, h]

/-- The log of a sequence whose first part failed. -/
theorem log_bind_error {x : Traced τ ε α} {e : Abort ε} (h : x.out = .error e)
    (f : α → Traced τ ε β) : (x >>= f).log = x.log := by
  change (bind x f).log = _
  simp only [bind, h]

@[simp] theorem lift_ok_bind (a : α) (f : α → Traced τ ε β) :
    ((lift (.ok a) : Traced τ ε α) >>= f) = f a := rfl

/-- The log of a sequence after an event. -/
@[simp] theorem log_tell_bind (t : τ) (f : Unit → Traced τ ε β) :
    (tell t >>= f).log = t :: (f ()).log := rfl

/-- A sequence whose first part returned, as a whole. -/
theorem bind_eq_of_ok {x : Traced τ ε α} {a : α} (h : x.out = .ok a) (f : α → Traced τ ε β) :
    (x >>= f) = ⟨x.log ++ (f a).log, (f a).out⟩ := by
  ext1
  · exact log_bind_ok h f
  · rw [out_bind, h, Exec.bind_ok]

/-- A sequence whose first part failed, as a whole. -/
theorem bind_eq_of_error {x : Traced τ ε α} {e : Abort ε} (h : x.out = .error e)
    (f : α → Traced τ ε β) : (x >>= f) = ⟨x.log, .error e⟩ := by
  ext1
  · exact log_bind_error h f
  · rw [out_bind, h, Exec.bind_error]

/-- Sequences associate. -/
theorem bind_bind {γ : Type} (x : Traced τ ε α) (f : α → Traced τ ε β) (g : β → Traced τ ε γ) :
    (x >>= f) >>= g = x >>= fun a => f a >>= g := by
  cases hx : x.out with
  | error e => rw [bind_eq_of_error hx, bind_eq_of_error hx, bind_eq_of_error rfl]
  | ok a =>
    rw [bind_eq_of_ok hx, bind_eq_of_ok hx]
    cases hf : (f a).out with
    | error e => rw [bind_eq_of_error rfl, bind_eq_of_error hf]
    | ok b =>
      rw [bind_eq_of_ok rfl, bind_eq_of_ok hf, List.append_assoc]

instance : LawfulMonad (Traced τ ε) :=
  LawfulMonad.mk' _
    (fun x => by
      change x >>= (fun a => pure (id a)) = x
      cases hx : x.out with
      | ok a =>
        rw [bind_eq_of_ok hx]
        ext1
        · exact List.append_nil x.log
        · exact hx.symm
      | error e =>
        rw [bind_eq_of_error hx, ← hx])
    (fun a f => rfl)
    bind_bind

/-- A loop returns what the loop over the outcomes returns. -/
theorem out_foldlM (f : σ → β → Traced τ ε σ) (l : List β) (s : σ) :
    (l.foldlM f s).out = l.foldlM (fun s b => (f s b).out) s := by
  induction l generalizing s with
  | nil => rfl
  | cons b l ih =>
    simp only [List.foldlM_cons, out_bind, ih]

end Traced

end ProgLib
