import Mathlib

/-!
# Runs of a step relation

A system is a relation `Step s e t`: in the state `s` the event `e` can happen and leads to `t`.
A `Run` is a finite sequence of steps together with the list of its transitions, so that a
property can be asked of every step of a run as well as of the states it reaches.

The rules of the file are the ones by which every invariant of this development is proved: what
one step preserves holds along every run (`Run.invariant`), also when only the steps that satisfy
a side condition preserve it (`Run.invariant_of`).
-/

namespace ProgLib

variable {σ ε : Type*}

/-- One step of a run: the event, and the states before and after it. -/
structure Transition (σ ε : Type*) where
  /-- The state before the step. -/
  pre : σ
  /-- The event of the step. -/
  event : ε
  /-- The state after the step. -/
  post : σ

/-- The runs of a step relation from one state to another, with their transitions. -/
inductive Run (Step : σ → ε → σ → Prop) : σ → List (Transition σ ε) → σ → Prop
  | nil (s : σ) : Run Step s [] s
  | cons {s t u : σ} {e : ε} {tr : List (Transition σ ε)} (hstep : Step s e t)
      (hrun : Run Step t tr u) : Run Step s (⟨s, e, t⟩ :: tr) u

/-- Some run leads from `s` to `t`. -/
def Reachable (Step : σ → ε → σ → Prop) (s t : σ) : Prop := ∃ tr, Run Step s tr t

variable {Step : σ → ε → σ → Prop} {s t u : σ} {tr tr' : List (Transition σ ε)}

namespace Run

/-- Two runs that meet compose. -/
lemma append (h : Run Step s tr t) (h' : Run Step t tr' u) : Run Step s (tr ++ tr') u := by
  induction h with
  | nil => exact h'
  | cons hstep _ ih => exact cons hstep (ih h')

/-- A run of one relation is a run of every relation that contains it. -/
lemma mono {Step' : σ → ε → σ → Prop} (hle : ∀ {s e t}, Step s e t → Step' s e t)
    (h : Run Step s tr t) : Run Step' s tr t := by
  induction h with
  | nil s => exact nil s
  | cons hstep _ ih => exact cons (hle hstep) ih

/-- A run in two parts meets in between. -/
lemma exists_of_append : ∀ {tr : List (Transition σ ε)} {s : σ}, Run Step s (tr ++ tr') u →
    ∃ t, Run Step s tr t ∧ Run Step t tr' u
  | [], s, h => ⟨s, nil s, h⟩
  | _ :: _, _, cons hstep h =>
    have ⟨t, h₁, h₂⟩ := exists_of_append h
    ⟨t, cons hstep h₁, h₂⟩

/-- Every transition of a run is a step, from a state that a first part of the run reaches. -/
lemma mem (h : Run Step s tr t) {x : Transition σ ε} (hx : x ∈ tr) :
    Step x.pre x.event x.post ∧ Reachable Step s x.pre := by
  induction h with
  | nil => cases hx
  | cons hstep _ ih =>
    rcases List.mem_cons.mp hx with rfl | hx
    · exact ⟨hstep, [], nil _⟩
    · obtain ⟨hstep', tr₁, hrun⟩ := ih hx
      exact ⟨hstep', _, cons hstep hrun⟩

/-- An invariant that every step satisfying `C` preserves holds in all states of a run whose
steps all satisfy `C`. -/
lemma invariant_of {I : σ → Prop} {C : σ → ε → Prop}
    (hI : ∀ s e t, I s → C s e → Step s e t → I t) (h : Run Step s tr t)
    (hC : ∀ x ∈ tr, C x.pre x.event) (hs : I s) :
    I t ∧ ∀ x ∈ tr, I x.pre ∧ I x.post := by
  induction h with
  | nil => exact ⟨hs, by simp⟩
  | cons hstep _ ih =>
    obtain ⟨hC₁, hC₂⟩ := List.forall_mem_cons.mp hC
    have ht := hI _ _ _ hs hC₁ hstep
    obtain ⟨hend, hall⟩ := ih hC₂ ht
    exact ⟨hend, List.forall_mem_cons.mpr ⟨⟨hs, ht⟩, hall⟩⟩

/-- An invariant that every step preserves holds at the end of every run. -/
lemma invariant {I : σ → Prop} (hI : ∀ s e t, I s → Step s e t → I t) (h : Run Step s tr t)
    (hs : I s) : I t :=
  (invariant_of (C := fun _ _ => True) (fun s e t hs _ => hI s e t hs) h (by simp) hs).1

/-- A relation to the states of a deterministic abstract system that every step preserves holds at
the end of a run, between the state reached and the abstract state after the same events. -/
lemma simulates {τ : Type*} {R : σ → τ → Prop} {next : τ → ε → τ}
    (hR : ∀ s e t a, R s a → Step s e t → R t (next a e)) (h : Run Step s tr t) {a : τ}
    (ha : R s a) : R t ((tr.map Transition.event).foldl next a) := by
  induction h generalizing a with
  | nil => exact ha
  | cons hstep _ ih => exact ih (hR _ _ _ _ ha hstep)

/-- Where a property of states survives exactly the steps that satisfy `C`, it holds after every
step of a run exactly when all its steps satisfy `C`. -/
lemma forall_post_iff {I J : σ → Prop} {C : σ → ε → Prop}
    (hI : ∀ s e t, I s → Step s e t → I t)
    (hJ : ∀ s e t, I s → J s → Step s e t → (J t ↔ C s e)) (h : Run Step s tr t) (hs : I s)
    (hs' : J s) : (∀ x ∈ tr, J x.post) ↔ ∀ x ∈ tr, C x.pre x.event := by
  induction h with
  | nil => simp
  | cons hstep _ ih =>
    rw [List.forall_mem_cons, List.forall_mem_cons, ← hJ _ _ _ hs hs' hstep]
    exact and_congr_right fun ht => ih (hI _ _ _ hs hstep) ht

/-- Whatever enters a queue `q` leaves it in the same order: if every step keeps the balance between
what is in the queue, what enters (`f`) and what leaves (`g`), then so does a run. -/
lemma flow_of {α : Type*} {I : σ → Prop} {C : σ → ε → Prop} {q : σ → List α}
    {f g : Transition σ ε → List α}
    (hI : ∀ s e t, I s → C s e → Step s e t →
      I t ∧ q s ++ f ⟨s, e, t⟩ = g ⟨s, e, t⟩ ++ q t)
    (h : Run Step s tr t) (hC : ∀ x ∈ tr, C x.pre x.event) (hs : I s) :
    q s ++ tr.flatMap f = tr.flatMap g ++ q t := by
  induction h with
  | nil => simp
  | cons hstep _ ih =>
    obtain ⟨hC₁, hC₂⟩ := List.forall_mem_cons.mp hC
    obtain ⟨ht, hbal⟩ := hI _ _ _ hs hC₁ hstep
    rw [List.flatMap_cons, List.flatMap_cons, ← List.append_assoc, hbal, List.append_assoc,
      ih hC₂ ht, List.append_assoc]

/-- A number `n` that every step balances against what enters (`f`) and what leaves (`g`) is
balanced along every run. -/
lemma balance {n : σ → ℕ} {f g : Transition σ ε → ℕ}
    (hstep : ∀ s e t, Step s e t →
      n s + f ⟨s, e, t⟩ = g ⟨s, e, t⟩ + n t) (h : Run Step s tr t) :
    n s + (tr.map f).sum = (tr.map g).sum + n t := by
  induction h with
  | nil => simp
  | cons h₁ _ ih =>
    have hbal := hstep _ _ _ h₁
    simp only [List.map_cons, List.sum_cons]
    omega

end Run

/-- An invariant that every step preserves holds in every reachable state. -/
lemma Reachable.invariant {I : σ → Prop} (hI : ∀ s e t, I s → Step s e t → I t)
    (h : Reachable Step s t) (hs : I s) : I t := by
  obtain ⟨tr, hrun⟩ := h
  exact hrun.invariant hI hs

/-! ## Runs of a step function -/

/-- The transitions of a guarded step function along a list of events, and the state they lead
to; the first event that is not enabled ends the run. -/
def execTrace (step : σ → ε → Option σ) : σ → List ε → List (Transition σ ε) × σ
  | s, [] => ([], s)
  | s, e :: es =>
    match step s e with
    | none => ([], s)
    | some t => (⟨s, e, t⟩ :: (execTrace step t es).1, (execTrace step t es).2)

/-- Executing a guarded step function gives a run of its step relation. -/
lemma run_execTrace (step : σ → ε → Option σ) (s : σ) (es : List ε) :
    Run (fun s e t => step s e = some t) s (execTrace step s es).1 (execTrace step s es).2 := by
  induction es generalizing s with
  | nil => exact Run.nil s
  | cons e es ih =>
    rw [execTrace]
    split
    · exact Run.nil s
    · next t hstep => exact Run.cons hstep (ih t)

end ProgLib
