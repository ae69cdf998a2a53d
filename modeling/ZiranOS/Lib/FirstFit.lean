import Mathlib

/-!
# First fit

`extractFirst f l` takes the first element of the list on which `f` succeeds out of the list, and
returns it with the value of `f` and what is left.  It is the search of a first-fit allocator; the
lemmas say which element it finds and that it only removes that one.
-/

namespace ProgLib

variable {α β : Type*}

/-- The first element on which `f` succeeds, the value of `f`, and the list without it. -/
def extractFirst (f : α → Option β) : List α → Option (α × β × List α)
  | [] => none
  | a :: l =>
    match f a with
    | some b => some (a, b, l)
    | none => (extractFirst f l).map fun x => (x.1, x.2.1, a :: x.2.2)

variable {f : α → Option β} {l rest : List α} {a : α} {b : β}

/-- Nothing is found exactly when `f` fails everywhere. -/
lemma extractFirst_eq_none : extractFirst f l = none ↔ ∀ a ∈ l, f a = none := by
  induction l with
  | nil => simp [extractFirst]
  | cons a l ih =>
    rw [extractFirst]
    cases hf : f a with
    | some b => simp [hf]
    | none => simp [hf, ih]

/-- What is found is the first element on which `f` succeeds, and the rest of the list keeps its
order. -/
lemma extractFirst_eq_some : extractFirst f l = some (a, b, rest) ↔
    ∃ l₁ l₂, l = l₁ ++ a :: l₂ ∧ rest = l₁ ++ l₂ ∧ f a = some b ∧ ∀ c ∈ l₁, f c = none := by
  constructor
  · intro h
    induction l generalizing rest with
    | nil => cases h
    | cons c l ih =>
      rw [extractFirst] at h
      cases hf : f c with
      | some b' =>
        rw [hf] at h
        obtain ⟨rfl, rfl, rfl⟩ : c = a ∧ b' = b ∧ l = rest := by simpa using h
        exact ⟨[], l, rfl, rfl, hf, by simp⟩
      | none =>
        rw [hf] at h
        obtain ⟨⟨a', b', rest'⟩, hfound, heq⟩ := Option.map_eq_some_iff.mp h
        obtain ⟨rfl, rfl, rfl⟩ : a' = a ∧ b' = b ∧ c :: rest' = rest := by simpa using heq
        obtain ⟨l₁, l₂, rfl, rfl, hfa, hnone⟩ := ih hfound
        exact ⟨c :: l₁, l₂, rfl, rfl, hfa, List.forall_mem_cons.mpr ⟨hf, hnone⟩⟩
  · rintro ⟨l₁, l₂, rfl, rfl, hfa, hnone⟩
    induction l₁ with
    | nil => simp [extractFirst, hfa]
    | cons c l₁ ih =>
      obtain ⟨hfc, hnone⟩ := List.forall_mem_cons.mp hnone
      simp [extractFirst, hfc, ih hnone]

end ProgLib
