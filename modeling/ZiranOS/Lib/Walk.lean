import Mathlib.Data.List.Induction

/-!
# Walks in a tree

A place in a tree is the list of the names on the way to it, the innermost name first, so the root
is the empty list.  A move stays, goes up, where the root has no place above it, or goes down to a
name.  However often a walk turns around, it comes down to going up some places and down again by
some names (`exists_walk_eq`).
-/

namespace ProgLib

/-- A move in a tree whose places are lists of names of type `α`. -/
inductive Move (α : Type) where
  | stay
  | up
  | down (name : α)
  deriving DecidableEq, Repr

variable {α : Type}

/-- The place after a move. -/
def Move.apply (place : List α) : Move α → List α
  | .stay => place
  | .up => place.tail
  | .down name => name :: place

/-- The place after a walk. -/
def walk (place : List α) (moves : List (Move α)) : List α := moves.foldl Move.apply place

example : walk ["b", "a"] [.up, .up, .up, .down "c"] = ["c"] := by decide

/-- Two walks after each other are one. -/
lemma walk_append (place : List α) (moves moves' : List (Move α)) :
    walk place (moves ++ moves') = walk (walk place moves) moves' :=
  List.foldl_append

/-- **A walk goes up some places and then down by some names**, the same ones wherever it
starts. -/
lemma exists_walk_eq (moves : List (Move α)) :
    ∃ (n : ℕ) (names : List α), ∀ place, walk place moves = names ++ place.drop n := by
  induction moves using List.reverseRecOn with
  | nil => exact ⟨0, [], fun _ => rfl⟩
  | append_singleton moves move ih =>
    obtain ⟨n, names, h⟩ := ih
    simp only [walk_append, h]
    cases move with
    | stay => exact ⟨n, names, fun _ => rfl⟩
    | down name => exact ⟨n, name :: names, fun _ => rfl⟩
    | up =>
      -- the last name that the walk went down by is undone, if there is one
      cases names with
      | nil => exact ⟨n + 1, [], fun _ => List.tail_drop⟩
      | cons name names => exact ⟨n, names, fun _ => rfl⟩

end ProgLib
