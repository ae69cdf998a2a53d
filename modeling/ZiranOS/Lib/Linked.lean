import Mathlib

/-!
# Linked lists in memory

A list that lives in memory is a pointer to its first node and a function `next` from nodes to
pointers.  `Segment null next p l q` says that following `next` from `p` visits the nodes of `l`,
none of them null, and arrives at `q`; a whole list arrives at `null`.  Such a list visits no node
twice (`Segment.nodup`), so a walk over it ends.

A cell is a place that holds a pointer: the variable that points to the first node, or the `next`
field of a node.  `Linked.unlink` takes the node behind a cell out of the list by one write to that
cell.
-/

namespace ProgLib

variable {α : Type*}

/-- Following `next` from `p` visits the nodes of the list and arrives at `q`. -/
def Segment (null : α) (next : α → α) : α → List α → α → Prop
  | p, [], q => p = q
  | p, a :: l, q => p = a ∧ a ≠ null ∧ Segment null next (next a) l q

namespace Segment

variable {null : α} {next next' : α → α} {p q a : α} {l l₁ l₂ : List α}

/-- The empty segment goes nowhere. -/
@[simp] lemma nil_iff : Segment null next p [] q ↔ p = q := Iff.rfl

/-- A segment starts at its first node. -/
@[simp] lemma cons_iff : Segment null next p (a :: l) q ↔
    p = a ∧ a ≠ null ∧ Segment null next (next a) l q := Iff.rfl

/-- Segments compose. -/
lemma append_iff : Segment null next p (l₁ ++ l₂) q ↔
    ∃ m, Segment null next p l₁ m ∧ Segment null next m l₂ q := by
  induction l₁ generalizing p with
  | nil => simp
  | cons b l₁ ih =>
    rw [List.cons_append, cons_iff, ih]
    constructor
    · rintro ⟨hp, hb, m, h₁, h₂⟩
      exact ⟨m, ⟨hp, hb, h₁⟩, h₂⟩
    · rintro ⟨m, ⟨hp, hb, h₁⟩, h₂⟩
      exact ⟨hp, hb, m, h₁, h₂⟩

/-- A segment depends on the pointers of its nodes only. -/
lemma congr (h : Segment null next p l q) (hnext : ∀ b ∈ l, next' b = next b) :
    Segment null next' p l q := by
  induction l generalizing p with
  | nil => exact h
  | cons b l ih =>
    obtain ⟨hp, hb, hrest⟩ := h
    refine ⟨hp, hb, ?_⟩
    rw [hnext b List.mem_cons_self]
    exact ih hrest fun c hc => hnext c (List.mem_cons_of_mem _ hc)

/-- A whole list is determined by its first pointer. -/
lemma unique (h₁ : Segment null next p l₁ null) (h₂ : Segment null next p l₂ null) : l₁ = l₂ := by
  induction l₁ generalizing p l₂ with
  | nil =>
    cases l₂ with
    | nil => rfl
    | cons b l₂ => exact absurd (h₂.1.symm.trans h₁) h₂.2.1
  | cons b l₁ ih =>
    cases l₂ with
    | nil => exact absurd (h₁.1.symm.trans h₂) h₁.2.1
    | cons c l₂ =>
      obtain rfl : b = c := h₁.1.symm.trans h₂.1
      rw [ih h₁.2.2 h₂.2.2]

/-- **A whole list has no cycle.** -/
lemma nodup (h : Segment null next p l null) : l.Nodup := by
  induction l generalizing p with
  | nil => exact List.nodup_nil
  | cons b l ih =>
    refine List.nodup_cons.mpr ⟨fun hb => ?_, ih h.2.2⟩
    -- what follows the second visit would be what follows the first
    obtain ⟨l₁, l₂, rfl⟩ := List.append_of_mem hb
    obtain ⟨m, -, hm⟩ := append_iff.mp h.2.2
    have hlen := congrArg List.length (unique h.2.2 hm.2.2)
    rw [List.length_append, List.length_cons] at hlen
    omega

/-- The pointer behind the last node of a segment. -/
lemma concat_iff : Segment null next p (l ++ [a]) q ↔
    Segment null next p l a ∧ a ≠ null ∧ next a = q := by
  rw [append_iff]
  constructor
  · rintro ⟨m, h, rfl, hne, hq⟩
    exact ⟨h, hne, hq⟩
  · rintro ⟨h, hne, hq⟩
    exact ⟨a, h, rfl, hne, hq⟩

end Segment

/-- A list in memory: the pointer to its first node, and the pointers of all nodes. -/
structure Linked (α : Type*) where
  first : α
  next : α → α

namespace Linked

variable {null : α} {m : Linked α} {a : α} {l l₁ l₂ : List α}

/-- The list in memory has the given nodes. -/
def Nodes (null : α) (m : Linked α) (l : List α) : Prop := Segment null m.next m.first l null

/-- The pointer in a cell: the first pointer, or that of a node. -/
def get (m : Linked α) : Option α → α
  | none => m.first
  | some a => m.next a

/-- A list in memory visits no node twice. -/
lemma Nodes.nodup (h : m.Nodes null l) : l.Nodup := Segment.nodup h

/-- The cell behind the nodes walked so far points to the others. -/
lemma Nodes.get (h : m.Nodes null (l₁ ++ l₂)) :
    Segment null m.next (m.get l₁.getLast?) l₂ null := by
  obtain ⟨p, h₁, h₂⟩ := Segment.append_iff.mp h
  rcases List.eq_nil_or_concat l₁ with rfl | ⟨l, c, rfl⟩
  · obtain rfl : m.first = p := h₁
    exact h₂
  · rw [List.concat_eq_append] at h₁
    obtain ⟨-, -, rfl⟩ := Segment.concat_iff.mp h₁
    rw [List.concat_eq_append, List.getLast?_concat]
    exact h₂

/-- A list in memory depends on the first pointer and on the pointers of its nodes only. -/
lemma Nodes.congr {m' : Linked α} (h : m.Nodes null l) (hfirst : m'.first = m.first)
    (hnext : ∀ b ∈ l, m'.next b = m.next b) : m'.Nodes null l := by
  unfold Nodes
  rw [hfirst]
  exact Segment.congr h hnext

section Write

variable [DecidableEq α]

/-- Write a cell. -/
def set (m : Linked α) (cell : Option α) (v : α) : Linked α :=
  match cell with
  | none => { m with first := v }
  | some a => { m with next := Function.update m.next a v }

/-- Writes to different cells commute. -/
lemma set_comm {c c' : Option α} (hne : c ≠ c') (v v' : α) :
    (m.set c v).set c' v' = (m.set c' v').set c v := by
  cases c with
  | none =>
    cases c' with
    | none => exact absurd rfl hne
    | some a' => rfl
  | some a =>
    cases c' with
    | none => rfl
    | some a' =>
      have ha : a ≠ a' := fun h => hne (congrArg some h)
      change Linked.mk m.first (Function.update (Function.update m.next a v) a' v') =
        Linked.mk m.first (Function.update (Function.update m.next a' v') a v)
      rw [Function.update_comm ha]

/-- Putting a node in front of the list. -/
lemma Nodes.push (h : m.Nodes null l) (ha : a ∉ l) (hne : a ≠ null) :
    ({ first := a, next := Function.update m.next a m.first } : Linked α).Nodes null (a :: l) := by
  refine ⟨rfl, hne, ?_⟩
  change Segment null _ (Function.update m.next a m.first a) l null
  rw [Function.update_self]
  refine Segment.congr h fun b hb => Function.update_of_ne ?_ _ _
  rintro rfl
  exact ha hb

/-- **Unlinking a node by one write to the cell in front of it.** -/
lemma Nodes.unlink (h : m.Nodes null (l₁ ++ a :: l₂)) :
    (m.set l₁.getLast? (m.next a)).Nodes null (l₁ ++ l₂) := by
  have hnodup := h.nodup
  obtain ⟨p, h₁, rfl, -, h₂⟩ := Segment.append_iff.mp h
  rcases List.eq_nil_or_concat l₁ with rfl | ⟨l, c, rfl⟩
  · exact h₂
  · rw [List.concat_eq_append] at h₁ hnodup ⊢
    obtain ⟨h₁, hne, -⟩ := Segment.concat_iff.mp h₁
    rw [List.getLast?_concat]
    -- the cell is visited once, so the rest of the list does not see the write
    have hc₁ : c ∉ l := by
      have := (List.nodup_append.mp hnodup).1
      exact (List.nodup_concat l c).mp (by rwa [List.concat_eq_append]) |>.1
    have hc₂ : c ∉ l₂ := by
      intro hc
      exact (List.nodup_append.mp hnodup).2.2 c (by simp) c (by simp [hc]) rfl
    have hother : ∀ {b}, b ≠ c → (m.set (some c) (m.next p)).next b = m.next b :=
      fun hb => Function.update_of_ne hb _ _
    refine Segment.append_iff.mpr ⟨m.next p, Segment.concat_iff.mpr ⟨?_, hne, ?_⟩, ?_⟩
    · exact h₁.congr fun b hb => hother fun hbc => hc₁ (hbc ▸ hb)
    · exact Function.update_self ..
    · exact h₂.congr fun b hb => hother fun hbc => hc₂ (hbc ▸ hb)

/-- Writing the pointer of a node that is not in the list leaves the list. -/
lemma Nodes.set_of_notMem (h : m.Nodes null l) (ha : a ∉ l) (v : α) :
    (m.set (some a) v).Nodes null l := by
  refine Segment.congr h fun b hb => Function.update_of_ne ?_ _ _
  rintro rfl
  exact ha hb

end Write

end Linked

end ProgLib
