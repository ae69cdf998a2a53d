import ZiranOS.Lib.Walk
import ZiranOS.Shell.Parse

/-!
# The laws of paths

The directories that a user can name are the places of a tree, and an argument is a walk in it.
A canonical path is the path of a place (`canonical_iff`), each part of an argument is one move, and
`canonicalize` computes the path of the place to which the walk leads (`canonicalize_placePath`).
The laws of `canonicalize` follow from those of walks (`canonicalize_laws`).
-/

namespace ZiranOS

open ProgLib

/-- A name of a file or a directory. -/
structure Name where
  /-- The characters of the name. -/
  text : List Char
  /-- The text is not empty and neither `.` nor `..`. -/
  isName : IsName text
  /-- A name is a single part of a path. -/
  noSlash : '/' ∉ text

/-- The text determines the name. -/
lemma Name.text_injective : Function.Injective Name.text := by
  rintro ⟨text, -, -⟩ ⟨text', -, -⟩ rfl
  rfl

/-- The move that a part of a path stands for. -/
def partMove (part : List Char) (hslash : '/' ∉ part) : Move Name :=
  if hstay : part = [] ∨ part = ['.'] then .stay
  else if hup : part = ['.', '.'] then .up
  else .down ⟨part, ⟨(not_or.mp hstay).1, (not_or.mp hstay).2, hup⟩, hslash⟩

/-- The moves that a path stands for. -/
def pathMoves (path : List Char) : List (Move Name) :=
  (path.splitOn '/').pmap partMove fun _ => notMem_of_mem_splitOn

/-- The names of a place, the outermost first. -/
def placeStack (place : List Name) : List (List Char) := (place.map Name.text).reverse

/-- The path of a place. -/
def placePath (place : List Name) : List Char := stackPath (placeStack place)

variable {cwd path arg : List Char}

/-! ## Places and canonical paths -/

/-- The names of a place are names. -/
lemma forall_mem_placeStack (place : List Name) :
    ∀ name ∈ placeStack place, IsName name ∧ '/' ∉ name := by
  intro name hname
  rw [placeStack, List.mem_reverse, List.mem_map] at hname
  obtain ⟨n, -, rfl⟩ := hname
  exact ⟨n.isName, n.noSlash⟩

/-- A place is determined by its names. -/
lemma placeStack_injective : Function.Injective placeStack :=
  List.reverse_injective.comp (List.map_injective_iff.mpr Name.text_injective)

/-- Every stack of names is that of a place. -/
lemma exists_placeStack {stack : List (List Char)}
    (hnames : ∀ name ∈ stack, IsName name ∧ '/' ∉ name) : ∃ place, stack = placeStack place := by
  refine ⟨(stack.attach.map fun name =>
    (⟨name.1, (hnames name.1 name.2).1, (hnames name.1 name.2).2⟩ : Name)).reverse, ?_⟩
  rw [placeStack, List.map_reverse, List.reverse_reverse, List.map_map]
  exact (List.attach_map_subtype_val stack).symm

/-- **The canonical paths are the paths of places.** -/
theorem canonical_iff : Canonical path ↔ ∃ place, path = placePath place := by
  constructor
  · intro h
    have hnames : ∀ name ∈ pathNames path, IsName name ∧ '/' ∉ name := by
      rw [← foldl_pushPart_of_canonical h]
      exact forall_mem_foldl_pushPart _ _ (fun part hpart => notMem_of_mem_splitOn hpart)
        fun name hname => absurd hname List.not_mem_nil
    obtain ⟨place, hplace⟩ := exists_placeStack hnames
    exact ⟨place, by rw [placePath, ← hplace, stackPath_pathNames h]⟩
  · rintro ⟨place, rfl⟩
    exact canonical_stackPath (forall_mem_placeStack place)

/-! ## Arguments and walks -/

/-- A part changes the stack as its move changes the place. -/
lemma pushPart_placeStack (place : List Name) (part : List Char) (hslash : '/' ∉ part) :
    pushPart (placeStack place) part = placeStack ((partMove part hslash).apply place) := by
  unfold pushPart partMove
  split_ifs with hstay hup
  · rfl
  · rw [placeStack, List.dropLast_reverse, Move.apply, placeStack, List.map_tail]
  · rw [placeStack, Move.apply, placeStack, List.map_cons, List.reverse_cons]

/-- The parts of a path change the stack as the walk changes the place. -/
lemma foldl_pushPart_placeStack (place : List Name) (path : List Char) :
    (path.splitOn '/').foldl pushPart (placeStack place) =
      placeStack (walk place (pathMoves path)) := by
  have hfold : ∀ (parts : List (List Char)) (hparts : ∀ part ∈ parts, '/' ∉ part)
      (place : List Name), parts.foldl pushPart (placeStack place) =
        placeStack (walk place (parts.pmap partMove hparts)) := by
    intro parts
    induction parts with
    | nil => exact fun _ _ => rfl
    | cons part parts ih =>
      intro hparts place
      rw [List.foldl_cons, pushPart_placeStack place part (List.forall_mem_cons.mp hparts).1,
        ih (List.forall_mem_cons.mp hparts).2]
      rfl
  exact hfold _ _ place

/-- The walk along a path from the root leads to its place. -/
lemma walk_placePath (place : List Name) : walk [] (pathMoves (placePath place)) = place := by
  refine placeStack_injective ?_
  rw [← foldl_pushPart_placeStack]
  have hcanonical : Canonical (placePath place) := canonical_iff.mpr ⟨place, rfl⟩
  exact (foldl_pushPart_of_canonical hcanonical).trans
    (pathNames_stackPath (forall_mem_placeStack place))

/-- **The path of an argument is that of the place to which it leads**, from the current directory
or, for an absolute argument, from the root. -/
theorem canonicalize_placePath (place : List Name) (arg : List Char) :
    canonicalize (placePath place) arg =
      placePath (walk (if arg.head? = some '/' then [] else place) (pathMoves arg)) := by
  rw [canonicalize_eq, pathStack, List.foldl_append]
  refine congrArg stackPath ?_
  have hroot : ([] : List (List Char)) = placeStack [] := rfl
  split_ifs with habs
  · exact foldl_pushPart_placeStack [] arg
  · rw [hroot, foldl_pushPart_placeStack [], walk_placePath, foldl_pushPart_placeStack]

/-- A relative argument removes some names at the end of the current directory and adds some others,
the same in every directory. -/
theorem exists_canonicalize_relative (hrel : arg.head? ≠ some '/') :
    ∃ (n : ℕ) (names : List Name), ∀ place,
      canonicalize (placePath place) arg = placePath (names ++ place.drop n) := by
  obtain ⟨n, names, hwalk⟩ := exists_walk_eq (pathMoves arg)
  exact ⟨n, names, fun place => by rw [canonicalize_placePath, if_neg hrel, hwalk]⟩

/-- The parts of a path that is joined onto another are the parts of both. -/
lemma pathMoves_append (path path' : List Char) :
    pathMoves (path ++ '/' :: path') = pathMoves path ++ pathMoves path' := by
  simp only [pathMoves, List.splitOn_append_cons_self, List.pmap_append]

/-! ## The laws -/

/-- The empty argument stays. -/
lemma canonicalize_nil (h : Canonical path) : canonicalize path [] = path := by
  obtain ⟨place, rfl⟩ := canonical_iff.mp h
  rw [canonicalize_placePath]
  rfl

/-- A canonical path leads to itself from everywhere. -/
lemma canonicalize_self (hcwd : Canonical cwd) (h : Canonical path) :
    canonicalize cwd path = path := by
  obtain ⟨start, rfl⟩ := canonical_iff.mp hcwd
  have habs : path.head? = some '/' := by
    rcases h with rfl | ⟨rest, rfl, -⟩ <;> rfl
  obtain ⟨place, rfl⟩ := canonical_iff.mp h
  rw [canonicalize_placePath, if_pos habs, walk_placePath]

/-- Two arguments after each other are one. -/
lemma canonicalize_canonicalize (hcwd : Canonical cwd) {a b : List Char} (ha : a ≠ [])
    (hb : b.head? ≠ some '/') :
    canonicalize (canonicalize cwd a) b = canonicalize cwd (a ++ '/' :: b) := by
  obtain ⟨place, rfl⟩ := canonical_iff.mp hcwd
  have hhead : (a ++ '/' :: b).head? = a.head? := List.head?_append_of_ne_nil _ ha
  rw [canonicalize_placePath place a, canonicalize_placePath, if_neg hb, canonicalize_placePath,
    hhead, pathMoves_append, walk_append]

/-- **Laws of path normalisation.**  The path of every argument is canonical; a canonical path is
left as it is by the empty argument, and found from every directory; two arguments, of which the
second is relative, lead where both joined by a `/` lead; and the path is that of the place to which
the argument leads in the tree of names. -/
theorem canonicalize_laws (c : List Char) (hc : Canonical c) (a b : List Char) :
    Canonical (canonicalize c a) ∧
    (∀ x, Canonical x → canonicalize x [] = x ∧ canonicalize c x = x) ∧
    (a ≠ [] → b.head? ≠ some '/' →
      canonicalize (canonicalize c a) b = canonicalize c (a ++ '/' :: b)) ∧
    ∃ place, c = placePath place ∧ canonicalize c a =
      placePath (walk (if a.head? = some '/' then [] else place) (pathMoves a)) := by
  refine ⟨canonical_canonicalize c a, fun x hx => ⟨canonicalize_nil hx, canonicalize_self hc hx⟩,
    canonicalize_canonicalize hc, ?_⟩
  obtain ⟨place, rfl⟩ := canonical_iff.mp hc
  exact ⟨place, rfl, canonicalize_placePath place a⟩

theorem canonicalize_laws_docs : canonicalize
    (canonicalize "/docs".toList "../../etc".toList) "./x//".toList =
      canonicalize "/docs".toList "../../etc/./x//".toList :=
  have hdocs : Canonical "/docs".toList := .inr ⟨"docs".toList, rfl, by decide⟩
  (canonicalize_laws _ hdocs _ _).2.2.1 (by decide) (by decide)

end ZiranOS
