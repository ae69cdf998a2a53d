import ZiranOS.Lib.Text

/-!
# Command lines and paths

`parse` splits a command line into a command and its argument, and `canonicalize` turns an argument
into an absolute path.  Whatever the argument is, the path that results is `Canonical`
(`canonical_canonicalize`).
-/

namespace ZiranOS

open ProgLib

/-- A parsed command line. -/
inductive Command where
  | empty
  | help
  | echo (rest : List Char)
  | clear
  | mem
  | ps
  | pwd
  | cd (path : List Char)
  | ls (path : List Char)
  | cat (path : List Char)
  | load
  | net
  | unknown (verb : List Char)
  deriving DecidableEq, Repr

/-- The command of a verb and the rest of its line; a path is the first word of the rest. -/
def Command.ofVerb (verb rest : List Char) : Command :=
  if verb = "help".toList then .help
  else if verb = "echo".toList then .echo rest
  else if verb = "clear".toList then .clear
  else if verb = "mem".toList then .mem
  else if verb = "ps".toList then .ps
  else if verb = "pwd".toList then .pwd
  else if verb = "cd".toList then .cd (Text.firstWord rest)
  else if verb = "ls".toList then .ls (Text.firstWord rest)
  else if verb = "cat".toList then .cat (Text.firstWord rest)
  else if verb = "load".toList then .load
  else if verb = "net".toList then .net
  else .unknown verb

/-- Split a line into a command and its argument. -/
def parse (line : List Char) : Command :=
  let line := Text.trim line
  if line.isEmpty then .empty
  else
    match Text.splitOnce Text.isWhitespace line with
    | some (verb, rest) => .ofVerb verb (Text.trimStart rest)
    | none => .ofVerb line []

example : parse "  cat  a b ".toList = .cat ['a'] := by decide

/-- Of what follows `cat`, only the first word arrives. -/
lemma parse_cat (name : List Char) :
    parse ("cat ".toList ++ name) = .cat (Text.firstWord name) := by
  have htrim : Text.trim ("cat ".toList ++ name) =
      if (name.reverse.dropWhile Text.isWhitespace).isEmpty then "cat".toList
      else "cat ".toList ++ name.rdropWhile Text.isWhitespace := by
    have hstart : Text.trimStart ("cat ".toList ++ name) = "cat ".toList ++ name := rfl
    rw [Text.trim, hstart, List.reverse_append, Text.trimStart, List.dropWhile_append]
    split_ifs
    · rfl
    · rw [List.reverse_append, List.reverse_reverse, List.rdropWhile]
  have hword : Text.firstWord (name.rdropWhile Text.isWhitespace) = Text.firstWord name := by
    conv_rhs => rw [← List.rdropWhile_append_rtakeWhile (p := Text.isWhitespace) (l := name)]
    exact (Text.firstWord_append_of_forall _ fun c hc => List.mem_rtakeWhile_imp hc).symm
  unfold parse
  rw [htrim]
  split_ifs with hblank
  · rw [← hword, List.rdropWhile, List.isEmpty_iff.mp hblank]
    rfl
  · rw [← hword, ← Text.firstWord_trimStart]
    rfl

/-! ## Paths -/

/-- The stack of names after one part of a path. -/
def pushPart (stack : List (List Char)) (part : List Char) : List (List Char) :=
  if part = [] ∨ part = ['.'] then stack
  else if part = ['.', '.'] then stack.dropLast
  else stack ++ [part]

/-- The names of an argument, from the current directory on unless the argument is absolute. -/
def pathStack (cwd arg : List Char) : List (List Char) :=
  let base := if arg.head? = some '/' then [] else cwd
  (base.splitOn '/' ++ arg.splitOn '/').foldl pushPart []

/-- Join an argument onto the current directory and remove `.`, `..` and empty parts. -/
def canonicalize (cwd arg : List Char) : List Char :=
  match pathStack cwd arg with
  | [] => ['/']
  | stack => stack.flatMap fun name => '/' :: name

/-- A part of a canonical path. -/
def IsName (part : List Char) : Prop := part ≠ [] ∧ part ≠ ['.'] ∧ part ≠ ['.', '.']

instance : DecidablePred IsName := fun part =>
  inferInstanceAs (Decidable (part ≠ [] ∧ part ≠ ['.'] ∧ part ≠ ['.', '.']))

/-- A canonical absolute path: the root, or a leading `/` and names with one `/` between them. -/
def Canonical (path : List Char) : Prop :=
  path = ['/'] ∨ ∃ rest, path = '/' :: rest ∧ ∀ part ∈ rest.splitOn '/', IsName part

/-- The root is canonical. -/
lemma canonical_root : Canonical ['/'] := .inl rfl

/-- A part adds a name without a `/` to the stack, or none. -/
lemma forall_mem_pushPart {stack : List (List Char)} {part : List Char}
    (hstack : ∀ name ∈ stack, IsName name ∧ '/' ∉ name) (hpart : '/' ∉ part) :
    ∀ name ∈ pushPart stack part, IsName name ∧ '/' ∉ name := by
  unfold pushPart
  split_ifs with hempty hup
  · exact hstack
  · exact fun name hname => hstack name (List.mem_of_mem_dropLast hname)
  · rw [List.forall_mem_append, List.forall_mem_singleton]
    rw [not_or] at hempty
    exact ⟨hstack, ⟨hempty.1, hempty.2, hup⟩, hpart⟩

/-- The parts of a path add names without a `/` to the stack. -/
lemma forall_mem_foldl_pushPart (parts stack : List (List Char))
    (hparts : ∀ part ∈ parts, '/' ∉ part) (hstack : ∀ name ∈ stack, IsName name ∧ '/' ∉ name) :
    ∀ name ∈ parts.foldl pushPart stack, IsName name ∧ '/' ∉ name := by
  induction parts generalizing stack with
  | nil => exact hstack
  | cons part parts ih =>
    rw [List.forall_mem_cons] at hparts
    exact ih _ hparts.2 (forall_mem_pushPart hstack hparts.1)

/-- The names of an argument contain no `/`. -/
lemma forall_mem_pathStack (cwd arg : List Char) :
    ∀ name ∈ pathStack cwd arg, IsName name ∧ '/' ∉ name := by
  unfold pathStack
  refine forall_mem_foldl_pushPart _ _ ?_ fun name hname => absurd hname List.not_mem_nil
  rw [List.forall_mem_append]
  exact ⟨fun part hpart => notMem_of_mem_splitOn hpart,
    fun part hpart => notMem_of_mem_splitOn hpart⟩

/-- Names with a `/` before each of them. -/
lemma flatMap_slash (name : List Char) (stack : List (List Char)) :
    (name :: stack).flatMap (fun name => '/' :: name) =
      '/' :: ['/'].intercalate (name :: stack) := by
  induction stack generalizing name with
  | nil => simp [List.intercalate]
  | cons next stack ih =>
    rw [List.flatMap_cons, ih]
    simp [List.intercalate]

/-- The path of a stack of names. -/
def stackPath : List (List Char) → List Char
  | [] => ['/']
  | stack => stack.flatMap fun name => '/' :: name

/-- The path of an argument is that of its stack. -/
lemma canonicalize_eq (cwd arg : List Char) :
    canonicalize cwd arg = stackPath (pathStack cwd arg) := rfl

/-- The path of a stack of names is canonical. -/
lemma canonical_stackPath {stack : List (List Char)}
    (hnames : ∀ name ∈ stack, IsName name ∧ '/' ∉ name) : Canonical (stackPath stack) := by
  cases stack with
  | nil => exact canonical_root
  | cons name stack =>
    refine .inr ⟨['/'].intercalate (name :: stack), flatMap_slash name stack, ?_⟩
    rw [List.splitOn_intercalate '/' (fun part hpart => (hnames part hpart).2)
      (List.cons_ne_nil _ _)]
    exact fun part hpart => (hnames part hpart).1

/-- **The path of every argument is canonical**, from whatever directory. -/
lemma canonical_canonicalize (cwd arg : List Char) : Canonical (canonicalize cwd arg) :=
  canonical_stackPath (forall_mem_pathStack cwd arg)

/-- The names of a path. -/
def pathNames (path : List Char) : List (List Char) :=
  (path.splitOn '/').filter fun part => !part.isEmpty

/-- A leading `/` adds no name. -/
lemma pathNames_slash (path : List Char) : pathNames ('/' :: path) = pathNames path := by
  rw [pathNames, List.splitOn_cons_eq_if_modifyHead, if_pos (beq_self_eq_true _)]
  rfl

/-- The names of a canonical path are all its parts. -/
lemma filter_isName {parts : List (List Char)} (h : ∀ part ∈ parts, IsName part) :
    parts.filter (fun part => !part.isEmpty) = parts :=
  List.filter_eq_self.mpr fun part hpart => by simp [(h part hpart).1]

/-- A stack is read back from its path. -/
lemma pathNames_stackPath {stack : List (List Char)}
    (hnames : ∀ name ∈ stack, IsName name ∧ '/' ∉ name) : pathNames (stackPath stack) = stack := by
  cases stack with
  | nil => rfl
  | cons name stack =>
    rw [stackPath, flatMap_slash, pathNames_slash, pathNames, List.splitOn_intercalate '/'
      (fun part hpart => (hnames part hpart).2) (List.cons_ne_nil _ _)]
    · exact filter_isName fun part hpart => (hnames part hpart).1
    · exact List.cons_ne_nil _ _

/-- A canonical path is that of its names. -/
lemma stackPath_pathNames {path : List Char} (h : Canonical path) :
    stackPath (pathNames path) = path := by
  rcases h with rfl | ⟨rest, rfl, hparts⟩
  · rfl
  · rw [pathNames_slash, pathNames, filter_isName hparts]
    obtain ⟨name, names, hsplit⟩ := List.exists_cons_of_ne_nil (List.splitOn_ne_nil '/' rest)
    rw [hsplit, stackPath, flatMap_slash, ← hsplit, List.intercalate_splitOn]
    exact List.cons_ne_nil _ _

/-- The names of the path of an argument are those of its stack. -/
lemma pathNames_canonicalize (cwd arg : List Char) :
    pathNames (canonicalize cwd arg) = pathStack cwd arg :=
  pathNames_stackPath (forall_mem_pathStack cwd arg)

/-- The parts of a canonical path put its names on the stack. -/
lemma foldl_pushPart_of_canonical {path : List Char} (h : Canonical path) :
    (path.splitOn '/').foldl pushPart [] = pathNames path := by
  have hpush : ∀ (parts stack : List (List Char)), (∀ part ∈ parts, IsName part) →
      parts.foldl pushPart stack = stack ++ parts := by
    intro parts
    induction parts with
    | nil => exact fun stack _ => (List.append_nil stack).symm
    | cons part parts ih =>
      intro stack hparts
      rw [List.forall_mem_cons] at hparts
      obtain ⟨⟨hempty, hdot, hup⟩, hparts⟩ := hparts
      rw [List.foldl_cons, pushPart, if_neg (not_or.mpr ⟨hempty, hdot⟩), if_neg hup, ih _ hparts,
        List.append_assoc, List.singleton_append]
  rcases h with rfl | ⟨rest, rfl, hparts⟩
  · rfl
  · rw [pathNames_slash, pathNames, filter_isName hparts, List.splitOn_cons_eq_if_modifyHead,
      if_pos (beq_self_eq_true _)]
    exact hpush _ [] hparts

/-- A single name is joined to a canonical directory by adding it to the names. -/
lemma pathStack_of_canonical {cwd name : List Char} (hcwd : Canonical cwd) (hname : '/' ∉ name) :
    pathStack cwd name = pushPart (pathNames cwd) name := by
  have hrel : name.head? ≠ some '/' := fun hhead => hname (List.mem_of_head? hhead)
  have hsplit : name.splitOn '/' = [name] :=
    List.splitOn_eq_singleton hname
  rw [pathStack, if_neg hrel, List.foldl_append, foldl_pushPart_of_canonical hcwd, hsplit]
  rfl

end ZiranOS
