import ZiranOS.Fs.BootImage
import ZiranOS.Shell.Load
import ZiranOS.Shell.Parse

/-!
# The commands of the shell

The shell holds the current directory and the image that was loaded last.  `dispatch` runs one
command line; `load` reads its payload from the console, so that a step of the shell has a line and
a stream of bytes as its input.  A command returns the state after it and what it prints.

The flag of the server mode is set before the shell starts.  With a flag, `load` appends a gap and
the flag to the image, and images are mounted by the length-trusting reader.

The heap is left out: every allocation succeeds.  While the sentinel of a payload has not arrived,
`load` keeps waiting (`Exec.fail ()`).
-/

namespace ZiranOS

open ProgLib

/-! ## The server mode -/

/-- The size of the flag region. -/
def tier2FlagLen : ℕ := 64
/-- The largest gap between the image and the flag region. -/
def tier2GapMax : ℕ := 512

/-- The gap of a session: the hash of its flag, cut down. -/
def tier2Gap (flag : List UInt8) : ℕ :=
  (flag.foldl (fun h b => (h ^^^ b.toUInt32) * 0x01000193) (0x811C9DC5 : UInt32)).toNat %
    (tier2GapMax + 1)

/-- The bytes, cut off or filled with NULs. -/
def resize (bytes : List UInt8) (len : ℕ) : List UInt8 :=
  bytes.take len ++ List.replicate (len - bytes.length) 0

/-- Append the gap and the flag region in server mode; the second component is the start of the
region. -/
def tier2Append (flag : Option (List UInt8)) (bytes : List UInt8) : List UInt8 × Option ℕ :=
  match flag with
  | none => (bytes, none)
  | some flag =>
    let start := bytes.length + tier2Gap flag
    let k := min flag.length tier2FlagLen
    (resize (resize bytes start ++ flag.take k) (start + tier2FlagLen), some start)

/-- Mount with the reader of the mode. -/
def mountActive (flag : Option (List UInt8)) (image : List UInt8) : Exec FsError Fs :=
  if flag.isSome then Fs.mountTier2 image else Fs.mount image

/-! ## Reading a payload -/

/-- What `load` has read: the bytes it stored, and whether there were too many. -/
structure Payload where
  bytes : List UInt8
  overflowed : Bool
  deriving DecidableEq, Repr

namespace Payload

/-- Read one byte other than the sentinel. -/
def add (p : Payload) (b : UInt8) : Payload :=
  if isAsciiWhitespace b then p
  else if p.bytes.length ≥ b64Cap then { p with overflowed := true }
  else { p with bytes := p.bytes ++ [b] }

/-- Read up to the sentinel. -/
def read (p : Payload) : List UInt8 → Exec Unit Payload
  | [] => Exec.fail ()
  | b :: stream => if b = sentinel then pure p else (p.add b).read stream

end Payload

/-! ## The commands -/

/-- What a command prints. -/
inductive Reply where
  | silent
  | help
  | printed (text : List Char)
  | clear
  | memory
  | tasks
  | net
  | usage
  | cannotMount (error : FsError)
  | notADirectory (path : List Char)
  | noSuchDirectory (path : List Char)
  | isADirectory (path : List Char)
  | noSuchFile (path : List Char)
  | listing (entries : List DirEntry)
  | load (outcome : LoadOutcome) (planted : Option ℕ)
  | unknown (verb : List Char)
  deriving DecidableEq, Repr

/-- The state of the shell: the current directory, and the image that was loaded last. -/
structure Shell where
  cwd : List Char
  loaded : Option (List UInt8)
  deriving DecidableEq, Repr

namespace Shell

/-- The shell at its start. -/
def start : Shell := ⟨['/'], none⟩

/-- The image that the commands work on. -/
def activeImage (sh : Shell) : List UInt8 := sh.loaded.getD bootImage

variable (flag : Option (List UInt8)) (lossy : List UInt8 → List Char)

/-- Change the directory; without an argument, to the root. -/
def cmdCd (sh : Shell) (arg : List Char) : Exec Unit (Shell × Reply) :=
  if arg.isEmpty then
    pure ({ sh with cwd := ['/'] }, .silent)
  else do
    let target := canonicalize sh.cwd arg
    match ← (mountActive flag sh.activeImage).attempt with
    | .error e => pure (sh, .cannotMount e)
    | .ok fs =>
      match ← (fs.resolve lossy target).attempt with
      | .ok (.dir _ _) => pure ({ sh with cwd := target }, .silent)
      | .ok (.file _ _) => pure (sh, .notADirectory target)
      | .error _ => pure (sh, .noSuchDirectory target)

/-- List a directory; without an argument, the current one. -/
def cmdLs (sh : Shell) (arg : List Char) : Exec Unit (Shell × Reply) := do
  let target := if arg.isEmpty then sh.cwd else canonicalize sh.cwd arg
  match ← (mountActive flag sh.activeImage).attempt with
  | .error e => pure (sh, .cannotMount e)
  | .ok fs =>
    match ← (fs.listDir lossy target).attempt with
    | .ok entries => pure (sh, .listing entries)
    | .error _ => pure (sh, .noSuchDirectory target)

/-- Print a file. -/
def cmdCat (sh : Shell) (arg : List Char) : Exec Unit (Shell × Reply) :=
  if arg.isEmpty then
    pure (sh, .usage)
  else do
    let target := canonicalize sh.cwd arg
    match ← (mountActive flag sh.activeImage).attempt with
    | .error e => pure (sh, .cannotMount e)
    | .ok fs =>
      match ← (fs.readPath lossy target).attempt with
      | .ok bytes => pure (sh, .printed (lossy bytes))
      | .error .isADirectory => pure (sh, .isADirectory target)
      | .error _ => pure (sh, .noSuchFile target)

/-- Replace the active image by the one pasted over the console. -/
def cmdLoad (sh : Shell) (stream : List UInt8) : Exec Unit (Shell × Reply) := do
  let payload ← Payload.read ⟨[], false⟩ stream
  if payload.overflowed then
    pure (sh, .load .tooLarge none)
  else
    match b64Decode payload.bytes with
    | .error e => pure (sh, .load (.badBase64 e) none)
    | .ok bytes =>
      if bytes.isEmpty then
        pure (sh, .load .emptyImage none)
      else if bytes.length > maxImage then
        pure (sh, .load .tooLarge none)
      else do
        let appended := tier2Append flag bytes
        match ← (mountActive flag appended.1).attempt with
        | .error e => pure (sh, .load (.notValid e) none)
        | .ok _ =>
          pure ({ sh with loaded := some appended.1 },
            .load (.mounted appended.1.length) appended.2)

/-- Run a command line; `stream` is what the console brings while the command runs. -/
def dispatch (sh : Shell) (line : List Char) (stream : List UInt8) : Exec Unit (Shell × Reply) :=
  match parse line with
  | .empty => pure (sh, .silent)
  | .help => pure (sh, .help)
  | .echo rest => pure (sh, .printed rest)
  | .clear => pure (sh, .clear)
  | .mem => pure (sh, .memory)
  | .ps => pure (sh, .tasks)
  | .pwd => pure (sh, .printed sh.cwd)
  | .cd path => sh.cmdCd flag lossy path
  | .ls path => sh.cmdLs flag lossy path
  | .cat path => sh.cmdCat flag lossy path
  | .load => sh.cmdLoad flag stream
  | .net => pure (sh, .net)
  | .unknown verb => pure (sh, .unknown verb)

end Shell

/-- What is typed: a command line, and the bytes that follow while its command runs. -/
structure ShellInput where
  line : List Char
  stream : List UInt8
  deriving DecidableEq, Repr

/-- One command with its reply. -/
def Shell.Steps (flag : Option (List UInt8)) (lossy : List UInt8 → List Char) (sh : Shell)
    (x : ShellInput × Reply) (sh' : Shell) : Prop :=
  sh.dispatch flag lossy x.1.line x.1.stream = .ok (sh', x.2)

end ZiranOS
