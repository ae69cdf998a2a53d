import ZiranOS.Lib.Exec

/-!
# The ZranFS reader

The whole disk is one run of bytes; the reader re-derives the directory tree from it and trusts
nothing else.  `mountInner` is the entire trust boundary: it checks the superblock and validates
the directory tree rooted at the root table (`validateDir`), after which the lookups `resolve`,
`listDir` and `readPath` read the raw bytes again without any check of their own.

The three readers share `mountInner`: `mount` is the strict one, `mountLoose` does not confine
extents to `data_end`, and `mountTier2` in addition believes the declared `total_size`.

Every index, slice and addition of the source is a checked operation of `ProgLib`, so a read
outside the image is a fault of the run.  The decoding of a name (`from_utf8_lossy` of the bytes
before the first NUL) only enters through the comparison of names, and is a parameter `lossy`.
-/

namespace ZiranOS

open ProgLib

/-! ## The on-disk format -/

/-- The signature at offset 0, ASCII `ZRFS`. -/
def magic : List UInt8 := [0x5A, 0x52, 0x46, 0x53]
/-- The only on-disk format version this reader understands. -/
def version : ℕ := 3
/-- Superblock size in bytes; the root table starts right after it. -/
def superblockLen : ℕ := 16
/-- Superblock field: the exclusive end of the addressable data region. -/
def sbDataEnd : ℕ := 0x0C
/-- Directory-entry size in bytes. -/
def direntLen : ℕ := 32
/-- Filename field width within a directory entry. -/
def nameLen : ℕ := 20
/-- Entry field: byte offset of the node's region. -/
def entOffset : ℕ := 0x14
/-- Entry field: region length in bytes. -/
def entLength : ℕ := 0x18
/-- Entry field: `0` for a file, `1` for a directory. -/
def entKind : ℕ := 0x1C
/-- An entry that names a plain file. -/
def kindFile : ℕ := 0
/-- An entry that names a subdirectory. -/
def kindDir : ℕ := 1
/-- Deepest directory nesting `validateDir` follows. -/
def maxDepth : ℕ := 32

/-- Why an image failed to mount, or a path to resolve. -/
inductive FsError where
  | badMagic
  | unsupportedVersion
  | truncated
  | sizeMismatch
  | entryOutOfBounds
  | extentEscapesData
  | badDataEnd
  | badDirLength
  | dirNotForward
  | badKind
  | tooDeep
  | notFound
  | notADirectory
  | isADirectory
  deriving DecidableEq, Repr

/-- What a path resolves to: a file's byte region, or a directory's entry region. -/
inductive Node where
  | file (offset length : ℕ)
  | dir (offset length : ℕ)
  deriving DecidableEq, Repr

/-- One directory entry, as `ls` renders it. -/
structure DirEntry where
  name : List Char
  offset : ℕ
  length : ℕ
  isDir : Bool
  deriving DecidableEq, Repr

/-- A mounted image. -/
structure Fs where
  image : List UInt8
  fileCount : ℕ
  deriving DecidableEq, Repr

/-! ## Reading fields -/

section Fields

variable {ε : Type}

/-- Read a little-endian `u16` at `off`. -/
def readU16Le (buf : List UInt8) (off : ℕ) : Exec ε ℕ := do
  let b0 ← getByte buf off
  let b1 ← getByte buf (← addUsize off 1)
  pure (b0.toNat + 256 * b1.toNat)

/-- Read a little-endian `u32` at `off`. -/
def readU32Le (buf : List UInt8) (off : ℕ) : Exec ε ℕ := do
  let b0 ← getByte buf off
  let b1 ← getByte buf (← addUsize off 1)
  let b2 ← getByte buf (← addUsize off 2)
  let b3 ← getByte buf (← addUsize off 3)
  pure (b0.toNat + 2 ^ 8 * b1.toNat + 2 ^ 16 * b2.toNat + 2 ^ 24 * b3.toNat)

/-- The bytes of a name field up to its first NUL, the whole field if it has none. -/
def entryNameBytes (raw : List UInt8) : List UInt8 := raw.take (raw.findIdx (· == 0))

/-- Decode a fixed-width, NUL-padded name field. -/
def entryName (lossy : List UInt8 → List Char) (raw : List UInt8) : List Char :=
  lossy (entryNameBytes raw)

end Fields

/-! ## Validating the directory tree -/

/-- One iteration of the loop of `validate_dir`, on the entry at `base`: its extent is checked
and a subdirectory is handed to `recurse`.  The value threaded through is the high-water mark. -/
def validateEntry (recurse : ℕ → ℕ → ℕ → Exec FsError ℕ) (image : List UInt8)
    (extentCeiling base highWater : ℕ) : Exec FsError ℕ := do
  let cOff ← readU32Le image (← addUsize base entOffset)
  let cLen ← readU32Le image (← addUsize base entLength)
  let cEnd ← checkedAdd cOff cLen .entryOutOfBounds
  if cEnd > image.length then
    Exec.fail .entryOutOfBounds
  else if cEnd > extentCeiling then
    Exec.fail .extentEscapesData
  else do
    let kind ← readU32Le image (← addUsize base entKind)
    if kind = kindFile then
      pure highWater
    else if kind = kindDir then
      recurse cOff cLen highWater
    else
      Exec.fail .badKind

/-- Validate the directory region `[off, off + len)` and everything below it, and return the new
high-water mark.  `frames` is the number of stack frames the recursion may still use. -/
def validateDir (image : List UInt8) (extentCeiling : ℕ) :
    (frames off len highWater depth : ℕ) → Exec FsError ℕ
  | 0, _, _, _, _ => Exec.panic .stackOverflow
  | frames + 1, off, len, highWater, depth =>
    if depth > maxDepth then
      Exec.fail .tooDeep
    else if off < highWater then
      Exec.fail .dirNotForward
    else if len % direntLen ≠ 0 then
      Exec.fail .badDirLength
    else do
      let dirEnd ← checkedAdd off len .entryOutOfBounds
      if dirEnd > image.length then
        Exec.fail .entryOutOfBounds
      else
        (List.range (len / direntLen)).foldlM
          (fun hw i => do
            let base ← addUsize off (← mulUsize i direntLen)
            validateEntry (fun o l h => validateDir image extentCeiling frames o l h (depth + 1))
              image extentCeiling base hw)
          (max highWater dirEnd)

/-- Stack frames that are enough for every run of `validateDir` from depth `0`: one for each depth
that is followed and one for the call that returns `tooDeep`. -/
def validateFrames : ℕ := maxDepth + 2

/-! ## Mounting -/

/-- The superblock checks of the shared parse, in order.  The result is the extent ceiling, the
number of root entries and the size of the root table in bytes.  `confine` picks the ceiling,
`trustDeclaredSize` relaxes the comparison of `total_size` with the length of the image. -/
def parseSuperblock (image : List UInt8) (confine trustDeclaredSize : Bool) :
    Exec FsError (ℕ × ℕ × ℕ) := do
  if image.length < superblockLen then
    Exec.fail .truncated
  else if (← slice image 0 4) ≠ magic then
    Exec.fail .badMagic
  else if (← readU16Le image 0x04) ≠ version then
    Exec.fail .unsupportedVersion
  else
    let declared ← readU32Le image 0x08
    if (if trustDeclaredSize then declared > image.length else declared ≠ image.length) then
      Exec.fail .sizeMismatch
    else
      let dataEnd ← readU32Le image sbDataEnd
      if dataEnd < superblockLen ∨ dataEnd > image.length then
        Exec.fail .badDataEnd
      else
        let fileCount ← readU16Le image 0x06
        let dirBytes ← checkedMul fileCount direntLen .truncated
        let dirEnd ← checkedAdd superblockLen dirBytes .truncated
        if dirEnd > image.length then
          Exec.fail .truncated
        else
          pure (if confine then dataEnd else image.length, fileCount, dirBytes)

/-- Shared parse of the three readers: the superblock, then the directory tree rooted at the root
table, with the high-water mark starting at the end of the superblock. -/
def mountInner (image : List UInt8) (confine trustDeclaredSize : Bool) : Exec FsError Fs := do
  let (ceiling, fileCount, dirBytes) ← parseSuperblock image confine trustDeclaredSize
  let _ ← validateDir image ceiling validateFrames superblockLen dirBytes superblockLen 0
  pure ⟨image, fileCount⟩

namespace Fs

/-- The strict reader: every extent is confined to the declared data region. -/
def mount (image : List UInt8) : Exec FsError Fs := mountInner image true false

/-- The deliberately loose reader: extents are bounded by the image length only. -/
def mountLoose (image : List UInt8) : Exec FsError Fs := mountInner image false false

/-- The length-trusting reader: loose, and the declared size may be smaller than the image. -/
def mountTier2 (image : List UInt8) : Exec FsError Fs := mountInner image false true

end Fs

/-- The three readers. -/
inductive Reader where
  | mount
  | mountLoose
  | mountTier2
  deriving DecidableEq, Repr

namespace Reader

/-- Whether the reader confines extents to `data_end`. -/
def confine : Reader → Bool
  | mount => true
  | mountLoose | mountTier2 => false

/-- Whether the reader believes the declared size. -/
def trustDeclaredSize : Reader → Bool
  | mountTier2 => true
  | mount | mountLoose => false

/-- Mount an image with the reader. -/
def run : Reader → List UInt8 → Exec FsError Fs
  | mount => Fs.mount
  | mountLoose => Fs.mountLoose
  | mountTier2 => Fs.mountTier2

end Reader

namespace Fs

/-! ## Lookups in a mounted image -/

variable (lossy : List UInt8 → List Char)

/-- The name of the entry at `base`. -/
def nameAtBase (image : List UInt8) (base : ℕ) : Exec FsError (List Char) := do
  let field ← slice image base (← addUsize base nameLen)
  pure (entryName lossy field)

/-- The first of the entries `is` of the directory at `doff` that is named `name`. -/
def findChildIn (image : List UInt8) (doff : ℕ) (name : List Char) :
    List ℕ → Exec FsError (Option Node)
  | [] => pure none
  | i :: is => do
    let base ← addUsize doff (← mulUsize i direntLen)
    if (← nameAtBase lossy image base) = name then
      let offset ← readU32Le image (← addUsize base entOffset)
      let length ← readU32Le image (← addUsize base entLength)
      let kind ← readU32Le image (← addUsize base entKind)
      pure (some (if kind = kindDir then .dir offset length else .file offset length))
    else
      findChildIn image doff name is

/-- Find a named entry within the directory region `[doff, doff + dlen)`. -/
def findChild (fs : Fs) (doff dlen : ℕ) (name : List Char) : Exec FsError (Option Node) :=
  findChildIn lossy fs.image doff name (List.range (dlen / direntLen))

/-- Descend from `node` along the path components `comps`. -/
def resolveFrom (fs : Fs) : Node → List (List Char) → Exec FsError Node
  | node, [] => pure node
  | node, comp :: comps =>
    -- a leading '/', or a stray '//'
    if comp.isEmpty then
      resolveFrom fs node comps
    else
      match node with
      | .file _ _ => Exec.fail .notADirectory
      | .dir doff dlen => do
        match ← findChild lossy fs doff dlen comp with
        | none => Exec.fail .notFound
        | some child => resolveFrom fs child comps

/-- Resolve an absolute path to the node it names. -/
def resolve (fs : Fs) (abs : List Char) : Exec FsError Node := do
  let length ← mulUsize fs.fileCount direntLen
  resolveFrom lossy fs (.dir superblockLen length) (abs.splitOn '/')

/-- The entry at index `i` of the directory table at `off`. -/
def readDirEntry (image : List UInt8) (off i : ℕ) : Exec FsError DirEntry := do
  let base ← addUsize off (← mulUsize i direntLen)
  let name ← nameAtBase lossy image base
  let offset ← readU32Le image (← addUsize base entOffset)
  let length ← readU32Le image (← addUsize base entLength)
  let kind ← readU32Le image (← addUsize base entKind)
  pure ⟨name, offset, length, kind == kindDir⟩

/-- List the directory at `abs`: name, extent and kind of each entry. -/
def listDir (fs : Fs) (abs : List Char) : Exec FsError (List DirEntry) := do
  match ← resolve lossy fs abs with
  | .file _ _ => Exec.fail .notADirectory
  | .dir off len => (List.range (len / direntLen)).mapM (readDirEntry lossy fs.image off)

/-- Read the file at `abs`: a slice of the image. -/
def readPath (fs : Fs) (abs : List Char) : Exec FsError (List UInt8) := do
  match ← resolve lossy fs abs with
  | .file offset length => slice fs.image offset (← addUsize offset length)
  | .dir _ _ => Exec.fail .isADirectory

end Fs

end ZiranOS
