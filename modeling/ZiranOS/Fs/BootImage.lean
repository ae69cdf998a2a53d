import ZiranOS.Lib.Text
import ZiranOS.Fs.Validate

/-!
# The boot disk

`bootImage` lays down the built-in disk: the superblock, the table of the root with three files and
the directory `docs`, the table of `docs` with two files, the bytes of the files, and behind the end
of the data a secret that no entry names.  The strict reader mounts it (`isOk_mount_bootImage`).
-/

namespace ZiranOS

open ProgLib

/-- The bytes of a number, the lowest first. -/
def toLeBytes (len n : ℕ) : List UInt8 := (List.range len).map fun i => UInt8.ofNat (n / 256 ^ i)

/-- Append a directory entry; the name is cut off or filled with NULs. -/
def writeEntry (img name : List UInt8) (offset length kind : ℕ) : List UInt8 :=
  let take := min name.length nameLen
  img ++ (name.take take ++ List.replicate (nameLen - take) 0) ++ toLeBytes 4 offset ++
    toLeBytes 4 length ++ toLeBytes 4 kind

/-- Append the entries of files whose bytes follow each other from `cursor` on; the result is the
image and the end of the bytes. -/
def writeFiles (img : List UInt8) (cursor : ℕ) (files : List (List UInt8 × List UInt8)) :
    List UInt8 × ℕ :=
  files.foldl (fun s file =>
    (writeEntry s.1 file.1 s.2 file.2.length kindFile, s.2 + file.2.length)) (img, cursor)

/-- The files of the root, by name and bytes. -/
def rootFiles : List (List UInt8 × List UInt8) :=
  [(Text.utf8 "motd.txt", Text.utf8 "Hello, Ziran!"),
    (Text.utf8 "readme", Text.utf8 "Ziran OS -- a from-scratch x86_64 kernel.\n"),
    (Text.utf8 "ziran.txt",
      Text.utf8 "\u81ea\u7136 (ziran): that which arises without external forcing.\n")]

/-- The files of `docs`. -/
def docsFiles : List (List UInt8 × List UInt8) :=
  [(Text.utf8 "filesystem.txt", Text.utf8 "A file is a lie a header tells about bytes.\n"),
    (Text.utf8 "shell.txt", Text.utf8 "cd, pwd, ls, cat -- navigation over ZranFS v3.\n")]

/-- The bytes that no entry names. -/
def secret : List UInt8 := Text.utf8 "FLAG\x7bziran-boundary-leak\x7d"

/-- The built-in disk. -/
def bootImage : List UInt8 :=
  let rootCount := rootFiles.length + 1
  let docsCount := docsFiles.length
  let rootTableOff := superblockLen
  let docsTableOff := rootTableOff + rootCount * direntLen
  let dataOff := docsTableOff + docsCount * direntLen
  let dataTotal := (rootFiles.map fun file => file.2.length).sum +
    (docsFiles.map fun file => file.2.length).sum
  let dataEnd := dataOff + dataTotal
  let total := dataEnd + secret.length
  let superblock := magic ++ toLeBytes 2 version ++ toLeBytes 2 rootCount ++ toLeBytes 4 total ++
    toLeBytes 4 dataEnd
  let root := writeFiles superblock dataOff rootFiles
  let docsEntry := writeEntry root.1 (Text.utf8 "docs") docsTableOff (docsCount * direntLen) kindDir
  let docs := writeFiles docsEntry root.2 docsFiles
  docs.1 ++ (rootFiles.flatMap Prod.snd ++ docsFiles.flatMap Prod.snd) ++ secret

/-- **The boot disk mounts.** -/
lemma isOk_mount_bootImage : (Fs.mount bootImage).IsOk := by
  decide +kernel

end ZiranOS
