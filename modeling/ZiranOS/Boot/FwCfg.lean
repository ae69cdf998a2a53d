import ZiranOS.Lib.Stream
import ZiranOS.Lib.Text

/-!
# The firmware configuration device

The boot code asks the firmware configuration device for the flag of the server mode.  A word
written to the selector port picks an item, and reads of the data port then hand out its bytes.
`readFile` walks the file directory, which is an item of its own, to the first file with a given
name and reads its bytes.

A device is any state with its answers to port accesses.  `Serves` says that it hands out a
directory of files and their bytes; `readFile_spec` is what is found on such a device, and that on
every device the reads are bounded.
-/

namespace ZiranOS

open ProgLib

/-- The port an item is picked at. -/
def selectorPort : ℕ := 0x510
/-- The port the bytes of the item are read at. -/
def dataPort : ℕ := 0x511
/-- The selector of the file directory. -/
def fileDir : ℕ := 0x0019
/-- The width of the name field of a directory entry. -/
def dirNameLen : ℕ := 56
/-- The largest number of directory entries that are walked. -/
def maxEntries : ℕ := 4096
/-- The largest number of bytes that are read of an item. -/
def maxItemBytes : ℕ := 64 * 1024

/-- A device behind ports: what a word written to a port and a byte read from a port do. -/
structure PortDevice (σ : Type) where
  outw : ℕ → ℕ → σ → σ
  inb : ℕ → StateM σ UInt8

namespace PortDevice

variable {σ : Type} (dev : PortDevice σ)

/-! ## The reader -/

/-- Pick an item. -/
def select (sel : ℕ) : StateM σ Unit := modify (dev.outw selectorPort sel)

/-- Read one byte of the item. -/
def dataByte : StateM σ UInt8 := dev.inb dataPort

/-- Read `n` bytes of the item. -/
def dataBytes (n : ℕ) : StateM σ (List UInt8) := draw dev.dataByte n

/-- Read a 32-bit number, the highest byte first. -/
def beU32 : StateM σ ℕ := do
  let b₀ ← dev.dataByte
  let b₁ ← dev.dataByte
  let b₂ ← dev.dataByte
  let b₃ ← dev.dataByte
  pure (fromBeBytes [b₀, b₁, b₂, b₃])

/-- Read a 16-bit number, the highest byte first. -/
def beU16 : StateM σ ℕ := do
  let b₀ ← dev.dataByte
  let b₁ ← dev.dataByte
  pure (fromBeBytes [b₀, b₁])

/-- The bytes of a name field before its first NUL. -/
def entryBytes (raw : List UInt8) : List UInt8 :=
  match raw.findIdx? (· == 0) with
  | some z => raw.take z
  | none => raw

/-- Walk the next `count` entries of the directory. -/
def findFile (name : List UInt8) : ℕ → StateM σ (Option (List UInt8))
  | 0 => pure none
  | count + 1 => do
    let size := min (← dev.beU32) maxItemBytes
    let sel ← dev.beU16
    let _reserved ← dev.beU16
    let raw ← dev.dataBytes dirNameLen
    if entryBytes raw = name then
      dev.select sel
      let bytes ← dev.dataBytes size
      pure (some bytes)
    else
      findFile name count

/-- The bytes of the file with the given name. -/
def readFile (name : List Char) : StateM σ (Option (List UInt8)) := do
  dev.select fileDir
  let count := min (← dev.beU32) maxEntries
  dev.findFile (Text.encode name) count

/-- The flag of the server mode. -/
def readFlag : StateM σ (Option (List UInt8)) := dev.readFile "opt/flag".toList

variable {dev}

/-! ## The walk through the directory -/

/-- A 32-bit number is four bytes of the item. -/
lemma beU32_eq (s : σ) : dev.beU32 s =
    (fromBeBytes (draw dev.dataByte 4 s).1, (draw dev.dataByte 4 s).2) := rfl

/-- A 16-bit number is two bytes of the item. -/
lemma beU16_eq (s : σ) : dev.beU16 s =
    (fromBeBytes (draw dev.dataByte 2 s).1, (draw dev.dataByte 2 s).2) := rfl

/-- The walk over one entry, with the states after its size, its selector, its reserved field and
its name. -/
lemma findFile_succ (name : List UInt8) (count : ℕ) {s s₁ s₂ s₃ s₄ : σ}
    (h₁ : (draw dev.dataByte 4 s).2 = s₁) (h₂ : (draw dev.dataByte 2 s₁).2 = s₂)
    (h₃ : (draw dev.dataByte 2 s₂).2 = s₃) (h₄ : (draw dev.dataByte dirNameLen s₃).2 = s₄) :
    dev.findFile name (count + 1) s =
      if entryBytes (draw dev.dataByte dirNameLen s₃).1 = name then
        let bytes := draw dev.dataByte (min (fromBeBytes (draw dev.dataByte 4 s).1) maxItemBytes)
          (dev.outw selectorPort (fromBeBytes (draw dev.dataByte 2 s₁).1) s₄)
        (some bytes.1, bytes.2)
      else dev.findFile name count s₄ := by
  rw [findFile]
  simp only [stateM_bind, beU32_eq, beU16_eq, dataBytes, h₁, h₂, h₃, h₄]
  split_ifs
  · rfl
  · rfl

end PortDevice

/-! ## Devices with a directory of files -/

/-- A file of the device: its entry of the directory, and its bytes. -/
structure FwCfgFile where
  select : ℕ
  reserved : ℕ
  name : List UInt8
  payload : List UInt8
  /-- The selector fits its field. -/
  select_lt : select < 2 ^ 16
  /-- The size fits its field. -/
  payload_lt : payload.length < 2 ^ 32
  /-- The name fits its field. -/
  name_le : name.length ≤ dirNameLen
  /-- The name ends at its first NUL. -/
  no_nul : 0 ∉ name

namespace FwCfgFile

/-- The size of the file. -/
def size (f : FwCfgFile) : ℕ := f.payload.length

/-- The name field, filled with NULs. -/
def nameField (f : FwCfgFile) : List UInt8 :=
  f.name ++ List.replicate (dirNameLen - f.name.length) 0

/-- The directory entry of the file. -/
def entry (f : FwCfgFile) : List UInt8 :=
  toBeBytes 4 f.size ++ toBeBytes 2 f.select ++ toBeBytes 2 f.reserved ++ f.nameField

/-- The name field has its fixed width. -/
@[simp] lemma length_nameField (f : FwCfgFile) : f.nameField.length = dirNameLen := by
  rw [nameField, List.length_append, List.length_replicate]
  have := f.name_le
  omega

/-- The name is what stands before the first NUL of its field. -/
lemma entryBytes_nameField (f : FwCfgFile) : PortDevice.entryBytes f.nameField = f.name := by
  have hnone : f.name.findIdx? (· == 0) = none := by
    rw [List.findIdx?_eq_none_iff]
    intro b hb
    exact beq_false_of_ne fun h => f.no_nul (h ▸ hb)
  rw [PortDevice.entryBytes, nameField, List.findIdx?_append, hnone]
  cases hpad : dirNameLen - f.name.length with
  | zero => simp
  | succ k => simp [List.replicate_succ, List.findIdx?_cons]

end FwCfgFile

/-- The bytes of the file directory. -/
def directory (files : List FwCfgFile) : List UInt8 :=
  toBeBytes 4 files.length ++ files.flatMap FwCfgFile.entry

/-- The device hands out the directory of the files and the bytes of each of them, whatever was read
before. -/
structure PortDevice.Serves {σ : Type} (dev : PortDevice σ) (files : List FwCfgFile) : Prop where
  /-- There are not too many files. -/
  length_le : files.length ≤ maxEntries
  /-- The file directory. -/
  directory : ∀ s, Yields dev.dataByte (dev.outw selectorPort fileDir s) (directory files)
  /-- The files. -/
  payload : ∀ f ∈ files, ∀ s, Yields dev.dataByte (dev.outw selectorPort f.select s) f.payload

namespace PortDevice

variable {σ : Type} {dev : PortDevice σ}

/-- The walk over the entry of a file. -/
lemma findFile_entry {f : FwCfgFile} {rest : List UInt8} {s : σ}
    (h : Yields dev.dataByte s (f.entry ++ rest)) (name : List UInt8) (count : ℕ) :
    ∃ s', Yields dev.dataByte s' rest ∧ dev.findFile name (count + 1) s =
      if f.name = name then
        let bytes := draw dev.dataByte (min f.size maxItemBytes)
          (dev.outw selectorPort f.select s')
        (some bytes.1, bytes.2)
      else dev.findFile name count s' := by
  simp only [FwCfgFile.entry, List.append_assoc, yields_append, length_toBeBytes,
    FwCfgFile.length_nameField] at h
  obtain ⟨hsize, hselect, hreserved, hname, hrest⟩ := h
  rw [Yields, length_toBeBytes] at hsize hselect
  rw [Yields, FwCfgFile.length_nameField] at hname
  refine ⟨_, hrest, ?_⟩
  rw [findFile_succ name count rfl rfl rfl rfl, hsize, hselect, hname, f.entryBytes_nameField,
    fromBeBytes_toBeBytes f.payload_lt, fromBeBytes_toBeBytes f.select_lt]

/-- **The walk** finds the first file with the name. -/
lemma findFile_eq (name : List UInt8) : ∀ (files : List FwCfgFile) (s : σ),
    Yields dev.dataByte s (files.flatMap FwCfgFile.entry) →
    (∀ f ∈ files, ∀ s, Yields dev.dataByte (dev.outw selectorPort f.select s) f.payload) →
    (dev.findFile name files.length s).1 =
      (files.find? fun f => f.name = name).map fun f => f.payload.take (min f.size maxItemBytes)
  | [], _, _, _ => rfl
  | f :: files, s, hdir, hpayload => by
    rw [List.flatMap_cons] at hdir
    obtain ⟨s', hrest, hwalk⟩ := findFile_entry hdir name files.length
    rw [List.length_cons, hwalk]
    by_cases hname : f.name = name
    · rw [if_pos hname, List.find?_cons_of_pos (by simpa using hname), Option.map_some]
      exact congrArg some ((hpayload f List.mem_cons_self s').take (Nat.min_le_left _ _))
    · rw [if_neg hname, List.find?_cons_of_neg (by simpa using hname)]
      exact findFile_eq name files s' hrest fun g hg => hpayload g (List.mem_cons_of_mem f hg)

/-! ## The number of reads -/

/-- The same device with a counter of the bytes that were read. -/
def counting (dev : PortDevice σ) : PortDevice (σ × ℕ) where
  outw port value s := (dev.outw port value s.1, s.2)
  inb port := counted (dev.inb port)

/-- Taking bytes from the counting device. -/
lemma draw_counting (n k : ℕ) (s : σ) : draw dev.counting.dataByte n (s, k) =
    ((draw dev.dataByte n s).1, ((draw dev.dataByte n s).2, k + n)) := draw_counted n k s

/-- Picking an item is not counted. -/
lemma outw_counting (port value k : ℕ) (s : σ) :
    dev.counting.outw port value (s, k) = (dev.outw port value s, k) := rfl

/-- The walk on the counting device: the same result, and at most 64 reads for each entry and those
of one item. -/
lemma findFile_counting (dev : PortDevice σ) (name : List UInt8) : ∀ (count : ℕ) (s : σ) (k : ℕ),
    ∃ k' ≤ k + 64 * count + maxItemBytes, dev.counting.findFile name count (s, k) =
      ((dev.findFile name count s).1, ((dev.findFile name count s).2, k'))
  | 0, s, k => ⟨k, by omega, rfl⟩
  | count + 1, s, k => by
    rw [findFile_succ name count rfl rfl rfl rfl, findFile_succ name count rfl rfl rfl rfl]
    simp only [draw_counting]
    by_cases hname : entryBytes (draw dev.dataByte dirNameLen (draw dev.dataByte 2
        (draw dev.dataByte 2 (draw dev.dataByte 4 s).2).2).2).1 = name
    · simp only [if_pos hname, outw_counting, draw_counting]
      refine ⟨_, ?_, rfl⟩
      simp only [dirNameLen]
      omega
    · simp only [if_neg hname]
      obtain ⟨k', hk', hwalk⟩ := findFile_counting dev name count _ _
      refine ⟨k', ?_, hwalk⟩
      simp only [dirNameLen] at hk'
      omega

/-- Reading a file: the number of entries, and the walk over them. -/
lemma readFile_eq (name : List Char) (s : σ) : dev.readFile name s =
    dev.findFile (Text.encode name)
      (min (fromBeBytes (draw dev.dataByte 4 (dev.outw selectorPort fileDir s)).1) maxEntries)
      (draw dev.dataByte 4 (dev.outw selectorPort fileDir s)).2 := rfl

/-- Reading a file from the counting device. -/
lemma readFile_counting (dev : PortDevice σ) (name : List Char) (s : σ) :
    ∃ k ≤ 4 + 64 * maxEntries + maxItemBytes, dev.counting.readFile name (s, 0) =
      ((dev.readFile name s).1, ((dev.readFile name s).2, k)) := by
  obtain ⟨k, hk, hwalk⟩ := findFile_counting dev (Text.encode name)
    (min (fromBeBytes (draw dev.dataByte 4 (dev.outw selectorPort fileDir s)).1) maxEntries)
    (draw dev.dataByte 4 (dev.outw selectorPort fileDir s)).2 4
  refine ⟨k, by omega, ?_⟩
  rw [readFile_eq, readFile_eq, outw_counting, draw_counting, Nat.zero_add]
  exact hwalk

/-- **What is read from the device.**  On a device that serves files, `readFile` returns the first
`min size 65536` bytes of the first file with the name, and nothing if there is none.  On every
device it ends after at most `4 + 64 * 4096 + 65536` reads. -/
theorem readFile_spec (dev : PortDevice σ) (name : List Char) (s : σ) :
    (∀ files, dev.Serves files → (dev.readFile name s).1 =
      (files.find? fun f => f.name = Text.encode name).map fun f =>
        f.payload.take (min f.size 65536)) ∧
    (dev.counting.readFile name (s, 0)).1 = (dev.readFile name s).1 ∧
    (dev.counting.readFile name (s, 0)).2.1 = (dev.readFile name s).2 ∧
    (dev.counting.readFile name (s, 0)).2.2 ≤ 4 + 64 * 4096 + 65536 := by
  constructor
  · intro files hserves
    have hdir := hserves.directory s
    rw [directory, yields_append, length_toBeBytes] at hdir
    obtain ⟨hcount, hentries⟩ := hdir
    rw [Yields, length_toBeBytes] at hcount
    have hle := hserves.length_le
    have hfits : files.length < 256 ^ 4 := lt_of_le_of_lt hle (by decide)
    rw [readFile_eq, hcount, fromBeBytes_toBeBytes hfits, Nat.min_eq_left hle]
    exact findFile_eq _ files _ hentries hserves.payload
  · obtain ⟨k, hk, hread⟩ := readFile_counting dev name s
    rw [hread]
    exact ⟨rfl, rfl, hk⟩

/-- A device that keeps its items by selector; its state is the item that is picked and the place in
it.  Behind the end of an item there are zeros. -/
def ofItems (items : ℕ → List UInt8) : PortDevice (ℕ × ℕ) where
  outw port value s := if port = selectorPort then (value, 0) else s
  inb port s :=
    if port = dataPort then ((items s.1).getD s.2 0, (s.1, s.2 + 1)) else (0, s)

/-- A name of the loader, and the flag of a session. -/
def sampleFiles : List FwCfgFile :=
  [⟨0x21, 0, Text.utf8 "bootorder", [0x61, 0], by decide, by decide, by decide, by decide⟩,
    ⟨0x20, 0, Text.utf8 "opt/flag", Text.utf8 "FLAG", by decide, by decide, by decide, by decide⟩]

/-- The items of a device with these files. -/
def sampleItems (sel : ℕ) : List UInt8 :=
  if sel = fileDir then directory sampleFiles
  else if sel = 0x21 then [0x61, 0]
  else if sel = 0x20 then Text.utf8 "FLAG"
  else []

/-- The device serves its files. -/
lemma serves_sampleFiles : (ofItems sampleItems).Serves sampleFiles where
  length_le := by decide
  directory s := by
    have hdir : Yields (ofItems sampleItems).dataByte (fileDir, 0)
        (ZiranOS.directory sampleFiles) := by
      decide +kernel
    exact hdir
  payload f hf s := by
    have hpayload : ∀ f ∈ sampleFiles,
        Yields (ofItems sampleItems).dataByte (f.select, 0) f.payload := by
      decide +kernel
    exact hpayload f hf

/-- The flag is read from the device. -/
theorem readFile_spec_sampleFiles :
    ((ofItems sampleItems).readFlag (0, 0)).1 = some (Text.utf8 "FLAG") := by
  have h := (readFile_spec (ofItems sampleItems) "opt/flag".toList (0, 0)).1 _ serves_sampleFiles
  exact h.trans (by decide +kernel)

end PortDevice

end ZiranOS
