import ZiranOS.Console.Vga

/-!
# The accesses of the console

The text buffer is mapped memory, so a cell outside of it belongs to somebody else.  A
`TracedWriter` is the writer together with the offsets of the bytes it has read and written; its
operations are those of `Writer` with their accesses recorded.

The cursor may rest at column 80, one past the last cell of its row, but no operation accesses a
cell there: `accesses_in_buffer` says that every access of every sequence of calls stays within the
4000 bytes of the buffer.
-/

namespace ZiranOS

open ProgLib

/-- An access to a byte of the buffer. -/
inductive VgaAccess where
  | read (offset : ℕ)
  | write (offset : ℕ)
  deriving DecidableEq, Repr

/-- The offset of the byte. -/
def VgaAccess.offset : VgaAccess → ℕ
  | read offset | write offset => offset

/-- The calls of the console. -/
inductive ConsoleCall where
  | writeStr (s : List UInt8)
  | clear
  deriving DecidableEq, Repr

/-- The effect of a call. -/
def Writer.call (w : Writer) : ConsoleCall → Writer
  | .writeStr s => w.writeStr s
  | .clear => w.clear

/-- A writer with the accesses that it has made. -/
structure TracedWriter extends Writer where
  /-- The accesses, oldest first. -/
  accesses : List VgaAccess

namespace TracedWriter

/-! ## The operations -/

/-- Write a cell, character and attribute. -/
def putCell (w : TracedWriter) (row col : ℕ) (byte attrib : UInt8) : TracedWriter :=
  let offset := (row * bufferWidth + col) * 2
  ⟨w.toWriter.putCell row col byte attrib, w.accesses ++ [.write offset, .write (offset + 1)]⟩

/-- Fill a row with spaces. -/
def blankRow (w : TracedWriter) (row : ℕ) : TracedWriter :=
  (List.range bufferWidth).foldl (fun w col => w.putCell row col 0x20 w.attr) w

/-- Copy a cell to the row above it. -/
def copyCell (w : TracedWriter) (row col : ℕ) : TracedWriter :=
  let src := (row * bufferWidth + col) * 2
  let dst := ((row - 1) * bufferWidth + col) * 2
  ⟨w.toWriter.copyCell row col,
    w.accesses ++ [.read src, .read (src + 1), .write dst, .write (dst + 1)]⟩

/-- Copy the cells of a row to the row above it. -/
def copyRow (w : TracedWriter) (row : ℕ) : TracedWriter :=
  (List.range bufferWidth).foldl (fun w col => w.copyCell row col) w

/-- Copy every row to the row above it. -/
def copyRows (w : TracedWriter) : TracedWriter :=
  (List.range' 1 (bufferHeight - 1)).foldl copyRow w

/-- Move every row up by one and blank the bottom row. -/
def scrollUp (w : TracedWriter) : TracedWriter :=
  { w.copyRows.blankRow (bufferHeight - 1) with row := bufferHeight - 1 }

/-- Go to the start of the next row. -/
def newLine (w : TracedWriter) : TracedWriter :=
  if w.row + 1 < bufferHeight then { w with col := 0, row := w.row + 1 }
  else scrollUp { w with col := 0 }

/-- The cursor one cell back. -/
def stepBack (w : TracedWriter) : TracedWriter := { w with toWriter := w.toWriter.stepBack }

/-- Move the cursor back one cell and blank it. -/
def backspace (w : TracedWriter) : TracedWriter :=
  w.stepBack.putCell w.stepBack.row w.stepBack.col 0x20 w.stepBack.attr

/-- Write a character in the cell of the cursor. -/
def writeChar (w : TracedWriter) (byte : UInt8) : TracedWriter :=
  let w := if w.col ≥ bufferWidth then w.newLine else w
  { w.putCell w.row w.col byte w.attr with col := w.col + 1 }

/-- Write a byte, which may be a line feed or a backspace. -/
def writeByte (w : TracedWriter) (byte : UInt8) : TracedWriter :=
  if byte = 0x0A then w.newLine
  else if byte = 0x08 then w.backspace
  else w.writeChar byte

/-- Write the bytes of a string. -/
def writeStr (w : TracedWriter) (s : List UInt8) : TracedWriter :=
  s.foldl (fun w byte => w.writeByte (Writer.glyph byte)) w

/-- Blank every row and move the cursor to the top-left cell. -/
def clear (w : TracedWriter) : TracedWriter :=
  { (List.range bufferHeight).foldl blankRow w with col := 0, row := 0 }

/-- The effect of a call. -/
def call (w : TracedWriter) : ConsoleCall → TracedWriter
  | .writeStr s => w.writeStr s
  | .clear => w.clear

/-- The writer at boot, before any access. -/
def init (vga : ℕ → UInt8) : TracedWriter := ⟨.init vga, []⟩

/-! ## The writer underneath -/

@[simp] lemma toWriter_blankRow (w : TracedWriter) (row : ℕ) :
    (w.blankRow row).toWriter = w.toWriter.blankRow row :=
  (List.foldl_hom toWriter fun _ _ => rfl).symm

@[simp] lemma toWriter_copyRow (w : TracedWriter) (row : ℕ) :
    (w.copyRow row).toWriter = w.toWriter.copyRow row :=
  (List.foldl_hom toWriter fun _ _ => rfl).symm

@[simp] lemma toWriter_copyRows (w : TracedWriter) : w.copyRows.toWriter = w.toWriter.copyRows :=
  (List.foldl_hom toWriter fun w row => (w.toWriter_copyRow row).symm).symm

@[simp] lemma toWriter_scrollUp (w : TracedWriter) : w.scrollUp.toWriter = w.toWriter.scrollUp := by
  simp [scrollUp, Writer.scrollUp]

@[simp] lemma toWriter_newLine (w : TracedWriter) : w.newLine.toWriter = w.toWriter.newLine := by
  unfold newLine Writer.newLine
  split_ifs
  · rfl
  · exact toWriter_scrollUp _

@[simp] lemma toWriter_writeChar (w : TracedWriter) (byte : UInt8) :
    (w.writeChar byte).toWriter = w.toWriter.writeChar byte := by
  unfold writeChar Writer.writeChar
  split_ifs
  · simp [putCell]
  · rfl

@[simp] lemma toWriter_writeByte (w : TracedWriter) (byte : UInt8) :
    (w.writeByte byte).toWriter = w.toWriter.writeByte byte := by
  unfold writeByte Writer.writeByte
  split_ifs
  · exact w.toWriter_newLine
  · rfl
  · exact w.toWriter_writeChar byte

/-- **Recording the accesses changes nothing else.** -/
lemma toWriter_call (w : TracedWriter) (c : ConsoleCall) :
    (w.call c).toWriter = w.toWriter.call c := by
  cases c with
  | writeStr s =>
    exact (List.foldl_hom toWriter fun w byte =>
      (w.toWriter_writeByte (Writer.glyph byte)).symm).symm
  | clear =>
    have hrows : ((List.range bufferHeight).foldl blankRow w).toWriter =
        (List.range bufferHeight).foldl Writer.blankRow w.toWriter :=
      (List.foldl_hom toWriter fun w row => (w.toWriter_blankRow row).symm).symm
    simp [call, Writer.call, clear, Writer.clear, hrows]

/-! ## The accesses -/

/-- Every access lies in the buffer. -/
def InBuffer (w : TracedWriter) : Prop := ∀ a ∈ w.accesses, a.offset < 4000

variable {w : TracedWriter}

/-- Accesses to the buffer may follow. -/
lemma InBuffer.append (h : w.InBuffer) (t : Writer) {more : List VgaAccess}
    (hmore : ∀ a ∈ more, a.offset < 4000) : InBuffer ⟨t, w.accesses ++ more⟩ := by
  intro a ha
  rcases List.mem_append.mp ha with ha | ha
  · exact h a ha
  · exact hmore a ha

/-- Moving the cursor is no access. -/
lemma InBuffer.moveTo (h : w.InBuffer) (t : Writer) : InBuffer ⟨t, w.accesses⟩ := h

/-- The offset of a cell of the screen. -/
lemma offset_lt {row col : ℕ} (hrow : row < bufferHeight) (hcol : col < bufferWidth) :
    (row * bufferWidth + col) * 2 + 1 < 4000 := by
  unfold bufferHeight bufferWidth at *
  omega

/-- A cell of the screen is written within the buffer. -/
lemma InBuffer.putCell (h : w.InBuffer) {row col : ℕ} (hrow : row < bufferHeight)
    (hcol : col < bufferWidth) (byte attrib : UInt8) :
    (w.putCell row col byte attrib).InBuffer := by
  have hlt := offset_lt hrow hcol
  refine h.append _ fun a ha => ?_
  simp only [List.mem_cons, List.not_mem_nil, or_false] at ha
  rcases ha with rfl | rfl
  · exact (Nat.lt_succ_self _).trans hlt
  · exact hlt

/-- A cell below the top row is copied within the buffer. -/
lemma InBuffer.copyCell (h : w.InBuffer) {row col : ℕ} (hrow : row < bufferHeight)
    (hcol : col < bufferWidth) : (w.copyCell row col).InBuffer := by
  have hsrc := offset_lt hrow hcol
  have hdst := offset_lt (lt_of_le_of_lt (Nat.sub_le row 1) hrow) hcol
  refine h.append _ fun a ha => ?_
  simp only [List.mem_cons, List.not_mem_nil, or_false] at ha
  rcases ha with rfl | rfl | rfl | rfl
  · exact (Nat.lt_succ_self _).trans hsrc
  · exact hsrc
  · exact (Nat.lt_succ_self _).trans hdst
  · exact hdst

/-- A row of the screen is blanked within the buffer. -/
lemma InBuffer.blankRow (h : w.InBuffer) {row : ℕ} (hrow : row < bufferHeight) :
    (w.blankRow row).InBuffer :=
  foldl_range_induction (P := fun _ => InBuffer) bufferWidth h
    fun _ _ hcol hw => hw.putCell hrow hcol _ _

/-- A row is copied within the buffer. -/
lemma InBuffer.copyRow (h : w.InBuffer) {row : ℕ} (hrow : row < bufferHeight) :
    (w.copyRow row).InBuffer :=
  foldl_range_induction (P := fun _ => InBuffer) bufferWidth h
    fun _ _ hcol hw => hw.copyCell hrow hcol

/-- The rows are copied within the buffer. -/
lemma InBuffer.copyRows (h : w.InBuffer) : w.copyRows.InBuffer :=
  foldl_range'_induction (P := fun _ => InBuffer) 1 (bufferHeight - 1) h
    fun row _ _ hlt hw => hw.copyRow (by unfold bufferHeight at *; omega)

/-- Going to the next row stays within the buffer. -/
lemma InBuffer.newLine (h : w.InBuffer) : w.newLine.InBuffer := by
  unfold TracedWriter.newLine
  split_ifs with hrow
  · exact h
  · have hrows : InBuffer (TracedWriter.copyRows { w with col := 0 }) := copyRows h
    exact (hrows.blankRow (show bufferHeight - 1 < bufferHeight by decide)).moveTo _

/-- Stepping back stays within the buffer. -/
lemma InBuffer.backspace (h : w.InBuffer) (hvalid : w.toWriter.Valid) : w.backspace.InBuffer := by
  obtain ⟨hback, hcol⟩ := hvalid.stepBack
  exact putCell (w := w.stepBack) h hback.row hcol _ _

/-- **Writing a character stays within the buffer**, also at the end of a row. -/
lemma InBuffer.writeChar (h : w.InBuffer) (hvalid : w.toWriter.Valid) (byte : UInt8) :
    (w.writeChar byte).InBuffer := by
  unfold TracedWriter.writeChar
  split_ifs with hfull
  · refine putCell h.newLine ?_ ?_ byte w.newLine.attr
    · rw [toWriter_newLine]
      exact w.toWriter.valid_newLine.row
    · rw [toWriter_newLine, Writer.newLine_col]
      decide
  · exact putCell h hvalid.row (not_le.mp hfull) byte w.attr

/-- The cursor is on the screen, and every access lies in the buffer. -/
structure Safe (w : TracedWriter) : Prop where
  /-- The cursor is on the screen. -/
  valid : w.toWriter.Valid
  /-- Every access lies in the buffer. -/
  inBuffer : w.InBuffer

/-- The top-left cell is on the screen. -/
lemma valid_origin {attrib : UInt8} {vga : ℕ → UInt8} : Writer.Valid ⟨0, 0, attrib, vga⟩ :=
  ⟨show 0 < bufferHeight by decide, Nat.zero_le _⟩

/-- **Every byte keeps the writer safe.** -/
lemma Safe.writeByte (h : w.Safe) (byte : UInt8) : (w.writeByte byte).Safe := by
  refine ⟨?_, ?_⟩
  · rw [toWriter_writeByte]
    exact h.valid.writeByte byte
  · unfold TracedWriter.writeByte
    split_ifs
    · exact h.inBuffer.newLine
    · exact h.inBuffer.backspace h.valid
    · exact h.inBuffer.writeChar h.valid byte

/-- **Every call keeps the writer safe.** -/
lemma Safe.call (h : w.Safe) (c : ConsoleCall) : (w.call c).Safe := by
  cases c with
  | writeStr s =>
    exact List.foldlRecOn s _ h fun w hw byte _ => hw.writeByte _
  | clear =>
    have hrows := foldl_range_induction (P := fun _ => InBuffer) bufferHeight h.inBuffer
      fun _ _ hrow hw => hw.blankRow hrow
    exact ⟨valid_origin, hrows.moveTo _⟩

/-- The writer at boot is safe. -/
lemma safe_init (vga : ℕ → UInt8) : (init vga).Safe := ⟨valid_origin, fun _ ha => nomatch ha⟩

end TracedWriter

/-- **The console stays within its buffer.**  From the writer at boot, after any sequence of strings
and of `clear`, the row is below 25 and the column is at most 80, and every byte that was read or
written has an offset below 4000. -/
theorem accesses_in_buffer (vga : ℕ → UInt8) (calls : List ConsoleCall) :
    (calls.foldl TracedWriter.call (.init vga)).toWriter = calls.foldl Writer.call (.init vga) ∧
      (calls.foldl Writer.call (.init vga)).row < 25 ∧
      (calls.foldl Writer.call (.init vga)).col ≤ 80 ∧
      ∀ a ∈ (calls.foldl TracedWriter.call (.init vga)).accesses, a.offset < 4000 := by
  have hwriter : (calls.foldl TracedWriter.call (.init vga)).toWriter =
      calls.foldl Writer.call (.init vga) :=
    (List.foldl_hom TracedWriter.toWriter fun w c => (w.toWriter_call c).symm).symm
  have hsafe : (calls.foldl TracedWriter.call (.init vga)).Safe :=
    List.foldlRecOn calls _ (TracedWriter.safe_init vga) fun _ hw c _ => hw.call c
  refine ⟨hwriter, ?_, ?_, hsafe.inBuffer⟩
  · rw [← hwriter]
    exact hsafe.valid.row
  · rw [← hwriter]
    exact hsafe.valid.col

end ZiranOS
