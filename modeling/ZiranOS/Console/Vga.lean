import ZiranOS.Lib.Loop

/-!
# The VGA text console

The screen has 25 rows of 80 cells, each of two bytes: a character and its attribute.  The writer
holds the cursor.  A cell at the end of a row leaves the cursor at column 80, and the row is left
only when the next character is written.

`Writer.Shows` says that a text stands right before the cursor.  The file proves what writing a
character and erasing one do to it.
-/

namespace ZiranOS

open ProgLib

/-- The number of columns. -/
def bufferWidth : ℕ := 80
/-- The number of rows. -/
def bufferHeight : ℕ := 25

/-- The cursor over the text buffer, with the bytes of the buffer. -/
structure Writer where
  col : ℕ
  row : ℕ
  attr : UInt8
  vga : ℕ → UInt8

namespace Writer

/-! ## The operations -/

/-- Write a cell, character and attribute. -/
def putCell (w : Writer) (row col : ℕ) (byte attrib : UInt8) : Writer :=
  let offset := (row * bufferWidth + col) * 2
  { w with vga := Function.update (Function.update w.vga offset byte) (offset + 1) attrib }

/-- Fill a row with spaces. -/
def blankRow (w : Writer) (row : ℕ) : Writer :=
  (List.range bufferWidth).foldl (fun w col => w.putCell row col 0x20 w.attr) w

/-- Copy a cell to the row above it. -/
def copyCell (w : Writer) (row col : ℕ) : Writer :=
  let src := (row * bufferWidth + col) * 2
  let dst := ((row - 1) * bufferWidth + col) * 2
  let vga := Function.update w.vga dst (w.vga src)
  { w with vga := Function.update vga (dst + 1) (w.vga (src + 1)) }

/-- Copy the cells of a row to the row above it. -/
def copyRow (w : Writer) (row : ℕ) : Writer :=
  (List.range bufferWidth).foldl (fun w col => w.copyCell row col) w

/-- Copy every row to the row above it. -/
def copyRows (w : Writer) : Writer := (List.range' 1 (bufferHeight - 1)).foldl copyRow w

/-- Move every row up by one and blank the bottom row. -/
def scrollUp (w : Writer) : Writer :=
  { w.copyRows.blankRow (bufferHeight - 1) with row := bufferHeight - 1 }

/-- Go to the start of the next row. -/
def newLine (w : Writer) : Writer :=
  if w.row + 1 < bufferHeight then { w with col := 0, row := w.row + 1 }
  else scrollUp { w with col := 0 }

/-- The cursor one cell back. -/
def stepBack (w : Writer) : Writer :=
  if w.col > 0 then { w with col := w.col - 1 }
  else if w.row > 0 then { w with row := w.row - 1, col := bufferWidth - 1 }
  else w

/-- Move the cursor back one cell and blank it. -/
def backspace (w : Writer) : Writer :=
  w.stepBack.putCell w.stepBack.row w.stepBack.col 0x20 w.stepBack.attr

/-- Write a character in the cell of the cursor. -/
def writeChar (w : Writer) (byte : UInt8) : Writer :=
  let w := if w.col ≥ bufferWidth then w.newLine else w
  { w.putCell w.row w.col byte w.attr with col := w.col + 1 }

/-- Write a byte, which may be a line feed or a backspace. -/
def writeByte (w : Writer) (byte : UInt8) : Writer :=
  if byte = 0x0A then w.newLine
  else if byte = 0x08 then w.backspace
  else w.writeChar byte

/-- What is shown of a byte. -/
def glyph (byte : UInt8) : UInt8 :=
  if (0x20 ≤ byte ∧ byte ≤ 0x7E) ∨ byte = 0x0A ∨ byte = 0x08 then byte else 0xFE

/-- Write the bytes of a string. -/
def writeStr (w : Writer) (s : List UInt8) : Writer :=
  s.foldl (fun w byte => w.writeByte (glyph byte)) w

/-- Blank every row and move the cursor to the top-left cell. -/
def clear (w : Writer) : Writer :=
  { (List.range bufferHeight).foldl blankRow w with col := 0, row := 0 }

/-- The attribute of the writer: light green on black. -/
def defaultAttr : UInt8 := 0x0A

/-- The writer at boot. -/
def init (vga : ℕ → UInt8) : Writer := ⟨0, 0, defaultAttr, vga⟩

/-! ## The cells -/

/-- The character of a cell, counted in row-major order. -/
def cell (w : Writer) (i : ℕ) : UInt8 := w.vga (2 * i)

/-- Writing a cell changes its character only. -/
lemma cell_putCell (w : Writer) (r c : ℕ) (b a : UInt8) (i : ℕ) :
    (w.putCell r c b a).cell i = if i = r * bufferWidth + c then b else w.cell i := by
  simp only [cell, putCell, Function.update_apply]
  rw [if_neg (by omega)]
  exact if_congr (by omega) rfl rfl

/-- Copying a cell changes the character above it only. -/
lemma cell_copyCell (w : Writer) (r c i : ℕ) :
    (w.copyCell r c).cell i =
      if i = (r - 1) * bufferWidth + c then w.cell (r * bufferWidth + c) else w.cell i := by
  simp only [cell, copyCell, Function.update_apply]
  rw [if_neg (by omega), Nat.mul_comm 2 (r * bufferWidth + c)]
  exact if_congr (by omega) rfl rfl

/-- The cursor and the attribute are the same. -/
structure SameCursor (w w' : Writer) : Prop where
  col : w'.col = w.col
  row : w'.row = w.row

/-- Blanking a row. -/
lemma blankRow_spec (w : Writer) (row : ℕ) :
    SameCursor w (w.blankRow row) ∧ ∀ i, (w.blankRow row).cell i =
      if row * bufferWidth ≤ i ∧ i < row * bufferWidth + bufferWidth then 0x20 else w.cell i := by
  refine foldl_range_induction (P := fun n w' => SameCursor w w' ∧ ∀ i, w'.cell i =
    if row * bufferWidth ≤ i ∧ i < row * bufferWidth + n then 0x20 else w.cell i) _ ?_ ?_
  · exact ⟨⟨rfl, rfl⟩, fun i => (if_neg (by omega)).symm⟩
  · rintro n w' - ⟨hsame, hcell⟩
    refine ⟨⟨hsame.col, hsame.row⟩, fun i => ?_⟩
    rw [cell_putCell, hcell]
    split_ifs <;> first | rfl | omega

/-- The first `n` cells have the characters one row below. -/
structure Moved (w : Writer) (n : ℕ) (w' : Writer) : Prop where
  same : SameCursor w w'
  cell : ∀ i, w'.cell i = if i < n then w.cell (i + bufferWidth) else w.cell i

/-- Moving one row. -/
lemma Moved.copyRow {w w' : Writer} {row : ℕ} (hrow : 1 ≤ row)
    (h : Moved w ((row - 1) * bufferWidth) w') :
    Moved w (row * bufferWidth) (w'.copyRow row) := by
  have hend : (row - 1) * bufferWidth + bufferWidth = row * bufferWidth := by
    rw [← Nat.succ_mul, Nat.succ_eq_add_one, Nat.sub_add_cancel hrow]
  rw [← hend]
  refine foldl_range_induction (P := fun n w' => Moved w ((row - 1) * bufferWidth + n) w') _ h ?_
  intro col w' hcol hmoved
  -- the cell that is copied has not been overwritten yet
  have hsrc : w'.cell (row * bufferWidth + col) =
      w.cell ((row - 1) * bufferWidth + col + bufferWidth) := by
    rw [hmoved.cell, if_neg (by omega), Nat.add_right_comm, hend]
  refine ⟨⟨hmoved.same.col, hmoved.same.row⟩, fun i => ?_⟩
  rw [cell_copyCell, hsrc, hmoved.cell]
  split_ifs with h₁ <;> first | rfl | omega | rw [h₁]

/-- Moving all rows. -/
lemma moved_copyRows (w : Writer) : Moved w ((bufferHeight - 1) * bufferWidth) w.copyRows := by
  have hstart : Moved w ((1 - 1) * bufferWidth) w := ⟨⟨rfl, rfl⟩, fun i => by simp⟩
  have hend := foldl_range'_induction (P := fun row w' => Moved w ((row - 1) * bufferWidth) w')
    1 (bufferHeight - 1) hstart fun row w' hrow _ h => h.copyRow hrow
  rwa [Nat.add_sub_cancel_left] at hend

/-- **Scrolling** moves every character up by one row. -/
lemma scrollUp_spec (w : Writer) :
    w.scrollUp.col = w.col ∧ w.scrollUp.row = bufferHeight - 1 ∧
      ∀ i < (bufferHeight - 1) * bufferWidth, w.scrollUp.cell i = w.cell (i + bufferWidth) := by
  have hmoved := w.moved_copyRows
  obtain ⟨hsame, hcell⟩ := w.copyRows.blankRow_spec (bufferHeight - 1)
  have hcol : ∀ (w : Writer) row, { w with row := row }.col = w.col := fun _ _ => rfl
  have hrow : ∀ (w : Writer) row i, cell { w with row := row } i = w.cell i := fun _ _ _ => rfl
  refine ⟨?_, rfl, fun i hi => ?_⟩
  · rw [scrollUp, hcol, hsame.col, hmoved.same.col]
  · rw [scrollUp, hrow, hcell, if_neg (by omega), hmoved.cell, if_pos hi]

/-! ## A text before the cursor -/

/-- The cursor is on the screen, at the end of a row at most. -/
structure Valid (w : Writer) : Prop where
  row : w.row < bufferHeight
  col : w.col ≤ bufferWidth

/-- The position of the cursor in row-major order; the position after the end of a row is the start
of the next one. -/
def pos (w : Writer) : ℕ := w.row * bufferWidth + w.col

/-- The text stands right before the cursor. -/
structure Shows (w : Writer) (text : List UInt8) : Prop where
  valid : w.Valid
  length : text.length ≤ w.pos
  cell : ∀ i (_h : i < text.length), w.cell (w.pos - text.length + i) = text[i]

variable {w : Writer} {text : List UInt8}

/-- Going to the next row puts the cursor on the screen. -/
lemma valid_newLine (w : Writer) : w.newLine.Valid := by
  unfold Writer.newLine
  split_ifs with hrow
  · exact ⟨hrow, Nat.zero_le _⟩
  · obtain ⟨hcol, hlast, -⟩ := scrollUp_spec { w with col := 0 }
    exact ⟨by rw [hlast]; decide, by rw [hcol]; exact Nat.zero_le _⟩

/-- The next row starts at column 0. -/
lemma newLine_col (w : Writer) : w.newLine.col = 0 := by
  unfold Writer.newLine
  split_ifs
  · rfl
  · exact (scrollUp_spec { w with col := 0 }).1

/-- Stepping back keeps the cursor on the screen, and leaves the end of the row. -/
lemma Valid.stepBack (h : w.Valid) : w.stepBack.Valid ∧ w.stepBack.col < bufferWidth := by
  obtain ⟨hrow, hcol⟩ := h
  simp only [bufferHeight, bufferWidth] at hrow hcol
  unfold Writer.stepBack
  split_ifs <;> refine ⟨⟨?_, ?_⟩, ?_⟩ <;> simp only [bufferHeight, bufferWidth] <;> omega

/-- Writing a character keeps the cursor on the screen. -/
lemma Valid.writeChar (h : w.Valid) (byte : UInt8) : (w.writeChar byte).Valid := by
  unfold Writer.writeChar
  split_ifs with hfull
  · exact ⟨w.valid_newLine.row, by dsimp only; rw [newLine_col]; decide⟩
  · exact ⟨h.row, Nat.succ_le_of_lt (not_le.mp hfull)⟩

/-- Every byte keeps the cursor on the screen. -/
lemma Valid.writeByte (h : w.Valid) (byte : UInt8) : (w.writeByte byte).Valid := by
  unfold Writer.writeByte
  split_ifs
  · exact w.valid_newLine
  · exact ⟨h.stepBack.1.row, h.stepBack.1.col⟩
  · exact h.writeChar byte

/-- Every string keeps the cursor on the screen. -/
lemma Valid.writeStr (h : w.Valid) (s : List UInt8) : (w.writeStr s).Valid := by
  induction s generalizing w with
  | nil => exact h
  | cons byte s ih => exact ih (h.writeByte _)

/-- The empty text is shown anywhere. -/
lemma Valid.shows_nil (h : w.Valid) : w.Shows [] := ⟨h, Nat.zero_le _, fun i hi => by cases hi⟩

/-- Leaving the end of a row does not change what is shown. -/
lemma Shows.newLine (h : w.Shows text) (hcol : w.col = bufferWidth)
    (htext : text.length ≤ (bufferHeight - 1) * bufferWidth) :
    w.newLine.Shows text ∧ w.newLine.col = 0 := by
  have hvalid := w.valid_newLine
  obtain ⟨⟨hrow, -⟩, hlen, hcell⟩ := h
  unfold Writer.newLine at hvalid ⊢
  unfold pos at hlen hcell
  rw [hcol] at hlen hcell
  split_ifs at hvalid ⊢ with hlast
  · have hpos : pos { w with col := 0, row := w.row + 1 } = w.row * bufferWidth + bufferWidth := by
      rw [pos, Nat.succ_mul, Nat.add_zero]
    exact ⟨⟨hvalid, by rw [hpos]; exact hlen, fun i hi => by rw [hpos]; exact hcell i hi⟩, rfl⟩
  · obtain ⟨hscol, hsrow, hscell⟩ := scrollUp_spec { w with col := 0 }
    have hpos : (scrollUp { w with col := 0 }).pos = (bufferHeight - 1) * bufferWidth := by
      rw [pos, hscol, hsrow, Nat.add_zero]
    have hrow' : w.row = bufferHeight - 1 := by omega
    rw [hrow'] at hcell
    refine ⟨⟨hvalid, by rw [hpos]; exact htext, fun i hi => ?_⟩, hscol⟩
    rw [hpos, hscell _ (by omega), ← hcell i hi]
    exact congrArg w.cell (by omega)

/-- Filling the cell of the cursor appends a character. -/
lemma Shows.put (h : w.Shows text) (hcol : w.col < bufferWidth) (byte : UInt8) :
    Shows { w.putCell w.row w.col byte w.attr with col := w.col + 1 } (text ++ [byte]) := by
  have hpos : pos { w.putCell w.row w.col byte w.attr with col := w.col + 1 } = w.pos + 1 := rfl
  have hlen := h.length
  have hcell : ∀ i, Writer.cell { w.putCell w.row w.col byte w.attr with col := w.col + 1 } i =
      if i = w.pos then byte else w.cell i := fun i => cell_putCell w w.row w.col byte w.attr i
  refine ⟨⟨h.valid.row, hcol⟩, ?_, fun i hi => ?_⟩
  · rw [hpos, List.length_append]
    exact Nat.succ_le_succ hlen
  · rw [List.length_append, List.length_singleton] at hi
    rw [hpos, hcell, List.length_append, List.length_singleton, Nat.add_sub_add_right,
      List.getElem_append]
    split_ifs with hlast hold hold
    · omega
    · rw [List.getElem_singleton]
    · exact h.cell i hold
    · omega

/-- **Writing a character** appends it to the text before the cursor. -/
lemma Shows.writeChar (h : w.Shows text) (byte : UInt8)
    (htext : text.length ≤ (bufferHeight - 1) * bufferWidth) :
    (w.writeChar byte).Shows (text ++ [byte]) := by
  unfold Writer.writeChar
  split_ifs with hfull
  · obtain ⟨hnew, hcol⟩ := h.newLine (le_antisymm h.valid.col hfull) htext
    exact hnew.put (by rw [hcol]; decide) byte
  · exact h.put (not_le.mp hfull) byte

/-- **Stepping back** removes the last character of the text before the cursor. -/
lemma Shows.backspace {byte : UInt8} (h : w.Shows (text ++ [byte])) : w.backspace.Shows text := by
  obtain ⟨hvalid, hlen, hcell⟩ := h
  rw [List.length_append, List.length_singleton] at hlen
  have hpos : w.stepBack.pos + 1 = w.pos ∧ w.stepBack.vga = w.vga := by
    unfold Writer.stepBack
    unfold pos at hlen ⊢
    split_ifs with hcol hrow
    · exact ⟨by dsimp only; omega, rfl⟩
    · refine ⟨?_, rfl⟩
      have := Nat.sub_add_cancel hrow
      dsimp only
      rw [← this, Nat.succ_mul, Nat.add_sub_cancel]
      simp only [bufferWidth]
      omega
    · rw [Nat.eq_zero_of_not_pos hrow, Nat.eq_zero_of_not_pos hcol, Nat.zero_mul] at hlen
      omega
  have hback : ∀ i, w.backspace.cell i = if i = w.stepBack.pos then 0x20 else w.cell i := by
    intro i
    rw [Writer.backspace, cell_putCell, ← pos, Writer.cell, hpos.2, ← Writer.cell]
  refine ⟨⟨hvalid.stepBack.1.row, hvalid.stepBack.1.col⟩, ?_, fun i hi => ?_⟩
  · change text.length ≤ w.stepBack.pos
    omega
  · have hold := hcell i (by rw [List.length_append]; omega)
    rw [List.getElem_append_left hi, List.length_append, List.length_singleton] at hold
    change w.backspace.cell (w.stepBack.pos - text.length + i) = _
    rw [hback, if_neg (by omega), ← hold]
    congr 1
    omega

end Writer

end ZiranOS
