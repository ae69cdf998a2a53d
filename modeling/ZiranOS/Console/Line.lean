import ZiranOS.Console.Vga
import ZiranOS.Lib.Text

/-!
# The line that is typed

The shell edits a line of at most 128 bytes and echoes what each key did to the console.  The line
and the cursor of the console are two machines; `screen_shows_line` says that they stay in step:
the cells right before the cursor spell the line.  What the line itself holds is a fold over the
keys, `bytes_keys`.
-/

namespace ZiranOS

open ProgLib

/-- The longest line. -/
def lineMax : ℕ := 128

/-- The input line. -/
structure Line where
  buf : Vector UInt8 lineMax
  len : ℕ
  len_le : len ≤ lineMax

/-- What a key did to the line. -/
inductive Edit where
  | echo (byte : UInt8)
  | erase
  | submit
  | ignored
  deriving DecidableEq, Repr

namespace Line

/-- A new line. -/
def new : Line := ⟨Vector.replicate lineMax 0, 0, Nat.zero_le _⟩

/-- Fold one byte into the line. -/
def edit (line : Line) (byte : UInt8) : Edit × Line :=
  if byte = 0x0A then (.submit, line)
  else if byte = 0x08 then
    if 0 < line.len then (.erase, ⟨line.buf, line.len - 1, (Nat.sub_le _ _).trans line.len_le⟩)
    else (.ignored, line)
  else if 0x20 ≤ byte ∧ byte ≤ 0x7E then
    if h : line.len < lineMax then (.echo byte, ⟨line.buf.set line.len byte h, line.len + 1, h⟩)
    else (.ignored, line)
  else (.ignored, line)

/-- The bytes of the line. -/
def bytes (line : Line) : List UInt8 := line.buf.toList.take line.len

/-- The line as a string. -/
def asStr (line : Line) : List Char := (Text.fromUtf8 line.bytes).getD []

end Line

/-- What a key of a terminal means for the line. -/
def normalize (raw : UInt8) : UInt8 :=
  if raw = 0x0D then 0x0A else if raw = 0x7F then 0x08 else raw

/-- Edit the line and echo on the console; a line that is submitted goes to `dispatch` instead. -/
def keystroke (s : Line × Writer) (raw : UInt8) : Option (Line × Writer) :=
  match s.1.edit (normalize raw) with
  | (.echo b, line) => some (line, s.2.writeStr (String.utf8EncodeChar (Char.ofNat b.toNat)))
  | (.erase, line) => some (line, s.2.writeStr (Text.utf8 "\x08 \x08"))
  | (.submit, _) => none
  | (.ignored, line) => some (line, s.2)

/-- Print the prompt for a directory. -/
def printPrompt (w : Writer) (cwd : List Char) : Writer :=
  w.writeStr (Text.utf8 "ziran:" ++ Text.encode cwd ++ Text.utf8 "> ")

/-- The characters of the `n` cells before the cursor. -/
def Writer.before (w : Writer) (n : ℕ) : List UInt8 :=
  (List.range' (w.pos - n) n).map w.cell

/-! ## One key -/

variable {line : Line} {w : Writer}

/-- The line has as many bytes as it says. -/
lemma Line.length_bytes (line : Line) : line.bytes.length = line.len := by
  rw [bytes, List.length_take, Vector.length_toList, Nat.min_eq_left line.len_le]

/-- The text is on the screen, and printable. -/
structure InStep (line : Line) (w : Writer) : Prop where
  shows : w.Shows line.bytes
  printable : ∀ b ∈ line.bytes, 0x20 ≤ b ∧ b ≤ 0x7E

/-- A printable byte is written as it is. -/
lemma writeStr_echo {b : UInt8} (hb : 0x20 ≤ b ∧ b ≤ 0x7E) :
    w.writeStr (String.utf8EncodeChar (Char.ofNat b.toNat)) = w.writeChar b := by
  have hlf : b ≠ 0x0A := by rintro rfl; exact absurd hb.1 (by decide)
  have hbs : b ≠ 0x08 := by rintro rfl; exact absurd hb.1 (by decide)
  have hascii : b < 0x80 := UInt8.lt_of_le_of_lt hb.2 (by decide)
  rw [Text.encodeChar_of_lt hascii, Writer.writeStr, List.foldl_cons, List.foldl_nil, Writer.glyph,
    if_pos (.inl hb), Writer.writeByte, if_neg hlf, if_neg hbs]

/-- Erasing is a step back, a space and a step back. -/
lemma writeStr_erase :
    w.writeStr (Text.utf8 "\x08 \x08") = (w.backspace.writeChar 0x20).backspace := by
  have hutf8 : Text.utf8 "\x08 \x08" = [0x08, 0x20, 0x08] := by decide
  rw [hutf8]
  rfl

/-- Erasing the last byte of the line. -/
lemma Line.bytes_erase (line : Line) (h : 0 < line.len) (hle : line.len - 1 ≤ lineMax) :
    ∃ b, line.bytes = (⟨line.buf, line.len - 1, hle⟩ : Line).bytes ++ [b] := by
  have hlen : line.len - 1 < line.buf.toList.length := by
    have := line.len_le
    rw [Vector.length_toList]
    omega
  refine ⟨line.buf.toList[line.len - 1], ?_⟩
  rw [bytes, bytes, List.take_append_getElem, Nat.sub_add_cancel h]

/-- Appending a byte to the line. -/
lemma Line.bytes_push (line : Line) (h : line.len < lineMax) (byte : UInt8) :
    (⟨line.buf.set line.len byte h, line.len + 1, h⟩ : Line).bytes = line.bytes ++ [byte] := by
  have hlen : line.len < line.buf.toList.length := by rwa [Vector.length_toList]
  have hprefix : (line.buf.toList.take line.len).length = line.len := line.length_bytes
  rw [bytes, bytes, Vector.toList_set, List.take_set, List.take_add_one,
    List.getElem?_eq_getElem hlen, List.set_append_right _ _ hprefix.le, hprefix, Nat.sub_self]
  rfl

/-- What a byte does to a text of at most `lineMax` bytes: a backspace takes the last one off, a
printable byte is appended where there is room, and all others are ignored. -/
def typeByte (text : List UInt8) (byte : UInt8) : List UInt8 :=
  if byte = 0x08 then text.dropLast
  else if (0x20 ≤ byte ∧ byte ≤ 0x7E) ∧ text.length < lineMax then text ++ [byte]
  else text

/-- The line is edited as its text is. -/
lemma Line.bytes_edit (line : Line) (byte : UInt8) :
    (line.edit byte).2.bytes = typeByte line.bytes byte := by
  unfold Line.edit typeByte
  by_cases hlf : byte = 0x0A
  · subst hlf
    rfl
  rw [if_neg hlf, line.length_bytes]
  by_cases hback : byte = 0x08
  · rw [if_pos hback, if_pos hback]
    split_ifs with hlen
    · obtain ⟨b, hb⟩ := line.bytes_erase hlen ((Nat.sub_le _ _).trans line.len_le)
      rw [hb, List.dropLast_concat]
    · have hempty : line.bytes = [] := by
        rw [← List.length_eq_zero_iff, line.length_bytes, Nat.eq_zero_of_not_pos hlen]
      rw [hempty, List.dropLast_nil]
  rw [if_neg hback, if_neg hback]
  by_cases hchar : 0x20 ≤ byte ∧ byte ≤ 0x7E
  · by_cases hfull : line.len < lineMax
    · rw [if_pos hchar, dif_pos hfull, if_pos ⟨hchar, hfull⟩]
      exact line.bytes_push hfull byte
    · rw [if_pos hchar, dif_neg hfull, if_neg fun hroom => hfull hroom.2]
  · rw [if_neg hchar, if_neg fun hroom => hchar hroom.1]

/-- Whatever is echoed, the line after a key is the edited one. -/
lemma keystroke_line {raw : UInt8} {line' : Line} {w' : Writer}
    (h : keystroke (line, w) raw = some (line', w')) :
    line' = (line.edit (normalize raw)).2 := by
  rcases hedit : line.edit (normalize raw) with ⟨edit, line₁⟩
  simp only [keystroke, hedit] at h
  cases edit with
  | submit => cases h
  | echo byte | erase | ignored =>
    obtain ⟨rfl, -⟩ := Prod.mk.inj (Option.some.inj h)
    rfl

/-- **What the line holds** after any number of keys is what they type. -/
lemma bytes_keys {raws : List UInt8} {line' : Line} {w' : Writer}
    (h : raws.foldlM keystroke (line, w) = some (line', w')) :
    line'.bytes = (raws.map normalize).foldl typeByte line.bytes := by
  induction raws generalizing line w with
  | nil =>
    obtain ⟨rfl, -⟩ := Prod.mk.inj (Option.some.inj h)
    rfl
  | cons raw raws ih =>
    rw [List.foldlM_cons, Option.bind_eq_bind, Option.bind_eq_some_iff] at h
    obtain ⟨⟨line₁, w₁⟩, hkey, hkeys⟩ := h
    rw [ih hkeys, List.map_cons, List.foldl_cons, keystroke_line hkey, Line.bytes_edit]

example : ([0x68, 0x69, 0x7F, 0x09].map normalize).foldl typeByte [] = [0x68] := by decide

/-- **One key** other than Enter keeps the line and the screen in step. -/
lemma InStep.key {raw : UInt8} (h : InStep line w) (hlf : raw ≠ 0x0A) (hcr : raw ≠ 0x0D) :
    ∃ line' w', keystroke (line, w) raw = some (line', w') ∧ InStep line' w' := by
  obtain ⟨hshows, hprint⟩ := h
  have hsubmit : normalize raw ≠ 0x0A := by
    rw [normalize, if_neg hcr]
    split_ifs
    · decide
    · exact hlf
  have hroom : ∀ {line : Line}, line.bytes.length ≤ (bufferHeight - 1) * bufferWidth := by
    intro line
    rw [line.length_bytes]
    exact line.len_le.trans (by decide)
  unfold keystroke Line.edit
  rw [if_neg hsubmit]
  split_ifs with hback hlen hchar hfull
  · obtain ⟨b, hb⟩ := line.bytes_erase hlen ((Nat.sub_le _ _).trans line.len_le)
    refine ⟨_, _, rfl, ?_, fun b' hb' => hprint b' ?_⟩
    · rw [writeStr_erase]
      rw [hb] at hshows
      exact (hshows.backspace.writeChar 0x20 hroom).backspace
    · rw [hb]
      exact List.mem_append_left _ hb'
  · exact ⟨line, w, rfl, hshows, hprint⟩
  · refine ⟨_, _, rfl, ?_, ?_⟩
    · rw [writeStr_echo hchar, line.bytes_push hfull]
      exact hshows.writeChar _ hroom
    · rw [line.bytes_push hfull, List.forall_mem_append, List.forall_mem_singleton]
      exact ⟨hprint, hchar⟩
  · exact ⟨line, w, rfl, hshows, hprint⟩
  · exact ⟨line, w, rfl, hshows, hprint⟩

/-- Any number of keys other than Enter keep the line and the screen in step. -/
lemma InStep.keys {raws : List UInt8} (h : InStep line w)
    (hraws : ∀ raw ∈ raws, raw ≠ 0x0A ∧ raw ≠ 0x0D) :
    ∃ line' w', raws.foldlM keystroke (line, w) = some (line', w') ∧ InStep line' w' := by
  induction raws generalizing line w with
  | nil => exact ⟨line, w, rfl, h⟩
  | cons raw raws ih =>
    obtain ⟨⟨hlf, hcr⟩, hraws⟩ := List.forall_mem_cons.mp hraws
    obtain ⟨line', w', hkey, h'⟩ := h.key hlf hcr
    obtain ⟨line'', w'', hkeys, h''⟩ := ih h' hraws
    exact ⟨line'', w'', by rw [List.foldlM_cons, hkey]; exact hkeys, h''⟩

/-- The line in step with the screen is what its string encodes. -/
lemma InStep.encode_asStr (h : InStep line w) : Text.encode line.asStr = line.bytes := by
  have hascii : ∀ b ∈ line.bytes, b < 0x80 := fun b hb =>
    UInt8.lt_of_le_of_lt (h.printable b hb).2 (by decide)
  rw [Line.asStr, ← Text.encode_map_of_lt hascii, Text.fromUtf8_encode, Option.getD_some]

/-- **What you see is what you typed.**  After the prompt, whatever keys other than Enter are
pressed, the cells right before the cursor spell the line. -/
theorem screen_shows_line (w : Writer) (hrow : w.row < 25) (hcol : w.col ≤ 80) (cwd : List Char)
    (line : Line) (hline : line.len = 0) (raws : List UInt8)
    (hraws : ∀ raw ∈ raws, raw ≠ 0x0A ∧ raw ≠ 0x0D) :
    ∃ line' w', raws.foldlM keystroke (line, printPrompt w cwd) = some (line', w') ∧
      line'.len ≤ w'.pos ∧ w'.before line'.len = Text.encode line'.asStr := by
  have hstart : InStep line (printPrompt w cwd) := by
    have hempty : line.bytes = [] := by rw [Line.bytes, hline, List.take_zero]
    exact ⟨hempty ▸ (Writer.Valid.writeStr ⟨hrow, hcol⟩ _).shows_nil, by simp [hempty]⟩
  obtain ⟨line', w', hrun, hstep⟩ := hstart.keys hraws
  have hlen := line'.length_bytes
  refine ⟨line', w', hrun, hlen ▸ hstep.shows.length, ?_⟩
  rw [hstep.encode_asStr, Writer.before]
  refine List.ext_getElem (by simp [hlen]) fun i hi hi' => ?_
  rw [List.getElem_map, List.getElem_range', ← hstep.shows.cell i hi', hlen, Nat.one_mul]

/-- The prompt scrolls the screen, and two letters are typed of which one is erased. -/
theorem screen_shows_line_scrolled :
    ∃ line' w', [0x68, 0x69, 0x7F].foldlM keystroke
        (Line.new, printPrompt ⟨80, 24, 0x0A, fun _ => 0x20⟩ ['/']) = some (line', w') ∧
      line'.len ≤ w'.pos ∧ w'.before line'.len = Text.encode line'.asStr :=
  screen_shows_line ⟨80, 24, 0x0A, fun _ => 0x20⟩ (by decide) (by decide) ['/'] .new rfl
    [0x68, 0x69, 0x7F] (by simp)

end ZiranOS
