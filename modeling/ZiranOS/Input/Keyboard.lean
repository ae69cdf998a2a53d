import ZiranOS.Lib.Run

/-!
# The keyboard

A key sends its make code when it is pressed, and the same code with the high bit set when it is
released.  Some keys send the prefix `0xE0` before each of the two, and with it, depending on what
else is held, codes of the Shift keys: Print Screen sends `E0 2A E0 37` and `E0 B7 E0 AA`, and while
the left Shift key is held Insert sends `E0 AA E0 52` and `E0 D2 E0 2A`.  So a key is not told by
one code here; an event says which key it is and what the key sends.

The driver keeps one flag, `SHIFT`, for the two Shift keys: either make code sets it and either
break code clears it, also behind a prefix.  The flag tells whether a Shift key is held until one of
the two is released while the other one is still held, or another key sends a code of a Shift key
that does not fit (`shift_faithful_iff`).
-/

namespace ZiranOS

open ProgLib

namespace Keyboard

/-! ## The driver -/

/-- The make code of the left Shift key. -/
def lshiftMake : UInt8 := 0x2A
/-- The make code of the right Shift key. -/
def rshiftMake : UInt8 := 0x36
/-- The break code of the left Shift key. -/
def lshiftBreak : UInt8 := 0xAA
/-- The break code of the right Shift key. -/
def rshiftBreak : UInt8 := 0xB6

/-- The character of a key without Shift and with it. -/
def characters (code : UInt8) : Option (Char × Char) :=
  match code.toNat with
  | 0x02 => some ('1', '!')
  | 0x03 => some ('2', '@')
  | 0x04 => some ('3', '#')
  | 0x05 => some ('4', '$')
  | 0x06 => some ('5', '%')
  | 0x07 => some ('6', '^')
  | 0x08 => some ('7', '&')
  | 0x09 => some ('8', '*')
  | 0x0A => some ('9', '(')
  | 0x0B => some ('0', ')')
  | 0x0C => some ('-', '_')
  | 0x0D => some ('=', '+')
  | 0x10 => some ('q', 'Q')
  | 0x11 => some ('w', 'W')
  | 0x12 => some ('e', 'E')
  | 0x13 => some ('r', 'R')
  | 0x14 => some ('t', 'T')
  | 0x15 => some ('y', 'Y')
  | 0x16 => some ('u', 'U')
  | 0x17 => some ('i', 'I')
  | 0x18 => some ('o', 'O')
  | 0x19 => some ('p', 'P')
  | 0x1A => some ('[', '\x7b')
  | 0x1B => some (']', '\x7d')
  | 0x1E => some ('a', 'A')
  | 0x1F => some ('s', 'S')
  | 0x20 => some ('d', 'D')
  | 0x21 => some ('f', 'F')
  | 0x22 => some ('g', 'G')
  | 0x23 => some ('h', 'H')
  | 0x24 => some ('j', 'J')
  | 0x25 => some ('k', 'K')
  | 0x26 => some ('l', 'L')
  | 0x27 => some (';', ':')
  | 0x28 => some ('\x27', '\x22')
  | 0x29 => some ('\x60', '~')
  | 0x2B => some ('\x5c', '|')
  | 0x2C => some ('z', 'Z')
  | 0x2D => some ('x', 'X')
  | 0x2E => some ('c', 'C')
  | 0x2F => some ('v', 'V')
  | 0x30 => some ('b', 'B')
  | 0x31 => some ('n', 'N')
  | 0x32 => some ('m', 'M')
  | 0x33 => some (',', '<')
  | 0x34 => some ('.', '>')
  | 0x35 => some ('/', '?')
  | _ => none

/-- The character of a make code. -/
def translate (code : UInt8) (shift : Bool) : Option Char :=
  -- keys whose output does not depend on Shift
  if code = 0x0E then some '\x08'
  else if code = 0x1C then some '\n'
  else if code = 0x39 then some ' '
  else (characters code).map fun (lo, hi) => if shift then hi else lo

/-- One interrupt: the flag after it, and the character that it returns. -/
def handleInterrupt (shift : Bool) (code : UInt8) : Bool × Option Char :=
  if code = lshiftMake ∨ code = rshiftMake then (true, none)
  else if code = lshiftBreak ∨ code = rshiftBreak then (false, none)
  else if code &&& 0x80 ≠ 0 then (shift, none)
  else (shift, translate code shift)

/-- The interrupts of several codes, one after another. -/
def receive (shift : Bool) : List UInt8 → Bool × List Char
  | [] => (shift, [])
  | code :: codes =>
    let (shift, c) := handleInterrupt shift code
    let (shift, cs) := receive shift codes
    (shift, c.toList ++ cs)

end Keyboard

/-! ## The keys -/

/-- The keys: the two Shift keys, and all others by a number. -/
inductive Key where
  | lshift
  | rshift
  | other (number : ℕ)
  deriving DecidableEq

namespace Key

open Keyboard

/-- What a key may send when it is pressed.  All keys but the Shift keys may send any codes. -/
def Presses : Key → List UInt8 → Prop
  | lshift, codes => codes = [lshiftMake]
  | rshift, codes => codes = [rshiftMake]
  | other _, _ => True

/-- What a key may send when it is released. -/
def Releases : Key → List UInt8 → Prop
  | lshift, codes => codes = [lshiftBreak]
  | rshift, codes => codes = [rshiftBreak]
  | other _, _ => True

instance : (key : Key) → (codes : List UInt8) → Decidable (key.Presses codes)
  | lshift, _ | rshift, _ => inferInstanceAs (Decidable (_ = _))
  | other _, _ => .isTrue trivial

instance : (key : Key) → (codes : List UInt8) → Decidable (key.Releases codes)
  | lshift, _ | rshift, _ => inferInstanceAs (Decidable (_ = _))
  | other _, _ => .isTrue trivial

end Key

/-- What is done to a key, and the codes that the key sends. -/
inductive KeyEvent where
  | press (key : Key) (codes : List UInt8)
  | release (key : Key) (codes : List UInt8)
  deriving DecidableEq

/-- The flag of the driver, and the keys that are held. -/
structure Keyboard where
  shift : Bool
  held : Finset Key
  deriving DecidableEq

namespace Keyboard

/-- The keyboard at boot. -/
def init : Keyboard := ⟨false, ∅⟩

/-- A released key is pressed, or a pressed key is released; the second component is what is
typed. -/
def step (kb : Keyboard) : KeyEvent → Option (Keyboard × List Char)
  | .press key codes =>
    if key ∉ kb.held ∧ key.Presses codes then
      let (shift, typed) := receive kb.shift codes
      some (⟨shift, insert key kb.held⟩, typed)
    else none
  | .release key codes =>
    if key ∈ kb.held ∧ key.Releases codes then
      let (shift, typed) := receive kb.shift codes
      some (⟨shift, kb.held.erase key⟩, typed)
    else none

/-- One step of the keyboard, with what it types. -/
def Steps (kb : Keyboard) (x : KeyEvent × List Char) (kb' : Keyboard) : Prop :=
  kb.step x.1 = some (kb', x.2)

instance (kb : Keyboard) (x : KeyEvent × List Char) (kb' : Keyboard) :
    Decidable (kb.Steps x kb') :=
  inferInstanceAs (Decidable (_ = _))

/-- A Shift key is held. -/
def ShiftHeld (kb : Keyboard) : Prop := Key.lshift ∈ kb.held ∨ Key.rshift ∈ kb.held

instance (kb : Keyboard) : Decidable kb.ShiftHeld := inferInstanceAs (Decidable (_ ∨ _))

/-- The make codes of the two Shift keys. -/
def shiftMakes : List UInt8 := [lshiftMake, rshiftMake]
/-- The codes of the two Shift keys. -/
def shiftCodes : List UInt8 := [lshiftMake, rshiftMake, lshiftBreak, rshiftBreak]

/-- The last code of a Shift key among some codes. -/
def lastShiftCode (codes : List UInt8) : Option UInt8 :=
  (codes.filter (· ∈ shiftCodes)).getLast?

/-- Some codes that are not sent by a Shift key fit the Shift keys that are held: if there are codes
of a Shift key among them, the last one is a make code exactly when a Shift key is held. -/
def Fits (kb : Keyboard) (codes : List UInt8) : Prop :=
  ∀ code ∈ lastShiftCode codes, code ∈ shiftMakes ↔ kb.ShiftHeld

instance (kb : Keyboard) (codes : List UInt8) : Decidable (kb.Fits codes) :=
  inferInstanceAs (Decidable (∀ code ∈ lastShiftCode codes, _))

/-- An event misleads the driver: a Shift key is released while the other one is held, or another
key sends codes that do not fit the Shift keys that are held. -/
def Misleads (kb : Keyboard) : KeyEvent → Prop
  | .press (.other _) codes | .release (.other _) codes => ¬ kb.Fits codes
  | .press _ _ => False
  | .release .lshift _ => Key.rshift ∈ kb.held
  | .release .rshift _ => Key.lshift ∈ kb.held

instance (kb : Keyboard) : (e : KeyEvent) → Decidable (kb.Misleads e)
  | .press (.other _) _ | .release (.other _) _ => inferInstanceAs (Decidable (¬ _))
  | .press .lshift _ | .press .rshift _ => .isFalse id
  | .release .lshift _ | .release .rshift _ => inferInstanceAs (Decidable (_ ∈ _))

/-- The flag tells whether a Shift key is held. -/
def FlagFaithful (kb : Keyboard) : Prop := kb.shift = true ↔ kb.ShiftHeld

/-- A key whose press sends a code with two characters, after prefixes and codes of the Shift keys
at most, types the shifted one exactly when a Shift key is held. -/
def TypesFaithfully (x : Transition Keyboard (KeyEvent × List Char)) : Prop :=
  ∀ key before code lo hi, x.event.1 = .press key (before ++ [code]) →
    (∀ c ∈ before, c = 0xE0 ∨ c ∈ shiftCodes) → characters code = some (lo, hi) →
    (x.event.2 = [hi] ↔ x.pre.ShiftHeld) ∧ (x.event.2 = [lo] ↔ ¬ x.pre.ShiftHeld)

/-! ## Codes -/

/-- The codes of the Shift keys set and clear the flag, and no other code changes it. -/
lemma handleInterrupt_shift : ∀ shift code, (handleInterrupt shift code).1 =
    if code ∈ shiftCodes then decide (code ∈ shiftMakes) else shift := by
  decide +kernel

/-- A prefix and the codes of the Shift keys type nothing. -/
lemma handleInterrupt_silent : ∀ shift code, code = 0xE0 ∨ code ∈ shiftCodes →
    (handleInterrupt shift code).2 = none := by
  decide +kernel

/-- A code with two characters types one of them, by the flag. -/
lemma handleInterrupt_characters : ∀ code, ∀ chars ∈ characters code, ∀ shift,
    handleInterrupt shift code = (shift, some (if shift then chars.2 else chars.1)) := by
  decide +kernel

/-- The two characters of a code are different. -/
lemma characters_ne : ∀ code, ∀ chars ∈ characters code, chars.1 ≠ chars.2 := by
  decide +kernel

/-- Codes one after another. -/
lemma receive_append (shift : Bool) (codes codes' : List UInt8) :
    receive shift (codes ++ codes') =
      ((receive (receive shift codes).1 codes').1,
        (receive shift codes).2 ++ (receive (receive shift codes).1 codes').2) := by
  induction codes generalizing shift with
  | nil => rfl
  | cons code codes ih => simp only [List.cons_append, receive, ih, List.append_assoc]

/-- The last code of a Shift key is found behind a first code. -/
lemma lastShiftCode_cons (code : UInt8) (codes : List UInt8) : lastShiftCode (code :: codes) =
    if code ∈ shiftCodes then some ((lastShiftCode codes).getD code) else lastShiftCode codes := by
  unfold lastShiftCode
  by_cases hcode : code ∈ shiftCodes
  · rw [if_pos hcode, List.filter_cons_of_pos (by simpa using hcode), List.getLast?_cons]
  · rw [if_neg hcode, List.filter_cons_of_neg (by simpa using hcode)]

/-- **The flag after some codes** is set exactly if the last code of a Shift key among them is a
make code, and is as before where there is none. -/
lemma receive_shift (shift : Bool) (codes : List UInt8) : (receive shift codes).1 =
    ((lastShiftCode codes).map fun code => decide (code ∈ shiftMakes)).getD shift := by
  induction codes generalizing shift with
  | nil => rfl
  | cons code codes ih =>
    have hfirst : (receive shift (code :: codes)).1 =
        (receive (handleInterrupt shift code).1 codes).1 := rfl
    rw [hfirst, ih, handleInterrupt_shift, lastShiftCode_cons]
    split_ifs with hcode
    · cases lastShiftCode codes <;> rfl
    · rfl

/-- A prefix and the codes of the Shift keys, however many, type nothing. -/
lemma receive_silent (shift : Bool) {codes : List UInt8}
    (h : ∀ c ∈ codes, c = 0xE0 ∨ c ∈ shiftCodes) : (receive shift codes).2 = [] := by
  induction codes generalizing shift with
  | nil => rfl
  | cons code codes ih =>
    obtain ⟨hcode, hcodes⟩ := List.forall_mem_cons.mp h
    have hfirst : (receive shift (code :: codes)).2 = (handleInterrupt shift code).2.toList ++
        (receive (handleInterrupt shift code).1 codes).2 := rfl
    rw [hfirst, handleInterrupt_silent shift code hcode, ih _ hcodes]
    rfl

/-! ## Steps -/

variable {kb kb' : Keyboard} {e : KeyEvent} {typed : List Char}

/-- A press that is enabled. -/
lemma Steps.press {key : Key} {codes : List UInt8}
    (h : kb.Steps (.press key codes, typed) kb') : key.Presses codes ∧
      kb' = ⟨(receive kb.shift codes).1, insert key kb.held⟩ ∧
      typed = (receive kb.shift codes).2 := by
  simp only [Steps, step] at h
  split_ifs at h with hif
  obtain ⟨rfl, rfl⟩ := Prod.mk.inj (Option.some.inj h)
  exact ⟨hif.2, rfl, rfl⟩

/-- A release that is enabled. -/
lemma Steps.release {key : Key} {codes : List UInt8}
    (h : kb.Steps (.release key codes, typed) kb') : key.Releases codes ∧
      kb' = ⟨(receive kb.shift codes).1, kb.held.erase key⟩ := by
  simp only [Steps, step] at h
  split_ifs at h with hif
  obtain ⟨rfl, -⟩ := Prod.mk.inj (Option.some.inj h)
  exact ⟨hif.2, rfl⟩

/-- Pressing another key presses no Shift key. -/
lemma shiftHeld_insert_other (shift : Bool) (number : ℕ) :
    ShiftHeld ⟨shift, insert (.other number) kb.held⟩ ↔ kb.ShiftHeld := by
  simp [ShiftHeld]

/-- Releasing another key releases no Shift key. -/
lemma shiftHeld_erase_other (shift : Bool) (number : ℕ) :
    ShiftHeld ⟨shift, kb.held.erase (.other number)⟩ ↔ kb.ShiftHeld := by
  simp [ShiftHeld]

/-- Codes that are not a Shift key's leave the flag faithful exactly when they fit the Shift keys
that are held. -/
lemma faithful_other (h : kb.FlagFaithful) (codes : List UInt8) :
    ((receive kb.shift codes).1 = true ↔ kb.ShiftHeld) ↔ kb.Fits codes := by
  rw [receive_shift, Fits]
  cases lastShiftCode codes with
  | none => exact iff_of_true h (by simp)
  | some code => simp

/-- **One step keeps the flag faithful exactly when it does not mislead the driver.** -/
lemma flagFaithful_step (h : kb.FlagFaithful) (hstep : kb.Steps (e, typed) kb') :
    kb'.FlagFaithful ↔ ¬ kb.Misleads e := by
  cases e with
  | press key codes =>
    obtain ⟨hcodes, rfl, -⟩ := hstep.press
    cases key with
    | lshift =>
      cases hcodes
      exact iff_of_true (iff_of_true rfl (Or.inl (Finset.mem_insert_self _ _))) id
    | rshift =>
      cases hcodes
      exact iff_of_true (iff_of_true rfl (Or.inr (Finset.mem_insert_self _ _))) id
    | other number =>
      rw [FlagFaithful, shiftHeld_insert_other, faithful_other h, Misleads, not_not]
  | release key codes =>
    obtain ⟨hcodes, rfl⟩ := hstep.release
    cases key with
    | lshift =>
      cases hcodes
      have hclear : (receive kb.shift [lshiftBreak]).1 = false := rfl
      simp [FlagFaithful, ShiftHeld, Misleads, hclear]
    | rshift =>
      cases hcodes
      have hclear : (receive kb.shift [rshiftBreak]).1 = false := rfl
      simp [FlagFaithful, ShiftHeld, Misleads, hclear]
    | other number =>
      rw [FlagFaithful, shiftHeld_erase_other, faithful_other h, Misleads, not_not]

/-- A key that types a code with two characters is no Shift key. -/
lemma isOther_of_presses {key : Key} {before : List UInt8} {code : UInt8}
    (h : key.Presses (before ++ [code])) {chars : Char × Char}
    (hchars : characters code = some chars) : ∃ number, key = .other number := by
  have hne : ∀ make ∈ shiftMakes, before ++ [code] ≠ [make] := by
    rintro make hmake heq
    have hcode : code = make := by
      simpa using congrArg List.getLast? heq
    have hnone : ∀ make ∈ shiftMakes, characters make = none := by decide +kernel
    rw [hcode, hnone make hmake] at hchars
    cases hchars
  cases key with
  | lshift => exact absurd h (hne _ (by decide))
  | rshift => exact absurd h (hne _ (by decide))
  | other number => exact ⟨number, rfl⟩

/-- From a faithful flag, what is typed is faithful where the step does not mislead the driver. -/
lemma FlagFaithful.typesFaithfully (h : kb.FlagFaithful) (hno : ¬ kb.Misleads e)
    (hstep : kb.Steps (e, typed) kb') : TypesFaithfully ⟨kb, (e, typed), kb'⟩ := by
  rintro key before code lo hi rfl hbefore hchars
  have hne : lo ≠ hi := characters_ne code (lo, hi) hchars
  obtain ⟨hcodes, -, rfl⟩ := hstep.press
  obtain ⟨number, rfl⟩ := isOther_of_presses hcodes hchars
  -- the code with characters leaves the flag as the codes before it have set it
  have hlast : receive (receive kb.shift before).1 [code] = ((receive kb.shift before).1,
      [if (receive kb.shift before).1 then hi else lo]) := by
    simp [receive, handleInterrupt_characters code (lo, hi) hchars]
  have hflag := (faithful_other h _).mpr (not_not.mp hno)
  rw [receive_append, hlast] at hflag
  rw [receive_append, hlast, receive_silent _ hbefore, ← hflag]
  cases (receive kb.shift before).1 with
  | false => simp [hne]
  | true => simp [hne.symm]

/-- At boot no key is held. -/
lemma flagFaithful_init : init.FlagFaithful := by
  simp [FlagFaithful, ShiftHeld, init]

end Keyboard

/-- **When the Shift state is faithful.**  In a run from boot the flag tells in every state whether
a Shift key is held, and each key that has two characters types the shifted one exactly when a Shift
key is held, if and only if no event misleads the driver: no Shift key is released while the other
one is held, and where another key sends codes of the Shift keys, the last of them is a make code
exactly when a Shift key is held then. -/
theorem shift_faithful_iff (tr : List (Transition Keyboard (KeyEvent × List Char))) (kb : Keyboard)
    (h : Run Keyboard.Steps Keyboard.init tr kb) :
    (Keyboard.init.FlagFaithful ∧
        ∀ x ∈ tr, x.post.FlagFaithful ∧ Keyboard.TypesFaithfully x) ↔
      ∀ x ∈ tr, ¬ x.pre.Misleads x.event.1 := by
  rw [and_iff_right Keyboard.flagFaithful_init]
  constructor
  · intro hall
    exact (h.forall_post_iff (I := fun _ => True) (fun _ _ _ _ _ => trivial)
      (fun _ _ _ _ hkb hstep => Keyboard.flagFaithful_step hkb hstep) trivial
      Keyboard.flagFaithful_init).mp fun x hx => (hall x hx).1
  · intro hno
    obtain ⟨-, hinv⟩ := h.invariant_of (I := Keyboard.FlagFaithful)
      (C := fun kb (x : KeyEvent × List Char) => ¬ kb.Misleads x.1)
      (fun _ _ _ hkb hx hstep => (Keyboard.flagFaithful_step hkb hstep).mpr hx) hno
      Keyboard.flagFaithful_init
    intro x hx
    exact ⟨(hinv x hx).2, (hinv x hx).1.typesFaithfully (hno x hx) (h.mem hx).1⟩

/-- The key `A`. -/
def keyA : Key := .other 31
/-- The key Print Screen. -/
def printScreen : Key := .other 124

/-- While the left Shift key is held the key `A` is pressed, then Print Screen, which sends no codes
of a Shift key then, and is released after the Shift key, when it does. -/
def capitalA : List (Transition Keyboard (KeyEvent × List Char)) :=
  [⟨.init, (.press .lshift [0x2A], []), ⟨true, {.lshift}⟩⟩,
    ⟨⟨true, {.lshift}⟩, (.press keyA [0x1E], ['A']), ⟨true, {keyA, .lshift}⟩⟩,
    ⟨⟨true, {keyA, .lshift}⟩, (.press printScreen [0xE0, 0x37], []),
      ⟨true, {printScreen, keyA, .lshift}⟩⟩,
    ⟨⟨true, {printScreen, keyA, .lshift}⟩, (.release .lshift [0xAA], []),
      ⟨false, {printScreen, keyA}⟩⟩,
    ⟨⟨false, {printScreen, keyA}⟩, (.release printScreen [0xE0, 0xB7, 0xE0, 0xAA], []),
      ⟨false, {keyA}⟩⟩]

/-- The key types a capital letter, and the flag is faithful throughout. -/
theorem shift_faithful_iff_capitalA :
    Run Keyboard.Steps Keyboard.init capitalA ⟨false, {keyA}⟩ ∧
      ∀ x ∈ capitalA, x.post.FlagFaithful ∧ Keyboard.TypesFaithfully x := by
  have hrun : Run Keyboard.Steps Keyboard.init capitalA ⟨false, {keyA}⟩ :=
    .cons (by decide) <| .cons (by decide) <| .cons (by decide) <| .cons (by decide) <|
      .cons (by decide) (.nil _)
  refine ⟨hrun, ((shift_faithful_iff _ _ hrun).mpr fun x hx => ?_).2⟩
  simp only [capitalA, List.mem_cons, List.not_mem_nil, or_false] at hx
  rcases hx with rfl | rfl | rfl | rfl | rfl <;> decide +kernel

/-- Both Shift keys are pressed, one of them is released, and the key `A` is pressed. -/
def bothShifts : List (Transition Keyboard (KeyEvent × List Char)) :=
  [⟨.init, (.press .lshift [0x2A], []), ⟨true, {.lshift}⟩⟩,
    ⟨⟨true, {.lshift}⟩, (.press .rshift [0x36], []), ⟨true, {.rshift, .lshift}⟩⟩,
    ⟨⟨true, {.rshift, .lshift}⟩, (.release .rshift [0xB6], []), ⟨false, {.lshift}⟩⟩,
    ⟨⟨false, {.lshift}⟩, (.press keyA [0x1E], ['a']), ⟨false, {keyA, .lshift}⟩⟩]

/-- After both Shift keys were held, the left one alone no longer counts: the key `A` types a small
letter. -/
theorem bothShifts_forgotten :
    (¬ ∀ tr kb, Run Keyboard.Steps Keyboard.init tr kb → kb.FlagFaithful) ∧
      ¬ ∀ tr kb, Run Keyboard.Steps Keyboard.init tr kb →
        ∀ x ∈ tr, Keyboard.TypesFaithfully x := by
  have hrun : Run Keyboard.Steps Keyboard.init bothShifts ⟨false, {keyA, .lshift}⟩ :=
    .cons (by decide) <| .cons (by decide) <| .cons (by decide) <| .cons (by decide) (.nil _)
  refine ⟨fun h => ?_, fun h => ?_⟩
  · exact absurd ((h _ _ hrun).mpr (by decide)) Bool.false_ne_true
  · have htyped := h _ _ hrun _ (List.mem_of_getElem? (i := 3) rfl) keyA [] 0x1E 'a' 'A' rfl
      (List.forall_mem_nil _) rfl
    exact absurd (htyped.1.mpr (by decide)) (by decide)

/-- Print Screen alone makes the driver take the key `A` for a capital letter. -/
example : (Keyboard.receive false ([0xE0, 0x2A, 0xE0, 0x37] ++ [0x1E])).2 = ['A'] := rfl

end ZiranOS
