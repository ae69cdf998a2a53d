import Mathlib

/-!
# Strings

Strings are lists of characters, and the functions of this file are those of a string library:
trimming, splitting at white space, and the bytes of the UTF-8 encoding.
-/

namespace ProgLib

namespace Text

/-- The bytes of a string in UTF-8. -/
def utf8 (s : String) : List UInt8 := s.toList.flatMap String.utf8EncodeChar

/-- The bytes of a list of characters in UTF-8. -/
def encode (s : List Char) : List UInt8 := s.flatMap String.utf8EncodeChar

/-- The string with the given bytes in UTF-8, if they are one. -/
def fromUtf8 (bytes : List UInt8) : Option (List Char) :=
  if h : bytes.toByteArray.IsValidUTF8 then some (String.fromUTF8 bytes.toByteArray h).toList
  else none

/-- Decoding is the inverse of encoding. -/
lemma fromUtf8_encode (s : List Char) : fromUtf8 (encode s) = some s := by
  have hvalid : (encode s).toByteArray.IsValidUTF8 := .intro s rfl
  have hstring : String.fromUTF8 (encode s).toByteArray hvalid = String.ofList s := by
    rw [← String.toByteArray_inj, String.toByteArray_ofList]
    rfl
  rw [fromUtf8, dif_pos hvalid, hstring, String.toList_ofList]

/-- An ASCII character is one byte. -/
lemma encodeChar_of_lt {b : UInt8} (h : b < 0x80) :
    String.utf8EncodeChar (Char.ofNat b.toNat) = [b] := by
  have hlt : b.toNat < 0x80 := UInt8.lt_iff_toNat_lt.mp h
  have hval : (Char.ofNat b.toNat).val.toNat = b.toNat := by
    change (Char.ofNat b.toNat).toNat = b.toNat
    rw [Char.toNat_ofNat, if_pos (.inl (by omega))]
  rw [String.utf8EncodeChar, hval, if_pos (by omega), UInt8.ofNat_toNat]

/-- ASCII bytes encode the characters with their codes. -/
lemma encode_map_of_lt {bytes : List UInt8} (h : ∀ b ∈ bytes, b < 0x80) :
    encode (bytes.map fun b => Char.ofNat b.toNat) = bytes := by
  induction bytes with
  | nil => rfl
  | cons b bytes ih =>
    rw [List.forall_mem_cons] at h
    rw [encode, List.map_cons, List.flatMap_cons, encodeChar_of_lt h.1, ← encode, ih h.2,
      List.singleton_append]

/-- The characters with the Unicode property `White_Space`. -/
def isWhitespace (c : Char) : Bool :=
  let n := c.toNat
  (9 ≤ n && n ≤ 13) || n == 0x20 || n == 0x85 || n == 0xA0 || n == 0x1680 ||
    (0x2000 ≤ n && n ≤ 0x200A) || n == 0x2028 || n == 0x2029 || n == 0x202F || n == 0x205F ||
    n == 0x3000

/-- The string without its leading white space. -/
def trimStart (s : List Char) : List Char := s.dropWhile isWhitespace

/-- The string without its leading and its trailing white space. -/
def trim (s : List Char) : List Char := (trimStart (trimStart s).reverse).reverse

/-- The parts before and after the first character that satisfies `p`. -/
def splitOnce (p : Char → Bool) (s : List Char) : Option (List Char × List Char) :=
  match s.dropWhile fun c => !p c with
  | [] => none
  | _ :: rest => some (s.takeWhile fun c => !p c, rest)

/-- The first of the words that white space separates, or the empty string without a word. -/
def firstWord (s : List Char) : List Char := (trimStart s).takeWhile fun c => !isWhitespace c

/-- The first word does not depend on leading white space. -/
lemma firstWord_trimStart (s : List Char) : firstWord (trimStart s) = firstWord s := by
  unfold firstWord trimStart
  rw [List.dropWhile_idempotent]

/-- The first word does not depend on white space at the end. -/
lemma firstWord_append_of_forall (s : List Char) {tail : List Char}
    (h : ∀ c ∈ tail, isWhitespace c) : firstWord (s ++ tail) = firstWord s := by
  have htail : tail.takeWhile (fun c => !isWhitespace c) = [] := by
    cases tail with
    | nil => rfl
    | cons c tail => simp [h c List.mem_cons_self]
  unfold firstWord trimStart
  rw [List.dropWhile_append]
  split_ifs with hempty
  · rw [List.dropWhile_eq_nil_iff.mpr h, List.isEmpty_iff.mp hempty]
  · rw [List.takeWhile_append, htail, List.append_nil]
    split_ifs with hlen
    · exact ((List.takeWhile_prefix _).eq_of_length hlen).symm
    · rfl

/-- A string without white space is its own first word. -/
lemma firstWord_eq_self {s : List Char} (h : ∀ c ∈ s, ¬ isWhitespace c) : firstWord s = s := by
  have htrim : trimStart s = s := by
    cases s with
    | nil => rfl
    | cons c s => exact List.dropWhile_cons_of_neg (h c List.mem_cons_self)
  rw [firstWord, htrim, List.takeWhile_eq_self_iff]
  exact fun c hc => by simp [h c hc]

/-- The characters of the first word are characters of the string. -/
lemma firstWord_subset (s : List Char) : firstWord s ⊆ s :=
  List.Subset.trans (List.takeWhile_prefix _).subset (List.dropWhile_suffix _).subset

end Text

/-- The parts that a list is split into do not contain the separator. -/
lemma notMem_of_mem_splitOn {α : Type} [BEq α] [LawfulBEq α] {a : α} {xs part : List α}
    (h : part ∈ xs.splitOn a) : a ∉ part := by
  induction xs generalizing part with
  | nil =>
    rw [List.splitOn_nil, List.mem_singleton] at h
    exact h ▸ List.not_mem_nil
  | cons x xs ih =>
    rw [List.splitOn_cons_eq_if_modifyHead] at h
    split_ifs at h with hx
    · rcases List.mem_cons.mp h with rfl | h
      · exact List.not_mem_nil
      · exact ih h
    · obtain ⟨head, tail, hparts⟩ := List.exists_cons_of_ne_nil (List.splitOn_ne_nil a xs)
      rw [hparts] at h ih
      rcases List.mem_cons.mp h with rfl | h
      · refine List.not_mem_cons_of_ne_of_not_mem (fun heq => hx ?_) (ih List.mem_cons_self)
        rw [heq, beq_self_eq_true]
      · exact ih (List.mem_cons_of_mem _ h)

end ProgLib
