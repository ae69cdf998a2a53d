import ZiranOS.Lib.Text

/-!
# Decoding of UTF-8 with replacement

`fromUtf8Lossy` decodes any bytes: a well-formed character is kept, and every longest part of the
rest that is the beginning of a character, or a single byte, is replaced by `U+FFFD`.  On the
encoding of a string it is the string (`fromUtf8Lossy_encode`).
-/

namespace ProgLib

namespace Text

/-- A continuation byte. -/
def isContinuation (b : UInt8) : Bool := 0x80 ≤ b && b ≤ 0xBF

/-- A byte that may follow the first byte of a character of three or four bytes. -/
def isSecond (first b : UInt8) : Bool :=
  (first == 0xE0 && 0xA0 ≤ b && b ≤ 0xBF) || (first == 0xED && 0x80 ≤ b && b ≤ 0x9F) ||
    (0xE1 ≤ first && first ≤ 0xEF && first != 0xED && isContinuation b) ||
    (first == 0xF0 && 0x90 ≤ b && b ≤ 0xBF) ||
    (0xF1 ≤ first && first ≤ 0xF3 && isContinuation b) ||
    (first == 0xF4 && 0x80 ≤ b && b ≤ 0x8F)

/-- The number of bytes that one replacement stands for, before bytes that are no character. -/
def invalidLen : List UInt8 → ℕ
  | b₀ :: b₁ :: b₂ :: _ =>
    if !isSecond b₀ b₁ then 1 else if 0xF0 ≤ b₀ && isContinuation b₂ then 3 else 2
  | [b₀, b₁] => if isSecond b₀ b₁ then 2 else 1
  | _ => 1

/-- Decode at most `n` characters or replacements. -/
def lossyChars : ℕ → List UInt8 → List Char
  | 0, _ => []
  | _, [] => []
  | n + 1, bytes =>
    match bytes.toByteArray.utf8DecodeChar? 0 with
    | some c => c :: lossyChars n (bytes.drop c.utf8Size)
    | none => '\uFFFD' :: lossyChars n (bytes.drop (invalidLen bytes))

/-- Decode bytes as UTF-8, with replacements for what is not UTF-8. -/
def fromUtf8Lossy (bytes : List UInt8) : List Char := lossyChars bytes.length bytes

/-- The encoding of a string begins with that of its first character. -/
lemma encode_cons (c : Char) (s : List Char) :
    encode (c :: s) = String.utf8EncodeChar c ++ encode s := rfl

/-- Every character of a string has at least one byte. -/
lemma length_le_encode (s : List Char) : s.length ≤ (encode s).length := by
  induction s with
  | nil => exact le_rfl
  | cons c s ih =>
    have hpos := c.utf8Size_pos
    rw [encode_cons, List.length_append, String.length_utf8EncodeChar, List.length_cons]
    omega

/-- The first character of an encoded string. -/
lemma decodeChar_encode_cons (c : Char) (s : List Char) :
    (encode (c :: s)).toByteArray.utf8DecodeChar? 0 = some c := by
  rw [encode_cons, List.toByteArray_append]
  exact ByteArray.utf8DecodeChar?_utf8EncodeChar_append

/-- Decoding an encoded string, character by character. -/
lemma lossyChars_encode {n : ℕ} {s : List Char} (h : s.length ≤ n) :
    lossyChars n (encode s) = s := by
  induction n generalizing s with
  | zero => rw [List.length_eq_zero_iff.mp (Nat.le_zero.mp h), lossyChars]
  | succ n ih =>
    cases s with
    | nil => rfl
    | cons c s =>
      have hne : encode (c :: s) ≠ [] := by
        have hlen := length_le_encode (c :: s)
        intro hnil
        rw [hnil] at hlen
        simp at hlen
      rw [lossyChars.eq_3 _ n hne]
      simp only [decodeChar_encode_cons]
      rw [encode_cons, List.drop_left' (String.length_utf8EncodeChar c),
        ih (Nat.le_of_succ_le_succ h)]

/-- **Decoding an encoded string** gives the string back. -/
lemma fromUtf8Lossy_encode (s : List Char) : fromUtf8Lossy (encode s) = s :=
  lossyChars_encode (length_le_encode s)

/-- Only NUL has a zero byte in its encoding. -/
lemma zero_notMem_encodeChar {c : Char} (h : c ≠ '\x00') : 0 ∉ String.utf8EncodeChar c := by
  have hval : c.val.toNat ≠ 0 := fun hzero => h (Char.ext (UInt32.toNat_inj.mp hzero))
  have hbyte : ∀ n : ℕ, n % 256 ≠ 0 → (0 : UInt8) ≠ UInt8.ofNat n := by
    intro n hn heq
    exact hn (by rw [← UInt8.toNat_ofNat', ← heq]; rfl)
  unfold String.utf8EncodeChar
  dsimp only
  split_ifs with h1 h2 h3 <;> simp only [List.mem_cons, List.not_mem_nil, or_false, not_or]
  · exact hbyte _ (by omega)
  -- every byte of a longer encoding has its top bit set
  · exact ⟨hbyte _ (by omega), hbyte _ (by omega)⟩
  · exact ⟨hbyte _ (by omega), hbyte _ (by omega), hbyte _ (by omega)⟩
  · exact ⟨hbyte _ (by omega), hbyte _ (by omega), hbyte _ (by omega), hbyte _ (by omega)⟩

/-- A string without NUL has no zero byte in its encoding. -/
lemma zero_notMem_encode {s : List Char} (h : '\x00' ∉ s) : 0 ∉ encode s := by
  rw [encode, List.mem_flatMap]
  rintro ⟨c, hc, hzero⟩
  exact zero_notMem_encodeChar (fun heq => h (heq ▸ hc)) hzero

end Text

end ProgLib
