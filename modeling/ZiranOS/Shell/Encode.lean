import ZiranOS.Lib.Text
import ZiranOS.Shell.Base64

/-!
# The base64 encoder

The encoder writes four symbols for every three bytes and fills the last group with pads.  The
decoder undoes it (`b64Decode_b64Encode`): the sextets of a group are put together to the number
that they were cut from.
-/

namespace ZiranOS

open ProgLib

/-- The symbols in the order of their values. -/
def b64Symbols : List UInt8 :=
  Text.utf8 "ABCDEFGHIJKLMNOPQRSTUVWXYZabcdefghijklmnopqrstuvwxyz0123456789+/"

/-- The symbol of a value. -/
def b64Symbol (v : ℕ) : UInt8 := b64Symbols.getD v 0

/-- The symbols of a chunk of up to three bytes. -/
def encodeGroup (chunk : List UInt8) : List UInt8 :=
  let n := (chunk.getD 0 0).toNat <<< 16 ||| (chunk.getD 1 0).toNat <<< 8 ||| (chunk.getD 2 0).toNat
  [b64Symbol (n >>> 18 &&& 63), b64Symbol (n >>> 12 &&& 63),
    if chunk.length > 1 then b64Symbol (n >>> 6 &&& 63) else b64Pad,
    if chunk.length > 2 then b64Symbol (n &&& 63) else b64Pad]

/-- Encode bytes as standard base64. -/
def b64Encode : List UInt8 → List UInt8
  | [] => []
  | [b₀] => encodeGroup [b₀]
  | [b₀, b₁] => encodeGroup [b₀, b₁]
  | b₀ :: b₁ :: b₂ :: rest => encodeGroup [b₀, b₁, b₂] ++ b64Encode rest

/-! ## Numbers of a group -/

/-- Three bytes as one number. -/
lemma bytes_or {a b c : ℕ} (hb : b < 2 ^ 8) (hc : c < 2 ^ 8) :
    a <<< 16 ||| b <<< 8 ||| c = a * 2 ^ 16 + b * 2 ^ 8 + c := by
  have hinner : b <<< 8 ||| c = b * 2 ^ 8 + c := by
    rw [← Nat.shiftLeft_add_eq_or_of_lt hc, Nat.shiftLeft_eq]
  rw [Nat.or_assoc, hinner, ← Nat.shiftLeft_add_eq_or_of_lt (by omega), Nat.shiftLeft_eq, add_assoc]

/-- Four sextets as one number. -/
lemma sextets_or {a b c d : ℕ} (hb : b < 2 ^ 6) (hc : c < 2 ^ 6) (hd : d < 2 ^ 6) :
    a <<< 18 ||| b <<< 12 ||| c <<< 6 ||| d = a * 2 ^ 18 + b * 2 ^ 12 + c * 2 ^ 6 + d := by
  have hcd : c <<< 6 ||| d = c * 2 ^ 6 + d := by
    rw [← Nat.shiftLeft_add_eq_or_of_lt hd, Nat.shiftLeft_eq]
  have hbcd : b <<< 12 ||| (c * 2 ^ 6 + d) = b * 2 ^ 12 + (c * 2 ^ 6 + d) := by
    rw [← Nat.shiftLeft_add_eq_or_of_lt (by omega), Nat.shiftLeft_eq]
  rw [Nat.or_assoc, Nat.or_assoc, hcd, hbcd, ← Nat.shiftLeft_add_eq_or_of_lt (by omega),
    Nat.shiftLeft_eq, add_assoc, add_assoc]

/-- A sextet of a number. -/
lemma sextet_eq (n k : ℕ) : n >>> k &&& 63 = n / 2 ^ k % 2 ^ 6 := by
  rw [Nat.shiftRight_eq_div_pow]
  exact Nat.and_two_pow_sub_one_eq_mod _ 6

/-- The sextet of a number, as a byte. -/
def sextet (n k : ℕ) : UInt8 := UInt8.ofNat (n / 2 ^ k % 2 ^ 6)

/-- The byte of a sextet is its number. -/
lemma toNat_sextet (n k : ℕ) : (sextet n k).toNat = n / 2 ^ k % 2 ^ 6 := by
  unfold sextet
  rw [UInt8.toNat_ofNat']
  omega

/-- **The bytes of a group** are the bytes of the number that its sextets are cut from. -/
lemma groupBytes_sextets {n : ℕ} (hn : n < 2 ^ 24) (pad : ℕ) :
    groupBytes [sextet n 18, sextet n 12, sextet n 6, sextet n 0] pad =
      UInt8.ofNat (n / 2 ^ 16) :: ((if pad < 2 then [UInt8.ofNat (n / 2 ^ 8)] else []) ++
        if pad < 1 then [UInt8.ofNat n] else []) := by
  have htriple : (sextet n 18).toNat <<< 18 ||| (sextet n 12).toNat <<< 12 |||
      (sextet n 6).toNat <<< 6 ||| (sextet n 0).toNat = n := by
    simp only [toNat_sextet]
    rw [sextets_or (by omega) (by omega) (by omega)]
    omega
  unfold groupBytes
  simp only [List.getD_cons_zero, List.getD_cons_succ, htriple, Nat.shiftRight_eq_div_pow]

/-! ## Decoding a group -/

/-- The value of a symbol. -/
lemma b64Val_b64Symbol : ∀ v < 64,
    b64Symbol v ≠ b64Pad ∧ b64Val (b64Symbol v) = some (.ofNat v) := by
  decide +kernel

/-- Reading the sextet of a number. -/
lemma groupVals_sextet (last : Bool) (j n k : ℕ) (cs : List UInt8) :
    groupVals last j 0 (b64Symbol (n >>> k &&& 63) :: cs) =
      groupVals last (j + 1) 0 cs >>= fun x => .ok (sextet n k :: x.1, x.2) := by
  have hlt : n / 2 ^ k % 2 ^ 6 < 64 := Nat.mod_lt _ (by norm_num)
  obtain ⟨hpad, hval⟩ := b64Val_b64Symbol _ hlt
  rw [sextet_eq, groupVals, if_neg hpad, if_neg (not_not.mpr rfl), hval]
  rfl

/-- Reading a pad at the end of the last group. -/
lemma groupVals_pad_cons {j : ℕ} (hj : 2 ≤ j) (pad : ℕ) (cs : List UInt8) :
    groupVals true j pad (b64Pad :: cs) =
      groupVals true (j + 1) (pad + 1) cs >>= fun x => .ok (0 :: x.1, x.2) := by
  rw [groupVals, if_pos rfl, if_neg (by simp; omega)]

/-- The number of a chunk. -/
def chunkNat (chunk : List UInt8) : ℕ :=
  (chunk.getD 0 0).toNat * 2 ^ 16 + (chunk.getD 1 0).toNat * 2 ^ 8 + (chunk.getD 2 0).toNat

/-- The symbols of a chunk are those of the sextets of its number, and pads. -/
lemma encodeGroup_eq (chunk : List UInt8) :
    encodeGroup chunk = [b64Symbol (chunkNat chunk >>> 18 &&& 63),
      b64Symbol (chunkNat chunk >>> 12 &&& 63),
      if chunk.length > 1 then b64Symbol (chunkNat chunk >>> 6 &&& 63) else b64Pad,
      if chunk.length > 2 then b64Symbol (chunkNat chunk >>> 0 &&& 63) else b64Pad] := by
  have hor := bytes_or (a := (chunk.getD 0 0).toNat) (UInt8.toNat_lt (chunk.getD 1 0))
    (UInt8.toNat_lt (chunk.getD 2 0))
  unfold encodeGroup chunkNat
  rw [hor]
  rfl

/-- The number of a chunk has 24 bits. -/
lemma chunkNat_lt (chunk : List UInt8) : chunkNat chunk < 2 ^ 24 := by
  have h₀ := UInt8.toNat_lt (chunk.getD 0 0)
  have h₁ := UInt8.toNat_lt (chunk.getD 1 0)
  have h₂ := UInt8.toNat_lt (chunk.getD 2 0)
  unfold chunkNat
  omega

/-- A sextet without bits. -/
lemma sextet_eq_zero {n k : ℕ} (h : n / 2 ^ k % 2 ^ 6 = 0) : sextet n k = 0 := by
  unfold sextet
  rw [h]
  rfl

/-- A byte from its number. -/
lemma ofNat_eq {n : ℕ} {b : UInt8} (h : n % 2 ^ 8 = b.toNat) : UInt8.ofNat n = b := by
  apply UInt8.toNat_inj.mp
  rw [UInt8.toNat_ofNat', h]

/-- **The sextets of a chunk** make up its bytes. -/
lemma groupBytes_chunk (chunk : List UInt8) (pad : ℕ) :
    groupBytes [sextet (chunkNat chunk) 18, sextet (chunkNat chunk) 12,
        sextet (chunkNat chunk) 6, sextet (chunkNat chunk) 0] pad =
      chunk.getD 0 0 :: ((if pad < 2 then [chunk.getD 1 0] else []) ++
        if pad < 1 then [chunk.getD 2 0] else []) := by
  have h₀ := UInt8.toNat_lt (chunk.getD 0 0)
  have h₁ := UInt8.toNat_lt (chunk.getD 1 0)
  have h₂ := UInt8.toNat_lt (chunk.getD 2 0)
  rw [groupBytes_sextets (chunkNat_lt chunk)]
  unfold chunkNat
  rw [ofNat_eq (b := chunk.getD 0 0) (by omega), ofNat_eq (b := chunk.getD 1 0) (by omega),
    ofNat_eq (b := chunk.getD 2 0) (by omega)]

/-- A group without pads. -/
lemma decode_three (last : Bool) (b₀ b₁ b₂ : UInt8) :
    ∃ vals, groupVals last 0 0 (encodeGroup [b₀, b₁, b₂]) = .ok (vals, 0) ∧
      groupBytes vals 0 = [b₀, b₁, b₂] := by
  refine ⟨_, ?_, groupBytes_chunk [b₀, b₁, b₂] 0⟩
  rw [encodeGroup_eq, if_pos (by simp), if_pos (by simp), groupVals_sextet, groupVals_sextet,
    groupVals_sextet, groupVals_sextet]
  rfl

/-- A group with one pad. -/
lemma decode_two (b₀ b₁ : UInt8) :
    ∃ vals, groupVals true 0 0 (encodeGroup [b₀, b₁]) = .ok (vals, 1) ∧
      groupBytes vals 1 = [b₀, b₁] := by
  have hlast : sextet (chunkNat [b₀, b₁]) 0 = 0 := sextet_eq_zero (by simp [chunkNat]; omega)
  refine ⟨_, ?_, groupBytes_chunk [b₀, b₁] 1⟩
  rw [encodeGroup_eq, if_pos (by simp), if_neg (by simp), groupVals_sextet, groupVals_sextet,
    groupVals_sextet, groupVals_pad_cons (by norm_num), hlast]
  rfl

/-- A group with two pads. -/
lemma decode_one (b₀ : UInt8) :
    ∃ vals, groupVals true 0 0 (encodeGroup [b₀]) = .ok (vals, 2) ∧
      groupBytes vals 2 = [b₀] := by
  have hthird : sextet (chunkNat [b₀]) 6 = 0 := sextet_eq_zero (by simp [chunkNat]; omega)
  have hlast : sextet (chunkNat [b₀]) 0 = 0 := sextet_eq_zero (by simp [chunkNat]; omega)
  refine ⟨_, ?_, groupBytes_chunk [b₀] 2⟩
  rw [encodeGroup_eq, if_neg (by simp), if_neg (by simp), groupVals_sextet, groupVals_sextet,
    groupVals_pad_cons le_rfl, groupVals_pad_cons (by norm_num), hthird, hlast]
  rfl

/-! ## The round trip -/

/-- Decoding a group and what follows it. -/
lemma b64Groups_group {c₀ c₁ c₂ c₃ : UInt8} {rest vals out : List UInt8} {pad : ℕ}
    (hvals : groupVals rest.isEmpty 0 0 [c₀, c₁, c₂, c₃] = .ok (vals, pad))
    (hrest : b64Groups rest = .ok out) :
    b64Groups (c₀ :: c₁ :: c₂ :: c₃ :: rest) = .ok (groupBytes vals pad ++ out) := by
  rw [b64Groups, hvals, Exec.bind_ok]
  dsimp only
  rw [hrest, Exec.bind_ok]

/-- Decoding an encoded group and what follows it. -/
lemma b64Groups_append {chunk vals out : List UInt8} {pad : ℕ} (rest : List UInt8)
    (hvals : groupVals rest.isEmpty 0 0 (encodeGroup chunk) = .ok (vals, pad))
    (hrest : b64Groups rest = .ok out) :
    b64Groups (encodeGroup chunk ++ rest) = .ok (groupBytes vals pad ++ out) := by
  unfold encodeGroup at hvals ⊢
  exact b64Groups_group hvals hrest

/-- The groups of encoded bytes decode to the bytes. -/
lemma b64Groups_b64Encode (x : List UInt8) : b64Groups (b64Encode x) = .ok x := by
  induction x using b64Encode.induct with
  | case1 => rfl
  | case2 b₀ =>
    obtain ⟨vals, hvals, hbytes⟩ := decode_one b₀
    have hgroup := b64Groups_append [] hvals rfl
    rwa [List.append_nil, List.append_nil, hbytes] at hgroup
  | case3 b₀ b₁ =>
    obtain ⟨vals, hvals, hbytes⟩ := decode_two b₀ b₁
    have hgroup := b64Groups_append [] hvals rfl
    rwa [List.append_nil, List.append_nil, hbytes] at hgroup
  | case4 b₀ b₁ b₂ rest ih =>
    obtain ⟨vals, hvals, hbytes⟩ := decode_three (b64Encode rest).isEmpty b₀ b₁ b₂
    rw [b64Encode, b64Groups_append _ hvals ih, hbytes]
    rfl

/-- A group has four symbols. -/
lemma length_encodeGroup (chunk : List UInt8) : (encodeGroup chunk).length = 4 := by
  unfold encodeGroup
  simp only [List.length_cons, List.length_nil]

/-- The encoded bytes are whole groups, one for each three bytes begun. -/
lemma length_b64Encode (x : List UInt8) : (b64Encode x).length = 4 * ((x.length + 2) / 3) := by
  induction x using b64Encode.induct with
  | case1 => rfl
  | case2 b₀ => rw [b64Encode, length_encodeGroup, List.length_singleton]
  | case3 b₀ b₁ =>
    rw [b64Encode, length_encodeGroup]
    simp only [List.length_cons, List.length_nil]
  | case4 b₀ b₁ b₂ rest ih =>
    rw [b64Encode, List.length_append, ih, length_encodeGroup]
    simp only [List.length_cons]
    omega

/-- **Decoding undoes encoding.** -/
lemma b64Decode_b64Encode (x : List UInt8) : b64Decode (b64Encode x) = .ok x := by
  have hlen := length_b64Encode x
  rw [b64Decode, if_neg (by omega), b64Groups_b64Encode]

end ZiranOS
