import ZiranOS.Lib.Exec

/-!
# Base64

The decoder behind the `load` command.  It reads the payload in groups of four symbols; `=` may
stand only in the last two positions of the last group, with no symbol after it.
-/

namespace ZiranOS

open ProgLib

/-- Why a payload was rejected. -/
inductive B64Error where
  | invalidChar
  | badLength
  deriving DecidableEq, Repr

/-- The padding symbol. -/
def b64Pad : UInt8 := 0x3D

/-- The value of a symbol; `none` for `=` and for any other byte. -/
def b64Val (c : UInt8) : Option UInt8 :=
  if 0x41 ≤ c ∧ c ≤ 0x5A then some (c - 0x41)
  else if 0x61 ≤ c ∧ c ≤ 0x7A then some (c - 0x61 + 26)
  else if 0x30 ≤ c ∧ c ≤ 0x39 then some (c - 0x30 + 52)
  else if c = 0x2B then some 62
  else if c = 0x2F then some 63
  else none

/-- Read the symbols of a group from position `j` on, with the number of pads before them; the
result is the values in order, `0` for a pad, and the number of pads. -/
def groupVals (last : Bool) : (j pad : ℕ) → List UInt8 → Except B64Error (List UInt8 × ℕ)
  | _, pad, [] => .ok ([], pad)
  | j, pad, c :: cs =>
    if c = b64Pad then
      if ¬ last ∨ j < 2 then .error .badLength
      else do
        let (vals, pad) ← groupVals last (j + 1) (pad + 1) cs
        .ok (0 :: vals, pad)
    else if pad ≠ 0 then .error .badLength
    else
      match b64Val c with
      | none => .error .invalidChar
      | some v => do
        let (vals, pad) ← groupVals last (j + 1) pad cs
        .ok (v :: vals, pad)

/-- The bytes of a group: three, less one for each pad. -/
def groupBytes (vals : List UInt8) (pad : ℕ) : List UInt8 :=
  let val (j : ℕ) := (vals.getD j 0).toNat
  let triple := val 0 <<< 18 ||| val 1 <<< 12 ||| val 2 <<< 6 ||| val 3
  UInt8.ofNat (triple >>> 16) ::
    ((if pad < 2 then [UInt8.ofNat (triple >>> 8)] else []) ++
      if pad < 1 then [UInt8.ofNat triple] else [])

/-- Decode the groups of four one after another. -/
def b64Groups : List UInt8 → Except B64Error (List UInt8)
  | c₀ :: c₁ :: c₂ :: c₃ :: rest => do
    let (vals, pad) ← groupVals rest.isEmpty 0 0 [c₀, c₁, c₂, c₃]
    let out ← b64Groups rest
    .ok (groupBytes vals pad ++ out)
  | _ => .ok []

/-- Decode standard base64. -/
def b64Decode (input : List UInt8) : Except B64Error (List UInt8) :=
  if input.length % 4 ≠ 0 then .error .badLength else b64Groups input

/-! ## Length of the decoded bytes -/

/-- Only the last group may have pads. -/
lemma groupVals_pad {j pad : ℕ} {cs vals : List UInt8} {pad' : ℕ}
    (h : groupVals false j pad cs = .ok (vals, pad')) : pad' = pad := by
  induction cs generalizing j vals with
  | nil =>
    obtain ⟨-, rfl⟩ := Prod.mk.inj (Except.ok.inj h)
    rfl
  | cons c cs ih =>
    rw [groupVals, if_pos (show ¬ (false = true) ∨ j < 2 from Or.inl (by decide))] at h
    split_ifs at h with hpad hzero
    cases hval : b64Val c with
    | none =>
      rw [hval] at h
      cases h
    | some v =>
      simp only [hval, Exec.bind_eq_ok] at h
      obtain ⟨x, hrest, hx⟩ := h
      obtain ⟨-, rfl⟩ := Prod.mk.inj (Except.ok.inj hx)
      exact ih hrest

/-- A group decodes to three bytes, or fewer if it has pads, but at least one. -/
lemma length_groupBytes (vals : List UInt8) (pad : ℕ) :
    1 ≤ (groupBytes vals pad).length ∧ (groupBytes vals pad).length ≤ 3 ∧
      (pad = 0 → (groupBytes vals pad).length = 3) := by
  simp only [groupBytes, List.length_cons, List.length_append]
  refine ⟨by omega, ?_, ?_⟩
  · split_ifs <;> simp
  · rintro rfl
    simp

/-- What is not a group and more is shorter than a group. -/
lemma length_lt_of_not_group {input : List UInt8}
    (hshort : ∀ c₀ c₁ c₂ c₃ rest, input = c₀ :: c₁ :: c₂ :: c₃ :: rest → False) :
    input.length < 4 := by
  match input, hshort with
  | [], _ | [_], _ | [_, _], _ | [_, _, _], _ => simp
  | c₀ :: c₁ :: c₂ :: c₃ :: rest, hshort => exact absurd rfl (hshort c₀ c₁ c₂ c₃ rest)

/-- Each group decodes to three bytes, the last one to at least one. -/
lemma b64Groups_length {input out : List UInt8} (h : b64Groups input = .ok out) :
    3 * (input.length / 4) ≤ out.length + 2 ∧ out.length ≤ 3 * (input.length / 4) := by
  induction input using b64Groups.induct generalizing out with
  | case1 c₀ c₁ c₂ c₃ rest ih =>
    simp only [b64Groups, Exec.bind_eq_ok] at h
    obtain ⟨x, hvals, out', hrest, hout⟩ := h
    obtain rfl := Except.ok.inj hout
    obtain ⟨hone, hle, hthree⟩ := length_groupBytes x.1 x.2
    obtain ⟨hlow, hhigh⟩ := ih hrest
    have hdiv : (c₀ :: c₁ :: c₂ :: c₃ :: rest).length / 4 = rest.length / 4 + 1 := by
      simp only [List.length_cons]
      omega
    rw [hdiv, List.length_append]
    cases rest with
    | nil =>
      simp only [List.length_nil] at hlow hhigh ⊢
      omega
    | cons c cs =>
      have := hthree (groupVals_pad hvals)
      omega
  | case2 input hshort =>
    have hlen := length_lt_of_not_group hshort
    rw [b64Groups] at h
    · obtain rfl := Except.ok.inj h
      simp only [List.length_nil]
      omega
    · exact hshort

end ZiranOS
