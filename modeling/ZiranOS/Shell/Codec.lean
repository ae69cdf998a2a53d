import Mathlib.Data.List.ModifyLast
import ZiranOS.Shell.Encode

/-!
# Which texts are base64

A text of base64 spells a list of sextets, followed by up to two pads, in whole groups of four.
These texts are exactly what the decoder accepts (`isOk_b64Decode_iff`).  The pads stand for bits
that no byte carries: two for one pad, four for two pads.  The decoder drops these bits of the last
sextet without looking at them, so encoding again gives the text back with these bits cleared
(`b64Encode_of_decode`).
-/

namespace ZiranOS

open ProgLib

/-- Sextets as symbols, and pads after them. -/
def spell (values : List ℕ) (pads : ℕ) : List UInt8 :=
  values.map b64Symbol ++ List.replicate pads b64Pad

/-- A number without its low bits. -/
def clearLow (bits v : ℕ) : ℕ := v / 2 ^ bits * 2 ^ bits

/-- The text consists of symbols of the alphabet and at most two pads at the end, in whole groups of
four. -/
structure IsBase64 (text symbols : List UInt8) (pads : ℕ) : Prop where
  /-- The pads stand at the end. -/
  text_eq : text = symbols ++ List.replicate pads b64Pad
  /-- All other characters are symbols. -/
  mem_symbols : ∀ c ∈ symbols, c ∈ b64Symbols
  /-- There are at most two pads. -/
  pads_le : pads ≤ 2
  /-- The groups are whole, so the pads belong to the last one. -/
  whole : text.length % 4 = 0

/-- The symbol with the bits cleared that the pads after it stand for. -/
def clearUnused (pads : ℕ) (c : UInt8) : UInt8 :=
  b64Symbol (clearLow (2 * pads) ((b64Val c).getD 0).toNat)

example : clearUnused 2 (b64Symbol 0x1F) = b64Symbol 0x10 := by decide

variable {values : List ℕ} {last : Bool} {cs vals : List UInt8}

/-! ## Symbols -/

/-- There are 64 symbols. -/
lemma length_b64Symbols : b64Symbols.length = 64 := by decide +kernel

/-- The ranges of the symbols. -/
lemma b64Val_bounds {c v : UInt8} (h : b64Val c = some v) :
    (v.toNat < 26 ∧ c.toNat = v.toNat + 0x41) ∨
    (26 ≤ v.toNat ∧ v.toNat < 52 ∧ c.toNat + 26 = v.toNat + 0x61) ∨
    (52 ≤ v.toNat ∧ v.toNat < 62 ∧ c.toNat + 52 = v.toNat + 0x30) ∨
    (v.toNat = 62 ∧ c.toNat = 0x2B) ∨ (v.toNat = 63 ∧ c.toNat = 0x2F) := by
  have hc := UInt8.toNat_lt c
  unfold b64Val at h
  simp only [UInt8.le_iff_toNat_le, ← UInt8.toNat_inj, UInt8.reduceToNat] at h
  split_ifs at h <;> obtain rfl := Option.some.inj h <;>
    simp only [UInt8.toNat_sub, UInt8.toNat_add, UInt8.reduceToNat, true_and] <;> omega

/-- A byte with a value is the symbol of that value. -/
lemma b64Symbol_b64Val {c v : UInt8} (h : b64Val c = some v) :
    v.toNat < 64 ∧ b64Symbol v.toNat = c := by
  have hbounds := b64Val_bounds h
  have hlt : v.toNat < 64 := by omega
  have hsymbol := (b64Val_b64Symbol v.toNat hlt).2
  rw [UInt8.ofNat_toNat] at hsymbol
  have hbounds' := b64Val_bounds hsymbol
  exact ⟨hlt, UInt8.toNat_inj.mp (by omega)⟩

/-- The symbols are those of the sextets. -/
lemma mem_b64Symbols_iff {c : UInt8} : c ∈ b64Symbols ↔ ∃ v < 64, b64Symbol v = c := by
  constructor
  · intro h
    obtain ⟨v, hv, rfl⟩ := List.mem_iff_getElem.mp h
    refine ⟨v, length_b64Symbols ▸ hv, ?_⟩
    rw [b64Symbol, List.getD_eq_getElem _ _ hv]
  · rintro ⟨v, hv, rfl⟩
    rw [← length_b64Symbols] at hv
    rw [b64Symbol, List.getD_eq_getElem _ _ hv]
    exact List.getElem_mem hv

/-- Symbols of the alphabet spell sextets. -/
lemma exists_values {symbols : List UInt8} (h : ∀ c ∈ symbols, c ∈ b64Symbols) :
    ∃ values : List ℕ, (∀ v ∈ values, v < 64) ∧ symbols = values.map b64Symbol := by
  induction symbols with
  | nil => exact ⟨[], by simp, rfl⟩
  | cons c symbols ih =>
    rw [List.forall_mem_cons] at h
    obtain ⟨v, hv, rfl⟩ := mem_b64Symbols_iff.mp h.1
    obtain ⟨values, hlt, rfl⟩ := ih h.2
    exact ⟨v :: values, List.forall_mem_cons.mpr ⟨hv, hlt⟩, rfl⟩

/-- Sextets are spelled with symbols of the alphabet. -/
lemma mem_b64Symbols_of_mem (h : ∀ v ∈ values, v < 64) :
    ∀ c ∈ values.map b64Symbol, c ∈ b64Symbols := by
  intro c hc
  obtain ⟨v, hv, rfl⟩ := List.mem_map.mp hc
  exact mem_b64Symbols_iff.mpr ⟨v, h v hv, rfl⟩

/-- Clearing the unused bits of a symbol clears those of its sextet. -/
lemma clearUnused_b64Symbol (pads : ℕ) {v : ℕ} (hv : v < 64) :
    clearUnused pads (b64Symbol v) = b64Symbol (clearLow (2 * pads) v) := by
  rw [clearUnused, (b64Val_b64Symbol v hv).2, Option.getD_some, UInt8.toNat_ofNat',
    Nat.mod_eq_of_lt (by omega)]

/-- Without pads no bit is cleared. -/
lemma clearLow_zero (v : ℕ) : clearLow 0 v = v := by
  rw [clearLow, Nat.pow_zero, Nat.div_one, Nat.mul_one]

/-! ## Reading a group -/

/-- Reading pads at the end of a group. -/
lemma groupVals_replicate {j : ℕ} (pad k : ℕ) (h : k = 0 ∨ last = true ∧ 2 ≤ j) :
    groupVals last j pad (List.replicate k b64Pad) = .ok (List.replicate k 0, pad + k) := by
  induction k generalizing j pad with
  | zero => rfl
  | succ k ih =>
    obtain ⟨rfl, hj⟩ := h.resolve_left (Nat.succ_ne_zero k)
    rw [List.replicate_succ, groupVals_pad_cons hj, ih _ (.inr ⟨rfl, by omega⟩), Exec.bind_ok,
      List.replicate_succ]
    congr 2
    omega

/-- **Reading a group** gives its sextets, and `0` for each pad. -/
lemma groupVals_spell {j : ℕ} (pads : ℕ) (hlt : ∀ v ∈ values, v < 64)
    (h : pads = 0 ∨ last = true ∧ 2 ≤ j + values.length) :
    groupVals last j 0 (spell values pads) =
      .ok (values.map UInt8.ofNat ++ List.replicate pads 0, pads) := by
  induction values generalizing j with
  | nil =>
    refine (groupVals_replicate 0 pads h).trans ?_
    rw [Nat.zero_add]
    rfl
  | cons v values ih =>
    rw [List.forall_mem_cons] at hlt
    obtain ⟨hpad, hval⟩ := b64Val_b64Symbol v hlt.1
    have hrest := ih (j := j + 1) hlt.2 (h.imp_right fun hlast => ⟨hlast.1, by
      have := hlast.2
      rw [List.length_cons] at this
      omega⟩)
    rw [spell] at hrest
    rw [spell, List.map_cons, List.cons_append, groupVals, if_neg hpad, if_neg (not_not.mpr rfl),
      hval]
    dsimp only
    rw [hrest]
    rfl

/-- After a pad only pads are accepted. -/
lemma eq_replicate_of_groupVals {j pad p : ℕ} (hpad : pad ≠ 0)
    (h : groupVals last j pad cs = .ok (vals, p)) : ∃ k, cs = List.replicate k b64Pad ∧
      p = pad + k := by
  induction cs generalizing j pad vals with
  | nil =>
    obtain ⟨-, rfl⟩ := Prod.mk.inj (Except.ok.inj h)
    exact ⟨0, rfl, rfl⟩
  | cons c cs ih =>
    rw [groupVals, if_pos hpad] at h
    split_ifs at h with hc hlast
    · obtain ⟨x, hrest, hx⟩ := Exec.bind_eq_ok.mp h
      obtain ⟨-, rfl⟩ := Prod.mk.inj (Except.ok.inj hx)
      obtain ⟨k, rfl, hk⟩ := ih (Nat.succ_ne_zero pad) hrest
      exact ⟨k + 1, by rw [hc, List.replicate_succ], by omega⟩

/-- **A group that is accepted** spells sextets, with pads only in the last group and not before its
third character. -/
lemma exists_spell_of_groupVals {j p : ℕ} (h : groupVals last j 0 cs = .ok (vals, p)) :
    ∃ values, (∀ v ∈ values, v < 64) ∧ cs = spell values p ∧
      (p = 0 ∨ last = true ∧ 2 ≤ j + values.length) := by
  induction cs generalizing j vals with
  | nil =>
    obtain ⟨-, rfl⟩ := Prod.mk.inj (Except.ok.inj h)
    exact ⟨[], by simp, rfl, .inl rfl⟩
  | cons c cs ih =>
    rw [groupVals, if_neg (not_not.mpr rfl)] at h
    split_ifs at h with hc hlast
    · -- the first pad of the group
      obtain ⟨x, hrest, hx⟩ := Exec.bind_eq_ok.mp h
      obtain ⟨-, rfl⟩ := Prod.mk.inj (Except.ok.inj hx)
      obtain ⟨k, rfl, hk⟩ := eq_replicate_of_groupVals (Nat.succ_ne_zero 0) hrest
      refine ⟨[], by simp, ?_, .inr ?_⟩
      · have hcount : x.2 = k + 1 := by omega
        rw [hc, hcount, spell, List.map_nil, List.nil_append, List.replicate_succ]
      · rwa [not_or, not_not, not_lt] at hlast
    · cases hval : b64Val c with
      | none =>
        rw [hval] at h
        cases h
      | some v =>
        simp only [hval, Exec.bind_eq_ok] at h
        obtain ⟨x, hrest, hx⟩ := h
        obtain ⟨-, rfl⟩ := Prod.mk.inj (Except.ok.inj hx)
        obtain ⟨hv, rfl⟩ := b64Symbol_b64Val hval
        obtain ⟨values, hlt, rfl, hpads⟩ := ih hrest
        refine ⟨v.toNat :: values, List.forall_mem_cons.mpr ⟨hv, hlt⟩, rfl, ?_⟩
        refine hpads.imp_right fun hlast => ⟨hlast.1, ?_⟩
        rw [List.length_cons]
        omega

/-! ## Encoding the bytes of a group again -/

/-- The symbols of a number, cut into sextets. -/
lemma encodeGroup_of_chunkNat {chunk : List UInt8} {v₀ v₁ v₂ v₃ : ℕ} (h₀ : v₀ < 64) (h₁ : v₁ < 64)
    (h₂ : v₂ < 64) (h₃ : v₃ < 64)
    (h : chunkNat chunk = v₀ * 2 ^ 18 + v₁ * 2 ^ 12 + v₂ * 2 ^ 6 + v₃) :
    encodeGroup chunk = [b64Symbol v₀, b64Symbol v₁,
      if chunk.length > 1 then b64Symbol v₂ else b64Pad,
      if chunk.length > 2 then b64Symbol v₃ else b64Pad] := by
  have e₀ : chunkNat chunk >>> 18 &&& 63 = v₀ := by rw [sextet_eq, h]; omega
  have e₁ : chunkNat chunk >>> 12 &&& 63 = v₁ := by rw [sextet_eq, h]; omega
  have e₂ : chunkNat chunk >>> 6 &&& 63 = v₂ := by rw [sextet_eq, h]; omega
  have e₃ : chunkNat chunk >>> 0 &&& 63 = v₃ := by rw [sextet_eq, h]; omega
  rw [encodeGroup_eq, e₀, e₁, e₂, e₃]

/-- The bytes of a group as bytes of one number. -/
lemma groupBytes_eq {v₀ v₁ v₂ v₃ : ℕ} (h₀ : v₀ < 64) (h₁ : v₁ < 64) (h₂ : v₂ < 64) (h₃ : v₃ < 64)
    (pad : ℕ) : groupBytes [.ofNat v₀, .ofNat v₁, .ofNat v₂, .ofNat v₃] pad =
      UInt8.ofNat ((v₀ * 2 ^ 18 + v₁ * 2 ^ 12 + v₂ * 2 ^ 6 + v₃) / 2 ^ 16) ::
        ((if pad < 2 then [UInt8.ofNat ((v₀ * 2 ^ 18 + v₁ * 2 ^ 12 + v₂ * 2 ^ 6 + v₃) / 2 ^ 8)]
          else []) ++
        if pad < 1 then [UInt8.ofNat (v₀ * 2 ^ 18 + v₁ * 2 ^ 12 + v₂ * 2 ^ 6 + v₃)] else []) := by
  set n := v₀ * 2 ^ 18 + v₁ * 2 ^ 12 + v₂ * 2 ^ 6 + v₃ with hn
  have e₀ : UInt8.ofNat v₀ = sextet n 18 := by rw [sextet]; congr 1; omega
  have e₁ : UInt8.ofNat v₁ = sextet n 12 := by rw [sextet]; congr 1; omega
  have e₂ : UInt8.ofNat v₂ = sextet n 6 := by rw [sextet]; congr 1; omega
  have e₃ : UInt8.ofNat v₃ = sextet n 0 := by rw [sextet]; congr 1; omega
  rw [e₀, e₁, e₂, e₃, groupBytes_sextets (by omega)]

/-- A whole group is its bytes encoded. -/
lemma encode_three {v₀ v₁ v₂ v₃ : ℕ} (h₀ : v₀ < 64) (h₁ : v₁ < 64) (h₂ : v₂ < 64) (h₃ : v₃ < 64) :
    ∃ b₀ b₁ b₂, groupBytes ([v₀, v₁, v₂, v₃].map UInt8.ofNat ++ List.replicate 0 0) 0 =
      [b₀, b₁, b₂] ∧ encodeGroup [b₀, b₁, b₂] = spell [v₀, v₁, v₂, v₃] 0 := by
  refine ⟨_, _, _, groupBytes_eq h₀ h₁ h₂ h₃ 0, ?_⟩
  refine (encodeGroup_of_chunkNat h₀ h₁ h₂ h₃ ?_).trans rfl
  simp only [chunkNat, List.getD_cons_zero, List.getD_cons_succ, UInt8.toNat_ofNat']
  omega

/-- A group with one pad is its bytes encoded, but for two bits. -/
lemma encode_two {v₀ v₁ v₂ : ℕ} (h₀ : v₀ < 64) (h₁ : v₁ < 64) (h₂ : v₂ < 64) :
    ∃ b₀ b₁, groupBytes ([v₀, v₁, v₂].map UInt8.ofNat ++ List.replicate 1 0) 1 = [b₀, b₁] ∧
      encodeGroup [b₀, b₁] = spell [v₀, v₁, clearLow 2 v₂] 1 := by
  have hzero : 0 < 64 := by norm_num
  have hclear : clearLow 2 v₂ < 64 := by unfold clearLow; omega
  refine ⟨_, _, groupBytes_eq h₀ h₁ h₂ hzero 1, ?_⟩
  refine (encodeGroup_of_chunkNat h₀ h₁ hclear hzero ?_).trans rfl
  simp only [chunkNat, List.getD_cons_zero, List.getD_cons_succ, List.getD_nil,
    UInt8.toNat_ofNat', UInt8.toNat_zero, clearLow]
  omega

/-- A group with two pads is its byte encoded, but for four bits. -/
lemma encode_one {v₀ v₁ : ℕ} (h₀ : v₀ < 64) (h₁ : v₁ < 64) :
    ∃ b₀, groupBytes ([v₀, v₁].map UInt8.ofNat ++ List.replicate 2 0) 2 = [b₀] ∧
      encodeGroup [b₀] = spell [v₀, clearLow 4 v₁] 2 := by
  have hzero : 0 < 64 := by norm_num
  have hclear : clearLow 4 v₁ < 64 := by unfold clearLow; omega
  refine ⟨_, groupBytes_eq h₀ h₁ hzero hzero 2, ?_⟩
  refine (encodeGroup_of_chunkNat h₀ hclear hzero hzero ?_).trans rfl
  simp only [chunkNat, List.getD_cons_zero, List.getD_cons_succ, List.getD_nil,
    UInt8.toNat_ofNat', UInt8.toNat_zero, clearLow]
  omega

/-! ## Texts -/

/-- Clearing the last of some sextets. -/
lemma modifyLast_cons_four (f : ℕ → ℕ) (v₀ v₁ v₂ v₃ : ℕ) {values : List ℕ}
    (h : values = [] → f v₃ = v₃) :
    (v₀ :: v₁ :: v₂ :: v₃ :: values).modifyLast f =
      v₀ :: v₁ :: v₂ :: v₃ :: values.modifyLast f := by
  by_cases hnil : values = []
  · subst hnil
    have hlast := List.modifyLast_concat f v₃ [v₀, v₁, v₂]
    rw [h rfl] at hlast
    exact hlast
  · exact List.modifyLast_append_of_right_ne_nil f [v₀, v₁, v₂, v₃] values hnil

/-- **Texts of base64 are decoded**, and encoded again they are the same but for the bits that the
pads stand for. -/
lemma exists_b64Groups_spell (pads : ℕ) (hpads : pads ≤ 2) : ∀ values : List ℕ,
    (∀ v ∈ values, v < 64) → (values.length + pads) % 4 = 0 →
    ∃ out, b64Groups (spell values pads) = .ok out ∧
      b64Encode out = spell (values.modifyLast (clearLow (2 * pads))) pads
  | [], _, hwhole => by
    obtain rfl : pads = 0 := by
      rw [List.length_nil] at hwhole
      omega
    exact ⟨[], rfl, rfl⟩
  | [_], _, hwhole => by
    rw [List.length_singleton] at hwhole
    omega
  | [v₀, v₁], hlt, hwhole => by
    obtain rfl : pads = 2 := by
      simp only [List.length_cons, List.length_nil] at hwhole
      omega
    obtain ⟨b₀, hbytes, hencode⟩ := encode_one (hlt v₀ (by simp)) (hlt v₁ (by simp))
    have hvals : groupVals true 0 0 (spell [v₀, v₁] 2) = _ :=
      groupVals_spell 2 hlt (.inr ⟨rfl, by simp⟩)
    have hgroups : b64Groups (spell [v₀, v₁] 2) = _ := b64Groups_group hvals rfl
    rw [hbytes] at hgroups
    have hlast := List.modifyLast_concat (clearLow 4) v₁ [v₀]
    exact ⟨[b₀], hgroups, hencode.trans (congrArg (spell · 2) hlast.symm)⟩
  | [v₀, v₁, v₂], hlt, hwhole => by
    obtain rfl : pads = 1 := by
      simp only [List.length_cons, List.length_nil] at hwhole
      omega
    obtain ⟨b₀, b₁, hbytes, hencode⟩ := encode_two (hlt v₀ (by simp)) (hlt v₁ (by simp))
      (hlt v₂ (by simp))
    have hvals : groupVals true 0 0 (spell [v₀, v₁, v₂] 1) = _ :=
      groupVals_spell 1 hlt (.inr ⟨rfl, by simp⟩)
    have hgroups : b64Groups (spell [v₀, v₁, v₂] 1) = _ := b64Groups_group hvals rfl
    rw [hbytes] at hgroups
    have hlast := List.modifyLast_concat (clearLow 2) v₂ [v₀, v₁]
    exact ⟨[b₀, b₁], hgroups, hencode.trans (congrArg (spell · 1) hlast.symm)⟩
  | v₀ :: v₁ :: v₂ :: v₃ :: values, hlt, hwhole => by
    simp only [List.forall_mem_cons] at hlt
    obtain ⟨h₀, h₁, h₂, h₃, hlt⟩ := hlt
    simp only [List.length_cons] at hwhole
    obtain ⟨out, hrest, hout⟩ := exists_b64Groups_spell pads hpads values hlt (by omega)
    obtain ⟨b₀, b₁, b₂, hbytes, hencode⟩ := encode_three h₀ h₁ h₂ h₃
    have hvals : groupVals (spell values pads).isEmpty 0 0 (spell [v₀, v₁, v₂, v₃] 0) = _ :=
      groupVals_spell 0 (by simp [h₀, h₁, h₂, h₃]) (.inl rfl)
    have hgroups := b64Groups_group hvals hrest
    rw [hbytes] at hgroups
    refine ⟨b₀ :: b₁ :: b₂ :: out, hgroups, ?_⟩
    -- the last group has no pads if it is whole
    have hlast : values = [] → clearLow (2 * pads) v₃ = v₃ := by
      rintro rfl
      obtain rfl : pads = 0 := by
        rw [List.length_nil] at hwhole
        omega
      exact clearLow_zero v₃
    rw [b64Encode, hencode, hout, modifyLast_cons_four _ _ _ _ _ hlast]
    rfl

/-- **A text that is decoded** is one of base64. -/
lemma exists_spell_of_b64Groups {text out : List UInt8} (hwhole : text.length % 4 = 0)
    (h : b64Groups text = .ok out) : ∃ values pads, (∀ v ∈ values, v < 64) ∧ pads ≤ 2 ∧
      text = spell values pads := by
  induction text using b64Groups.induct generalizing out with
  | case1 c₀ c₁ c₂ c₃ rest ih =>
    simp only [b64Groups, Exec.bind_eq_ok] at h
    obtain ⟨⟨vals, pad⟩, hvals, out', hrest, -⟩ := h
    simp only [List.length_cons] at hwhole
    obtain ⟨values, hlt, hgroup, hpad⟩ := exists_spell_of_groupVals hvals
    have hcount : values.length + pad = 4 := by
      have := congrArg List.length hgroup
      simp only [spell, List.length_cons, List.length_nil, List.length_append, List.length_map,
        List.length_replicate] at this
      omega
    obtain ⟨values', pads', hlt', hpads', htext⟩ := ih (by omega) hrest
    rcases hpad with rfl | ⟨hlast, hpos⟩
    · refine ⟨values ++ values', pads', ?_, hpads', ?_⟩
      · rw [List.forall_mem_append]
        exact ⟨hlt, hlt'⟩
      · have hsymbols : [c₀, c₁, c₂, c₃] = values.map b64Symbol :=
          hgroup.trans (List.append_nil _)
        rw [htext, spell, spell, List.map_append, List.append_assoc, ← hsymbols]
        rfl
    · refine ⟨values, pad, hlt, by omega, ?_⟩
      rw [List.isEmpty_iff] at hlast
      rw [hlast]
      exact hgroup
  | case2 text hshort =>
    have hlen := length_lt_of_not_group hshort
    have hnil : text = [] := List.eq_nil_of_length_eq_zero (by omega)
    exact ⟨[], 0, by simp, by omega, hnil⟩

/-- **What the decoder accepts** are the texts of base64. -/
theorem isOk_b64Decode_iff (text : List UInt8) :
    (∃ out, b64Decode text = .ok out) ↔ ∃ symbols pads, IsBase64 text symbols pads := by
  constructor
  · rintro ⟨out, h⟩
    unfold b64Decode at h
    split_ifs at h with hwhole
    rw [not_not] at hwhole
    obtain ⟨values, pads, hlt, hpads, htext⟩ := exists_spell_of_b64Groups hwhole h
    exact ⟨values.map b64Symbol, pads, htext, mem_b64Symbols_of_mem hlt, hpads, hwhole⟩
  · rintro ⟨symbols, pads, hbase⟩
    obtain ⟨values, hlt, rfl⟩ := exists_values hbase.mem_symbols
    have hwhole := hbase.whole
    obtain ⟨out, hout, -⟩ := exists_b64Groups_spell pads hbase.pads_le values hlt (by
      rw [hbase.text_eq] at hwhole
      simpa using hwhole)
    refine ⟨out, ?_⟩
    rw [b64Decode, if_neg (not_not.mpr hwhole), hbase.text_eq]
    exact hout

/-- Encoding a decoded text gives the text back, with the bits of the last symbol cleared that the
pads stand for. -/
theorem b64Encode_of_decode {text symbols out : List UInt8} {pads : ℕ}
    (hbase : IsBase64 text symbols pads) (h : b64Decode text = .ok out) :
    b64Encode out = symbols.modifyLast (clearUnused pads) ++ List.replicate pads b64Pad := by
  obtain ⟨values, hlt, rfl⟩ := exists_values hbase.mem_symbols
  have hwhole := hbase.whole
  rw [b64Decode, if_neg (not_not.mpr hwhole), hbase.text_eq] at h
  obtain ⟨out', hout, hencode⟩ := exists_b64Groups_spell pads hbase.pads_le values hlt (by
    rw [hbase.text_eq] at hwhole
    simpa using hwhole)
  obtain rfl := Except.ok.inj (h.symm.trans hout)
  rw [hencode, spell]
  congr 1
  rcases List.eq_nil_or_concat values with rfl | ⟨values, v, rfl⟩
  · rfl
  · rw [List.concat_eq_append, List.modifyLast_concat, List.map_append, List.map_append,
      List.map_singleton, List.map_singleton, List.modifyLast_concat,
      clearUnused_b64Symbol _ (hlt v (by simp))]

/-- **The codec is exact.**  Decoding undoes encoding; the decoder accepts a text if and only if it
consists of whole groups of symbols, the last of which may end in one or two pads; and encoding
what was decoded gives the text back, except that the two or four bits of the last symbol that no
byte carries are cleared. -/
theorem base64_exact :
    (∀ x, b64Decode (b64Encode x) = .ok x) ∧
    (∀ y, (∃ x, b64Decode y = .ok x) ↔ ∃ symbols pads, IsBase64 y symbols pads) ∧
    ∀ y x symbols pads, b64Decode y = .ok x → IsBase64 y symbols pads →
      b64Encode x = symbols.modifyLast (clearUnused pads) ++ List.replicate pads b64Pad :=
  ⟨b64Decode_b64Encode, isOk_b64Decode_iff, fun _ _ _ _ h hbase => b64Encode_of_decode hbase h⟩

/-- The text `WlJGAR==`; the last symbol has a bit set that its pads stand for. -/
def paddedText : List UInt8 := [0x57, 0x6C, 0x4A, 0x47, 0x41, 0x52, 0x3D, 0x3D]

/-- It decodes to the three letters and a byte, and these are encoded with the bit cleared, as
`WlJGAQ==`. -/
theorem base64_exact_paddedText :
    b64Decode paddedText = .ok [0x5A, 0x52, 0x46, 1] ∧
      b64Encode [0x5A, 0x52, 0x46, 1] = [0x57, 0x6C, 0x4A, 0x47, 0x41, 0x51, 0x3D, 0x3D] := by
  have hdecode : b64Decode paddedText = .ok [0x5A, 0x52, 0x46, 1] := by decide
  have hbase : IsBase64 paddedText [0x57, 0x6C, 0x4A, 0x47, 0x41, 0x52] 2 :=
    ⟨rfl, by decide +kernel, le_rfl, rfl⟩
  exact ⟨hdecode, (base64_exact.2.2 _ _ _ _ hdecode hbase).trans (by decide +kernel)⟩

end ZiranOS
