import ZiranOS.Lib.Cpu

/-!
# Stores of bytes and double words

Narrow stores into the memory of `Lib/Cpu`.  A store changes its own bytes only (`eqOn_write32`,
`eqOn_write8`); a double word that was stored is read back (`read32_write32`), and the word at its
address has it as its low half (`read64_write32`).
-/

namespace ProgLib

/-- Two spans after one address, of which one ends before the other starts. -/
lemma span_add_add_disjoint {a : Word} {k n l p : ℕ} (h : k + n ≤ l) (h' : l + p < 2 ^ 64) :
    Disjoint (span (a + BitVec.ofNat 64 k) n) (span (a + BitVec.ofNat 64 l) p) := by
  have hadd : a + BitVec.ofNat 64 l = a + BitVec.ofNat 64 k + BitVec.ofNat 64 (l - k) := by
    rw [BitVec.add_assoc, ← BitVec.ofNat_add, Nat.add_sub_of_le (by omega)]
  have hsub : (a + BitVec.ofNat 64 l - (a + BitVec.ofNat 64 k)).toNat = l - k := by
    rw [hadd, add_sub_cancel_left, BitVec.toNat_ofNat, Nat.mod_eq_of_lt (by omega)]
  exact span_disjoint (by omega) (by omega)

namespace Memory

variable {m : Memory} {a : Word} {s : Set Word}

/-- The little-endian double word at an address. -/
def read32 (m : Memory) (a : Word) : BitVec 32 := m (a + 3) ++ m (a + 2) ++ m (a + 1) ++ m a

/-- Store a double word at an address. -/
def write32 (m : Memory) (a : Word) (v : BitVec 32) : Memory := fun x =>
  if x ∈ span a 4 then v.extractLsb' (8 * (x - a).toNat) 8 else m x

/-- Store a byte at an address. -/
def write8 (m : Memory) (a : Word) (v : BitVec 8) : Memory := Function.update m a v

/-- A store of a double word changes its four bytes only. -/
lemma eqOn_write32 {v : BitVec 32} (h : Disjoint s (span a 4)) :
    Set.EqOn (m.write32 a v) m s := by
  intro x hx
  rw [write32, if_neg (Set.disjoint_left.mp h hx)]

/-- A store of a byte changes that byte only. -/
lemma eqOn_write8 {v : BitVec 8} (h : a ∉ s) : Set.EqOn (m.write8 a v) m s := fun _ hx =>
  Function.update_of_ne (ne_of_mem_of_not_mem hx h) _ _

/-- The bytes of a double word that was stored. -/
lemma write32_apply (m : Memory) (a : Word) (v : BitVec 32) {k : Word} (hk : k.toNat < 4) :
    m.write32 a v (a + k) = v.extractLsb' (8 * k.toNat) 8 := by
  have hsub : a + k - a = k := add_sub_cancel_left a k
  rw [write32, if_pos (mem_span.mpr (by rwa [hsub])), hsub]

/-- A double word is read back. -/
lemma read32_write32 (m : Memory) (a : Word) (v : BitVec 32) : (m.write32 a v).read32 a = v := by
  have hbyte₀ : m.write32 a v a = v.extractLsb' 0 8 := by
    simpa using write32_apply m a v (k := 0) (by decide)
  have happend : ∀ i n : ℕ,
      v.extractLsb' (i + 8) n ++ v.extractLsb' i 8 = v.extractLsb' i (n + 8) :=
    fun _ _ => BitVec.extractLsb'_append_extractLsb'_eq_extractLsb' rfl
  rw [read32, write32_apply m a v (k := 3) (by decide), write32_apply m a v (k := 2) (by decide),
    write32_apply m a v (k := 1) (by decide), hbyte₀]
  show v.extractLsb' 24 8 ++ v.extractLsb' 16 8 ++ v.extractLsb' 8 8 ++ v.extractLsb' 0 8 = v
  rw [happend 16 8, happend 8 16, happend 0 24, BitVec.extractLsb'_eq_self]

/-- Eight bytes are two groups of four. -/
lemma append_bytes (b₇ b₆ b₅ b₄ b₃ b₂ b₁ b₀ : BitVec 8) :
    b₇ ++ b₆ ++ b₅ ++ b₄ ++ b₃ ++ b₂ ++ b₁ ++ b₀ =
      (b₇ ++ b₆ ++ b₅ ++ b₄ : BitVec 32) ++ (b₃ ++ b₂ ++ b₁ ++ b₀ : BitVec 32) := by
  ext i hi
  simp only [BitVec.getElem_append]
  split_ifs <;> first | rfl | omega

/-- A word is made of its two double words. -/
lemma read64_eq_append (m : Memory) (a : Word) : m.read64 a = m.read32 (a + 4) ++ m.read32 a := by
  have hadd : ∀ k : Word, a + 4 + k = a + (4 + k) := fun k => BitVec.add_assoc a 4 k
  rw [read64, read32, read32, hadd, hadd, hadd]
  exact append_bytes _ _ _ _ _ _ _ _

/-- A store of a double word changes the low half of the word at its address. -/
lemma read64_write32 (m : Memory) (a : Word) (v : BitVec 32) :
    (m.write32 a v).read64 a = m.read32 (a + 4) ++ v := by
  have hhigh : ∀ k : Word, k.toNat < 4 → m.write32 a v (a + 4 + k) = m (a + 4 + k) := by
    intro k hk
    refine if_neg fun hmem => ?_
    rw [mem_span] at hmem
    bv_omega
  have hhigh₀ : m.write32 a v (a + 4) = m (a + 4) := by simpa using hhigh 0 (by decide)
  rw [read64_eq_append, read32_write32, read32, read32, hhigh 3 (by decide),
    hhigh 2 (by decide), hhigh 1 (by decide), hhigh₀]

/-- Memories that agree on four bytes agree on the double word. -/
lemma read32_congr {m' : Memory} (h : Set.EqOn m m' (span a 4)) : m.read32 a = m'.read32 a := by
  have hbyte : ∀ k : Word, k.toNat < 4 → m (a + k) = m' (a + k) := by
    intro k hk
    exact h (mem_span.mpr (by rwa [add_sub_cancel_left]))
  have hbyte₀ : m a = m' a := by simpa using hbyte 0 (by decide)
  rw [read32, read32, hbyte 3 (by decide), hbyte 2 (by decide), hbyte 1 (by decide), hbyte₀]

/-- The double words of zeroed memory. -/
lemma read32_zero (h : Set.EqOn m (fun _ => 0) (span a 4)) : m.read32 a = 0 := by
  rw [read32_congr h, read32]
  decide

/-- The words of zeroed memory. -/
lemma read64_zero (h : Set.EqOn m (fun _ => 0) (span a 8)) : m.read64 a = 0 := by
  rw [read64_congr h, read64]
  decide

end Memory

end ProgLib
