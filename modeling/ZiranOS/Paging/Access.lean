import ZiranOS.Paging.Calls

/-!
# Which addresses ring 3 could read

A system call must not read through a pointer that its caller could not read through.
`userRangeOk` decides that from the tables alone: it walks every page of the range and takes the
`user` flags of all entries of a walk together, as the hardware does.

The loop over the pages has a fuel argument, and a loop that has not come to its end when the fuel
is used up has the outcome `Exec.fail ()`.  `userPages_eq` says that it ends after one round for
each page of the range.
-/

namespace ZiranOS

open ProgLib

/-- The end of the lower half of the address space. -/
def userAddrLimit : ℕ := 1 <<< 47

/-- The lower half ends at 2^47. -/
lemma userAddrLimit_eq : userAddrLimit = 2 ^ 47 := by decide

namespace Paging

/-- Walk from the table of the given level and report whether ring 3 could read the page of `virt`:
every entry of the walk is present and for the user. -/
def userLevels (s : Paging) (virt : ℕ) : (level table : ℕ) → Exec Unit Bool
  | 0, table => do
    let entry ← s.readEntry table (tableIndex virt 0)
    pure (decide (entry &&& present ≠ 0 ∧ entry &&& user ≠ 0))
  | level + 1, table => do
    let entry ← s.readEntry table (tableIndex virt (level + 1))
    if entry &&& present = 0 ∨ entry &&& user = 0 then
      pure false
    else if level + 1 ≤ 2 ∧ entry &&& huge ≠ 0 then
      pure true
    else
      s.userLevels virt level (entry &&& addrMask)

/-- Walk the live tables for `virt` and report whether ring 3 could read it. -/
def pageUserAccessible (s : Paging) (virt : ℕ) : Exec Unit Bool :=
  s.userLevels virt 3 (s.cr3 &&& addrMask)

/-- The pages from `page` to `last` are all accessible to ring 3. -/
def userPages (s : Paging) (last : ℕ) : (fuel page : ℕ) → Exec Unit Bool
  | 0, _ => Exec.fail ()
  | fuel + 1, page => do
    if !(← s.pageUserAccessible page) then
      pure false
    else if page = last then
      pure true
    else
      let page ← addUsize page frameSize
      s.userPages last fuel page

/-- Every page that the range touches is accessible to ring 3. -/
def userRangeOk (s : Paging) (fuel uaddr len : ℕ) : Exec Unit Bool :=
  if len = 0 then
    pure true
  else if 2 ^ 64 ≤ uaddr + len then
    pure false
  else
    let «end» := uaddr + len
    if «end» > userAddrLimit then
      pure false
    else
      let last := («end» - 1) &&& not64 (frameSize - 1)
      let page := uaddr &&& not64 (frameSize - 1)
      s.userPages last fuel page

end Paging

/-! ## The loop over the pages -/

/-- **The loop ends after one round for each page**, and says whether all pages were accessible. -/
lemma userPages_eq {s : Paging} (accessible : ℕ → Prop) {last : ℕ} (hlast : last < 2 ^ 35) :
    ∀ fuel first, first ≤ last → last - first < fuel →
      (∀ n, first ≤ n → n ≤ last → ∃ b, s.pageUserAccessible (n * 4096) = .ok b ∧
        (b = true ↔ accessible n)) →
      ∃ b, s.userPages (last * 4096) fuel (first * 4096) = .ok b ∧
        (b = true ↔ ∀ n, first ≤ n → n ≤ last → accessible n) := by
  intro fuel
  induction fuel with
  | zero => exact fun first _ hfuel => absurd hfuel (Nat.not_lt_zero _)
  | succ fuel ih =>
    intro first hle hfuel hpage
    obtain ⟨b, hb, hiff⟩ := hpage first le_rfl hle
    rw [Paging.userPages, hb, Exec.bind_ok]
    cases b with
    | false =>
      refine ⟨false, rfl, iff_of_false (by simp) fun hall => ?_⟩
      exact absurd (hiff.mpr (hall first le_rfl hle)) (by simp)
    | true =>
      have hfirst : accessible first := hiff.mp rfl
      by_cases heq : first = last
      · subst heq
        refine ⟨true, ?_, iff_of_true rfl fun n hn hn' => ?_⟩
        · rw [if_neg (by simp), if_pos rfl]
          rfl
        · rwa [← le_antisymm hn hn']
      · have hne : first * 4096 ≠ last * 4096 := by omega
        have hadd : (addUsize (first * 4096) frameSize : Exec Unit ℕ) =
            .ok ((first + 1) * 4096) := by
          rw [addUsize_eq (by unfold frameSize; omega), Nat.add_mul, Nat.one_mul, frameSize]
        obtain ⟨b, hrun, hb⟩ := ih (first + 1) (by omega) (by omega)
          fun n hn hn' => hpage n (by omega) hn'
        refine ⟨b, ?_, hb.trans ⟨fun hall n hn hn' => ?_, fun hall n hn => hall n (by omega)⟩⟩
        · rw [if_neg (by simp), if_neg hne, hadd, Exec.bind_ok, hrun]
        · rcases Nat.eq_or_lt_of_le hn with rfl | hlt
          · exact hfirst
          · exact hall n hlt hn'

/-- The pages that a range of bytes touches are accessible. -/
def RangeAccessible (accessible : ℕ → Prop) (uaddr len : ℕ) : Prop :=
  len = 0 ∨ uaddr + len < 2 ^ 64 ∧ uaddr + len ≤ 2 ^ 47 ∧
    ∀ n, uaddr / 4096 ≤ n → n ≤ (uaddr + len - 1) / 4096 → accessible n

/-- **The check of a range ends**, and accepts it exactly if it lies in the lower half and all pages
that it touches are accessible. -/
lemma userRangeOk_eq {s : Paging} (accessible : ℕ → Prop)
    (hpage : ∀ n < 2 ^ 35, ∃ b, s.pageUserAccessible (n * 4096) = .ok b ∧
      (b = true ↔ accessible n))
    {uaddr len fuel : ℕ} (haddr : uaddr < 2 ^ 64)
    (hfuel : (uaddr + len - 1) / 4096 - uaddr / 4096 < fuel ∨ 2 ^ 35 ≤ fuel) :
    ∃ b, s.userRangeOk fuel uaddr len = .ok b ∧
      (b = true ↔ RangeAccessible accessible uaddr len) := by
  have h47 := userAddrLimit_eq
  unfold Paging.userRangeOk RangeAccessible
  dsimp only
  split_ifs with hlen hover
  · exact ⟨true, rfl, iff_of_true rfl (Or.inl hlen)⟩
  · refine ⟨false, rfl, iff_of_false (by simp) ?_⟩
    omega
  · refine ⟨false, rfl, iff_of_false (by simp) ?_⟩
    omega
  · rw [and_not64_frame (x := uaddr + len - 1) (by omega), and_not64_frame haddr]
    have hlast : (uaddr + len - 1) / 4096 < 2 ^ 35 := by omega
    obtain ⟨b, hrun, hb⟩ := userPages_eq accessible hlast fuel (uaddr / 4096) (by omega) (by omega)
      fun n _ hn => hpage n (by omega)
    refine ⟨b, hrun, hb.trans ⟨fun hall => Or.inr ⟨by omega, by omega, hall⟩, fun h => ?_⟩⟩
    exact (h.resolve_left hlen).2.2

end ZiranOS
