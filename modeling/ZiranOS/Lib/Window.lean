import Mathlib

/-!
# Budgets over a rolling window

A log of times is kept in full on one side, and as a pruned list of its recent entries on the
other.  A budget of `n` per window of length `w` asks that every closed window of that length
holds at most `n` entries of the full log (`WindowBound`); a program can only look at the pruned
list.  `Kept` says what the pruned list still knows, and `Kept.windowBound_append_iff` is the
resulting admission test: one more entry keeps the budget exactly when fewer than `n` entries are
left after pruning.
-/

namespace ProgLib

variable {w n now now' : ℕ} {log recent : List ℕ}

/-- The number of entries in the closed window `[a, a + w]`. -/
def windowCount (w : ℕ) (log : List ℕ) (a : ℕ) : ℕ := log.countP fun t => a ≤ t ∧ t ≤ a + w

/-- Every closed window of length `w` holds at most `n` entries. -/
def WindowBound (w n : ℕ) (log : List ℕ) : Prop := ∀ a, windowCount w log a ≤ n

/-- Drop the leading entries that are more than `w` old. -/
def prune (w now : ℕ) (times : List ℕ) : List ℕ := times.dropWhile fun t => decide (now - t > w)

/-- `recent` is what is kept at time `now` of a log of increasing times: everything but a first
part whose entries are more than `w` old. -/
structure Kept (w now : ℕ) (log recent : List ℕ) : Prop where
  /-- The times of the log increase. -/
  sorted : log.Pairwise (· ≤ ·)
  /-- No entry lies in the future. -/
  le_now : ∀ t ∈ log, t ≤ now
  /-- Only old entries have been dropped. -/
  split : ∃ old, log = old ++ recent ∧ ∀ t ∈ old, t + w < now

/-- The empty log keeps nothing. -/
lemma Kept.nil (w now : ℕ) : Kept w now [] [] := ⟨List.Pairwise.nil, by simp, [], by simp⟩

/-- What is kept stays a valid rest as time goes on. -/
lemma Kept.mono (h : Kept w now log recent) (hle : now ≤ now') : Kept w now' log recent := by
  obtain ⟨old, hsplit, hold⟩ := h.split
  refine ⟨h.sorted, fun t ht => (h.le_now t ht).trans hle, old, hsplit, fun t ht => ?_⟩
  have := hold t ht
  omega

/-- Pruning keeps a valid rest. -/
lemma Kept.prune (h : Kept w now log recent) (hle : now ≤ now') :
    Kept w now' log (prune w now' recent) := by
  obtain ⟨old, hsplit, hold⟩ := h.split
  refine ⟨h.sorted, fun t ht => (h.le_now t ht).trans hle,
    old ++ recent.takeWhile fun t => decide (now' - t > w), ?_, fun t ht => ?_⟩
  · rw [List.append_assoc, ProgLib.prune, List.takeWhile_append_dropWhile, hsplit]
  · rcases List.mem_append.mp ht with ht | ht
    · have := hold t ht
      omega
    · have := List.mem_takeWhile_imp ht
      simp only [decide_eq_true_eq] at this
      omega

/-- A new entry goes to the end of both lists. -/
lemma Kept.push (h : Kept w now log recent) (hle : now ≤ now') :
    Kept w now' (log ++ [now']) (recent ++ [now']) := by
  obtain ⟨old, hsplit, hold⟩ := h.split
  refine ⟨?_, fun t ht => ?_, old, by rw [hsplit, List.append_assoc], fun t ht => ?_⟩
  · refine List.pairwise_append.mpr ⟨h.sorted, List.pairwise_singleton _ _, fun t ht u hu => ?_⟩
    rw [List.mem_singleton.mp hu]
    exact (h.le_now t ht).trans hle
  · rcases List.mem_append.mp ht with ht | ht
    · exact (h.le_now t ht).trans hle
    · exact (List.mem_singleton.mp ht).le
  · have := hold t ht
    omega

/-- After pruning, only entries that are at most `w` old are left. -/
lemma le_of_mem_prune (w now : ℕ) {times : List ℕ} (hs : times.Pairwise (· ≤ ·)) :
    ∀ t ∈ prune w now times, now ≤ t + w := by
  induction times with
  | nil => simp [prune]
  | cons u times ih =>
    obtain ⟨hhead, htail⟩ := List.pairwise_cons.mp hs
    intro t ht
    rw [prune, List.dropWhile_cons] at ht
    split_ifs at ht with hold
    · exact ih htail t ht
    · simp only [decide_eq_true_eq] at hold
      rcases List.mem_cons.mp ht with rfl | ht
      · omega
      · have := hhead t ht
        omega

/-- **The admission test of a rolling budget.**  One more entry keeps the budget of every window
exactly when fewer than `n` entries are left after pruning. -/
theorem Kept.windowBound_append_iff (h : Kept w now log recent) (hle : now ≤ now')
    (hb : WindowBound w n log) :
    WindowBound w n (log ++ [now']) ↔ (ProgLib.prune w now' recent).length < n := by
  obtain ⟨hsorted, hnow, old, hsplit, hold⟩ := h.prune hle
  have hrecent : recent.Pairwise (· ≤ ·) := by
    obtain ⟨old', hsplit', -⟩ := h.split
    exact (List.pairwise_append.mp (hsplit' ▸ h.sorted)).2.1
  have hkept := le_of_mem_prune w now' hrecent
  have hcount : ∀ a, windowCount w (log ++ [now']) a =
      windowCount w log a + if a ≤ now' ∧ now' ≤ a + w then 1 else 0 := by
    intro a
    simp [windowCount, List.countP_append, List.countP_singleton]
  constructor
  · intro hbound
    -- the window that ends now holds the new entry and everything that is left
    have hall : windowCount w (ProgLib.prune w now' recent) (now' - w) =
        (ProgLib.prune w now' recent).length := by
      apply List.countP_eq_length.mpr
      intro t ht
      have hlow := hkept t ht
      have hhigh := hnow t (hsplit ▸ List.mem_append_right _ ht)
      simp only [decide_eq_true_eq]
      omega
    have hlast := hbound (now' - w)
    rw [hcount, if_pos (by omega)] at hlast
    have hpart : windowCount w (ProgLib.prune w now' recent) (now' - w) ≤
        windowCount w log (now' - w) := by
      rw [hsplit, windowCount, windowCount, List.countP_append]
      exact Nat.le_add_left _ _
    omega
  · intro hlt a
    rw [hcount]
    split_ifs with hin
    · -- what was dropped lies before every window that holds the new entry
      have hdropped : windowCount w old a = 0 := by
        apply List.countP_eq_zero.mpr
        intro t ht
        have := hold t ht
        simp only [decide_eq_true_eq]
        omega
      have hleft : windowCount w (ProgLib.prune w now' recent) a ≤
          (ProgLib.prune w now' recent).length := List.countP_le_length
      have hsum : windowCount w log a = windowCount w old a +
          windowCount w (ProgLib.prune w now' recent) a := by
        rw [windowCount, hsplit, List.countP_append]
        rfl
      omega
    · exact hb a

end ProgLib
