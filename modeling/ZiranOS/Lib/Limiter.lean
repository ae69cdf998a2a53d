import Mathlib

/-!
# Sliding-window limits

A limiter answers calls, each with a key and a time: a call is limited if, itself included, more
than `n` calls of its key fall in the window of length `w` that ends with it.  Limited calls count
as well.  `limitCalls` is that rule, stated on the whole history of the calls.

What the rule is for follows from it alone: in every window of length `w` at most `n` calls of a key
are admitted (`admitted_le`), and the calls of one key are answered as if there were no others
(`limitCalls_filter`).  A program keeps, for each key, only the times that are recent at its last
call; `filter_recent` says that this is enough when the times do not run backwards.
-/

namespace ProgLib

/-- A call with its answer. -/
structure LimitAnswer (κ : Type*) where
  key : κ
  time : ℕ
  limited : Bool
  deriving DecidableEq, Repr

variable {κ : Type*} [DecidableEq κ]

/-- The number of the calls of a key that are less than `w` old. -/
def recentCalls (w : ℕ) (past : List (κ × ℕ)) (key : κ) (now : ℕ) : ℕ :=
  past.countP fun c => c.1 = key ∧ now - c.2 < w

/-- The answers to calls that follow the calls `past`. -/
def limitCalls (w n : ℕ) : (past calls : List (κ × ℕ)) → List (LimitAnswer κ)
  | _, [] => []
  | past, (key, now) :: calls =>
    ⟨key, now, decide (recentCalls w past key now + 1 > n)⟩ ::
      limitCalls w n (past ++ [(key, now)]) calls

variable {w n : ℕ} {past calls : List (κ × ℕ)} {key : κ} {now now' : ℕ}

/-- The calls of other keys are not counted. -/
lemma recentCalls_filter (w : ℕ) (past : List (κ × ℕ)) (key : κ) (now : ℕ) :
    recentCalls w (past.filter fun c => c.1 = key) key now = recentCalls w past key now := by
  rw [recentCalls, recentCalls, List.countP_filter]
  exact List.countP_congr fun c _ => by simp +contextual

/-- One more call. -/
lemma recentCalls_append_singleton (w : ℕ) (past : List (κ × ℕ)) (c : κ × ℕ) (key : κ) (now : ℕ) :
    recentCalls w (past ++ [c]) key now =
      recentCalls w past key now + if c.1 = key ∧ now - c.2 < w then 1 else 0 := by
  simp [recentCalls, List.countP_append, List.countP_singleton]

/-- Times that are recent later on are recent already. -/
lemma filter_recent (w : ℕ) (hle : now ≤ now') (times : List ℕ) :
    ((times.filter fun t => decide (now - t < w)).filter fun t => decide (now' - t < w)) =
      times.filter fun t => decide (now' - t < w) := by
  rw [List.filter_filter]
  refine List.filter_congr fun t _ => ?_
  rw [← Bool.decide_and, decide_eq_decide]
  omega

/-- One more call is answered from the calls before it. -/
lemma limitCalls_append_singleton (w n : ℕ) (past calls : List (κ × ℕ)) (key : κ) (now : ℕ) :
    limitCalls w n past (calls ++ [(key, now)]) =
      limitCalls w n past calls ++
        [⟨key, now, decide (recentCalls w (past ++ calls) key now + 1 > n)⟩] := by
  induction calls generalizing past with
  | nil => simp [limitCalls]
  | cons c calls ih => simp [limitCalls, ih]

/-- The answers are in the order of the calls. -/
lemma map_limitCalls (w n : ℕ) (past calls : List (κ × ℕ)) :
    (limitCalls w n past calls).map (fun x => (x.key, x.time)) = calls := by
  induction calls generalizing past with
  | nil => rfl
  | cons c calls ih => rw [limitCalls, List.map_cons, ih]

/-- **Every window admits at most `n` calls of a key**, wherever it starts. -/
theorem admitted_le (w n : ℕ) (calls : List (κ × ℕ)) (key : κ) (a : ℕ) :
    (limitCalls w n [] calls).countP
      (fun x => x.key = key ∧ x.limited = false ∧ a ≤ x.time ∧ x.time < a + w) ≤ n := by
  induction calls using List.reverseRecOn with
  | nil => exact Nat.zero_le n
  | append_singleton calls c ih =>
    obtain ⟨key', now⟩ := c
    rw [limitCalls_append_singleton, List.nil_append, List.countP_append, List.countP_singleton]
    split_ifs with hin
    · simp only [decide_eq_true_eq, decide_eq_false_iff_not] at hin
      obtain ⟨rfl, hadmitted, hlow, hhigh⟩ := hin
      -- every call that is admitted in the window is recent now
      have hrecent : (limitCalls w n [] calls).countP
          (fun x => x.key = key' ∧ x.limited = false ∧ a ≤ x.time ∧ x.time < a + w) ≤
            recentCalls w calls key' now := by
        conv_rhs => rw [← map_limitCalls w n [] calls, recentCalls, List.countP_map]
        refine List.countP_mono_left fun x _ hx => ?_
        simp only [decide_eq_true_eq, Function.comp_apply] at hx ⊢
        exact ⟨hx.1, by omega⟩
      omega
    · exact ih

/-- **The calls of one key are answered as if there were no others.** -/
theorem limitCalls_filter (w n : ℕ) (past calls : List (κ × ℕ)) (key : κ) :
    (limitCalls w n past calls).filter (fun x => x.key = key) =
      limitCalls w n (past.filter fun c => c.1 = key) (calls.filter fun c => c.1 = key) := by
  induction calls generalizing past with
  | nil => rfl
  | cons c calls ih =>
    obtain ⟨key', now⟩ := c
    rw [limitCalls, List.filter_cons, List.filter_cons, ih]
    by_cases hkey : key' = key
    · subst hkey
      simp [limitCalls, recentCalls_filter]
    · simp [hkey]

/-- **A call is limited exactly if more than `n` calls of its key, itself included, fall in the last
window.** -/
theorem getElem?_limitCalls (w n : ℕ) {i : ℕ} (hget : calls[i]? = some (key, now)) :
    (limitCalls w n past calls)[i]? =
      some ⟨key, now, decide (recentCalls w (past ++ calls.take i) key now + 1 > n)⟩ := by
  induction calls generalizing past i with
  | nil => cases hget
  | cons c calls ih =>
    cases i with
    | zero =>
      obtain rfl := Option.some.inj hget
      simp [limitCalls]
    | succ i =>
      rw [limitCalls, List.getElem?_cons_succ, ih hget]
      simp

end ProgLib
