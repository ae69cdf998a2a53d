import ZiranOS.Bridge.Admission
import ZiranOS.Lib.Limiter

/-!
# The rate limit

`rateLimited` keeps the times of the hits of each address, drops those that are no longer in the
window and adds the new one, also when the call is limited.  What is left is enough to answer as if
every hit had been kept (`rateAnswers_eq`), so `rateLimited` is the sliding-window limiter of
`Lib/Limiter`, with the properties that it has (`rate_limit_exact`).
-/

namespace ZiranOS

open ProgLib

variable {Ip : Type} [DecidableEq Ip]

namespace Bridge

/-- The answers to a sequence of calls, each with its address and its time. -/
def rateAnswers (config : Config) : Bridge Ip → List (Ip × ℕ) → List (LimitAnswer Ip)
  | _, [] => []
  | b, (ip, now) :: calls =>
    ⟨ip, now, (b.rateLimited config ip now).2⟩ ::
      (b.rateLimited config ip now).1.rateAnswers config calls

/-- The hits that are kept of the calls so far: whatever is in the window of a call to come. -/
def HitsKept (config : Config) (b : Bridge Ip) (past : List (Ip × ℕ)) : Prop :=
  ∀ ip now, (∀ c ∈ past, c.2 ≤ now) →
    (((b.rateHits ip).getD []).filter fun t => decide (now - t < config.rateWindowMs)).length =
      recentCalls config.rateWindowMs past ip now

variable {config : Config} {b : Bridge Ip} {past calls : List (Ip × ℕ)}

/-- A call is limited if too many hits are in its window. -/
lemma HitsKept.limited_eq (h : HitsKept config b past) {ip : Ip} {now : ℕ}
    (hnow : ∀ c ∈ past, c.2 ≤ now) : (b.rateLimited config ip now).2 =
      decide (recentCalls config.rateWindowMs past ip now + 1 > config.rateMax) := by
  simp only [rateLimited, List.length_append, List.length_singleton, h ip now hnow]

/-- **A call keeps what later calls need.** -/
lemma HitsKept.rateLimited (h : HitsKept config b past) (ip : Ip) (now : ℕ) :
    HitsKept config (b.rateLimited config ip now).1 (past ++ [(ip, now)]) := by
  intro ip' now' hnow'
  have hpast := h ip' now' fun c hc => hnow' c (List.mem_append_left _ hc)
  have hle : now ≤ now' := hnow' (ip, now) (List.mem_append_right _ (List.mem_singleton_self _))
  rw [recentCalls_append_singleton, ← hpast]
  simp only [Bridge.rateLimited, Function.update_apply]
  by_cases heq : ip' = ip
  · subst heq
    rw [if_pos rfl, Option.getD_some, List.filter_append, filter_recent _ hle, List.length_append]
    simp only [true_and, Nat.add_left_cancel_iff]
    split_ifs with hin <;> simp [hin]
  · rw [if_neg heq, if_neg fun hip => heq hip.1.symm, Nat.add_zero]

/-- **The answers are those of a sliding-window limiter.** -/
lemma rateAnswers_eq (h : HitsKept config b past)
    (hsorted : (past ++ calls).Pairwise fun c c' => c.2 ≤ c'.2) :
    b.rateAnswers config calls =
      limitCalls config.rateWindowMs config.rateMax past calls := by
  induction calls generalizing b past with
  | nil => rfl
  | cons c calls ih =>
    obtain ⟨ip, now⟩ := c
    have hnow : ∀ c ∈ past, c.2 ≤ now := fun c hc =>
      (List.pairwise_append.mp hsorted).2.2 c hc (ip, now) List.mem_cons_self
    have hnext := ih (h.rateLimited ip now) (by rwa [List.append_assoc])
    rw [rateAnswers, limitCalls, hnext, h.limited_eq hnow]

/-- At the start there are no hits. -/
lemma hitsKept_init (config : Config) : HitsKept config (init : Bridge Ip) [] := fun _ _ _ => rfl

end Bridge

/-- **The rate limit.**  For every sequence of calls at times that do not run backwards: in every
window of the length of the rate window at most `RATE_MAX` calls of an address are not limited; the
calls of one address are answered as if there were no others; and a call is limited exactly if more
than `RATE_MAX` calls of its address, itself included, are in the window that ends with it. -/
theorem rate_limit_exact (config : Config) (calls : List (Ip × ℕ))
    (hsorted : calls.Pairwise fun c c' => c.2 ≤ c'.2) :
    (∀ ip a, (Bridge.init.rateAnswers config calls).countP
        (fun x => x.key = ip ∧ x.limited = false ∧ a ≤ x.time ∧ x.time < a + config.rateWindowMs) ≤
          config.rateMax) ∧
      (∀ ip, (Bridge.init.rateAnswers config calls).filter (fun x => x.key = ip) =
        Bridge.init.rateAnswers config (calls.filter fun c => c.1 = ip)) ∧
      ∀ i ip now, calls[i]? = some (ip, now) → ∃ limited,
        (Bridge.init.rateAnswers config calls)[i]? = some ⟨ip, now, limited⟩ ∧
          (limited = true ↔
            recentCalls config.rateWindowMs (calls.take i) ip now + 1 > config.rateMax) := by
  have heq : ∀ calls : List (Ip × ℕ), calls.Pairwise (fun c c' => c.2 ≤ c'.2) →
      Bridge.init.rateAnswers config calls =
        limitCalls config.rateWindowMs config.rateMax [] calls := fun calls hsorted =>
    Bridge.rateAnswers_eq (Bridge.hitsKept_init config) hsorted
  rw [heq calls hsorted]
  refine ⟨admitted_le _ _ _, fun ip => ?_, fun i ip now hget => ?_⟩
  · rw [limitCalls_filter, heq _ (hsorted.filter _)]
    rfl
  · refine ⟨_, getElem?_limitCalls _ _ hget, ?_⟩
    rw [List.nil_append, decide_eq_true_eq]

/-- With at most two calls a minute, the third call of an address is limited, and the one of another
address in between is not. -/
theorem rate_limit_exact_third :
    (Bridge.init.rateAnswers { sampleConfig with rateMax := 2 }
        [(0, 1000), (0, 2000), (1, 2000), (0, 3000)]).map LimitAnswer.limited =
      [false, false, false, true] ∧
    ∃ limited, (Bridge.init.rateAnswers { sampleConfig with rateMax := 2 }
        [(0, 1000), (0, 2000), (1, 2000), (0, 3000)])[3]? = some ⟨0, 3000, limited⟩ ∧
      (limited = true ↔ recentCalls 60000 [(0, 1000), (0, 2000), (1, 2000)] 0 3000 + 1 > 2) :=
  ⟨by decide, (rate_limit_exact { sampleConfig with rateMax := 2 }
    [(0, 1000), (0, 2000), (1, 2000), (0, 3000)] (by decide)).2.2 3 0 3000 rfl⟩

end ZiranOS
