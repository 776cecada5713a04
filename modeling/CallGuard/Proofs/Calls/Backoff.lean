import CallGuard.Retry.Plan

/-!
# Waits that grow

With backoff every wait after the first is half as long again as the one before it, rounded
down and cut at the cap. Rounding takes less away than the growth adds, so waits below the cap
never get shorter. At the end of the range they may: three times a wait is cut to the longest
span before it is halved, so what follows a wait above half of the longest span is that half.

* `Retry.Config.nextDelay_grown`: one step of growth, in nanoseconds.
* `Retry.Config.Settled`: a wait below the cap and the half of the longest span. Growth settles at once.
* `Retry.Config.pairwise_delaysFrom`: from a settled wait on, waits never decrease.
* `Retry.Config.backs_off`: **waits are bounded, and when they never decrease.**
* `Retry.Config.delays_shrink`: they may decrease below the cap.
-/

namespace CallGuard

theorem Span.nanos_min (a b : Span) : (min a b).nanos = min a.nanos b.nanos := by
  show (if a ≤ b then a else b).nanos = _
  split
  · rename_i h
    rw [Span.le_iff] at h
    omega
  · rename_i h
    rw [Span.le_iff] at h
    omega

namespace Retry.Config

variable {c : Retry.Config} {d previous : Span}

/-! ## One wait after another -/

theorem nextDelay_first (c : Retry.Config) (d : Span) : c.nextDelay d 0 = d := by
  simp [nextDelay]

theorem nextDelay_steady (h : c.backoff = false) (d : Span) (retry : Nat) : c.nextDelay d retry = d := by
  simp [nextDelay, h]

/-- **Growth by half**: three times the wait, cut to the longest span, halved, and cut at the cap. -/
theorem nextDelay_grown (h : c.backoff = true) (d : Span) (retry : Nat) :
    (c.nextDelay d (retry + 1)).nanos = min (min (d.nanos * 3) Span.maxNanos / 2) c.maxDelay.nanos := by
  simp [nextDelay, h, Span.nanos_min, Span.scale_nanos]

theorem nextDelay_le (c : Retry.Config) (d : Span) (retry : Nat) :
    (c.nextDelay d retry).nanos ≤ max d.nanos c.maxDelay.nanos := by
  cases hbackoff : c.backoff with
  | false =>
    rw [nextDelay_steady hbackoff]
    exact Nat.le_max_left _ _
  | true =>
    cases retry with
    | zero =>
      rw [nextDelay_first]
      exact Nat.le_max_left _ _
    | succ retry =>
      rw [nextDelay_grown hbackoff]
      omega

theorem forall_delaysFrom {P : Span → Prop} (hstep : ∀ d retry, P d → P (c.nextDelay d retry)) {retry n : Nat}
    (h : P previous) : ∀ d ∈ c.delaysFrom previous retry n, P d := by
  induction n generalizing previous retry with
  | zero => simp [delaysFrom]
  | succ n ih =>
    intro d hd
    rw [delaysFrom, List.mem_cons] at hd
    rcases hd with rfl | hd
    · exact hstep previous retry h
    · exact ih (hstep previous retry h) d hd

/-- **Every wait but the first comes from the one before.** -/
theorem getElem?_delaysFrom {retry n i : Nat} {next : Span} (hd : (c.delaysFrom previous retry n)[i]? = some d)
    (hnext : (c.delaysFrom previous retry n)[i + 1]? = some next) : next = c.nextDelay d (retry + i + 1) := by
  induction n generalizing previous retry i with
  | zero => simp [delaysFrom] at hd
  | succ n ih =>
    rw [delaysFrom] at hd hnext
    rw [List.getElem?_cons_succ] at hnext
    cases i with
    | zero =>
      cases hd
      cases n with
      | zero => simp [delaysFrom] at hnext
      | succ n =>
        cases hnext
        rfl
    | succ i =>
      rw [List.getElem?_cons_succ] at hd
      have hlater := ih hd hnext
      rwa [Nat.add_right_comm retry 1 i] at hlater

/-! ## Settled waits -/

/-- **A wait is settled** if it is at most the cap and half of the longest span, or waits do not grow at all. -/
def Settled (c : Retry.Config) (d : Span) : Prop :=
  c.backoff = true → d ≤ c.maxDelay ∧ 2 * d.nanos ≤ Span.maxNanos

theorem settled_grown (c : Retry.Config) (d : Span) (retry : Nat) : c.Settled (c.nextDelay d (retry + 1)) := by
  intro hbackoff
  -- the cut before halving is what brings the wait below half of the longest span
  have hnext := nextDelay_grown hbackoff d retry
  rw [Span.le_iff]
  omega

theorem Settled.next (h : c.Settled d) (retry : Nat) : c.Settled (c.nextDelay d retry) := by
  cases retry with
  | zero => rwa [nextDelay_first]
  | succ retry => exact c.settled_grown d retry

/-- **A settled wait is not followed by a shorter one**: half of it is added, and at most half a nanosecond
lost. -/
theorem Settled.le_next (h : c.Settled d) (retry : Nat) : d ≤ c.nextDelay d retry := by
  rw [Span.le_iff]
  cases hbackoff : c.backoff with
  | false => simp [nextDelay_steady hbackoff]
  | true =>
    obtain ⟨hcap, hhalf⟩ := h hbackoff
    rw [Span.le_iff] at hcap
    cases retry with
    | zero => simp [nextDelay_first]
    | succ retry =>
      have hnext := nextDelay_grown hbackoff d retry
      omega

/-- **From a settled wait on, waits never decrease.** -/
theorem pairwise_delaysFrom (h : c.Settled previous) (retry n : Nat) :
    (previous :: c.delaysFrom previous retry n).Pairwise (· ≤ ·) := by
  induction n generalizing previous retry with
  | zero => simp [delaysFrom]
  | succ n ih =>
    have hlater := ih (h.next retry) (retry + 1)
    have hle := h.le_next retry
    refine List.Pairwise.cons ?_ hlater
    intro d hd
    rw [delaysFrom, List.mem_cons] at hd
    rcases hd with rfl | hd
    · exact hle
    · exact Nat.le_trans hle ((List.pairwise_cons.1 hlater).1 d hd)

/-! ## All waits -/

theorem delays_cons (h : 2 ≤ c.attempts.toNat) :
    c.delays = c.baseDelay :: c.delaysFrom c.baseDelay 1 (c.attempts.toNat - 2) := by
  obtain ⟨n, hn⟩ : ∃ n, c.attempts.toNat = n + 2 := ⟨c.attempts.toNat - 2, by omega⟩
  rw [delays, hn]
  show c.nextDelay c.baseDelay 0 :: c.delaysFrom (c.nextDelay c.baseDelay 0) 1 n = _
  rw [nextDelay_first]
  rfl

theorem delays_nil (h : c.attempts.toNat < 2) : c.delays = [] := by
  rw [delays, show c.attempts.toNat - 1 = 0 by omega]
  rfl

/-- **Waits after the first never decrease.** -/
theorem pairwise_tail (c : Retry.Config) : c.delays.tail.Pairwise (· ≤ ·) := by
  rcases Nat.lt_or_ge c.attempts.toNat 2 with hfew | hmany
  · rw [delays_nil hfew]
    exact List.Pairwise.nil
  · rw [delays_cons hmany, List.tail_cons]
    cases c.attempts.toNat - 2 with
    | zero => exact List.Pairwise.nil
    | succ n => exact pairwise_delaysFrom (c.settled_grown c.baseDelay 0) 2 n

/-- **When waits never decrease**: if there are two at most, or the base delay is settled. -/
theorem pairwise_delays_iff (c : Retry.Config) :
    c.delays.Pairwise (· ≤ ·) ↔ c.attempts.toNat ≤ 2 ∨ c.Settled c.baseDelay := by
  constructor
  · intro hsorted
    refine (Nat.lt_or_ge 2 c.attempts.toNat).symm.imp_right ?_
    intro hmany hbackoff
    -- the second wait is settled, and the first one is not longer
    have hsettled : c.nextDelay c.baseDelay 1 ≤ c.maxDelay ∧
        2 * (c.nextDelay c.baseDelay 1).nanos ≤ Span.maxNanos := c.settled_grown c.baseDelay 0 hbackoff
    rw [delays_cons (by omega), show c.attempts.toNat - 2 = c.attempts.toNat - 3 + 1 by omega] at hsorted
    have hle : c.baseDelay ≤ c.nextDelay c.baseDelay 1 :=
      (List.pairwise_cons.1 hsorted).1 _ List.mem_cons_self
    rw [Span.le_iff] at hle hsettled ⊢
    omega
  · rintro (hfew | hsettled)
    · rcases Nat.lt_or_ge c.attempts.toNat 2 with hnone | hone
      · rw [delays_nil hnone]
        exact List.Pairwise.nil
      · rw [delays_cons hone, show c.attempts.toNat - 2 = 0 by omega]
        exact List.pairwise_singleton _ _
    · exact (List.pairwise_cons.1 (pairwise_delaysFrom hsettled 0 _)).2

/-- **The waits of a call that keeps failing.** There is one less than tries, the first one is the base delay, and
none is longer than both that and the cap. Without backoff all are the base delay. With backoff each is half as long
again as the one before, within the range of spans and the cap. Up to the cap they never decrease if the base delay
is at most half of the longest span, and else they do, if they grow at all and there are two or more. After the
first one they never decrease, whatever the base delay is. -/
structure BacksOff (c : Retry.Config) : Prop where
  length : c.delays.length = max c.attempts.toNat 1 - 1
  first : ∀ d, c.delays.head? = some d → d = c.baseDelay
  bounded : ∀ d ∈ c.delays, d.nanos ≤ max c.baseDelay.nanos c.maxDelay.nanos
  steady : c.backoff = false → ∀ d ∈ c.delays, d = c.baseDelay
  grown : c.backoff = true → ∀ i d next, c.delays[i]? = some d → c.delays[i + 1]? = some next →
    next.nanos = min (min (d.nanos * 3) Span.maxNanos / 2) c.maxDelay.nanos
  sorted : c.baseDelay ≤ c.maxDelay → (c.delays.Pairwise (· ≤ ·) ↔
    c.backoff = false ∨ c.attempts.toNat ≤ 2 ∨ 2 * c.baseDelay.nanos ≤ Span.maxNanos)
  settles : c.delays.tail.Pairwise (· ≤ ·)

/-- **Waits are bounded**, and never decrease but at the end of the range. -/
theorem backs_off (c : Retry.Config) : c.BacksOff where
  length := by
    rw [length_delays]
    omega
  first := by
    intro d hd
    rcases Nat.lt_or_ge c.attempts.toNat 2 with hfew | hmany
    · rw [delays_nil hfew] at hd
      cases hd
    · rw [delays_cons hmany] at hd
      cases hd
      rfl
  bounded := by
    refine forall_delaysFrom (P := fun d => d.nanos ≤ max c.baseDelay.nanos c.maxDelay.nanos) ?_
      (Nat.le_max_left _ _)
    intro d retry hd
    have hnext := c.nextDelay_le d retry
    omega
  steady := by
    intro hbackoff
    refine forall_delaysFrom (P := fun d => d = c.baseDelay) ?_ rfl
    intro d retry hd
    rw [nextDelay_steady hbackoff, hd]
  grown := by
    intro hbackoff i d next hd hnext
    rw [getElem?_delaysFrom hd hnext, nextDelay_grown hbackoff]
  sorted := by
    intro hcap
    rw [pairwise_delays_iff]
    unfold Settled
    cases hbackoff : c.backoff with
    | false => simp
    | true => simp [hcap]
  settles := c.pairwise_tail

/-- Three tries, whose waits begin with the longest span and are not cut below it. -/
def endless : Retry.Config := ⟨3, .longest, true, .longest⟩

/-- **Waits may decrease below the cap**: half of the longest span follows the longest one. -/
theorem delays_shrink : ¬∀ c : Retry.Config, c.baseDelay ≤ c.maxDelay → c.delays.Pairwise (· ≤ ·) := by
  intro h
  have hsorted := h endless (by decide)
  exact absurd hsorted (by decide)

end Retry.Config

end CallGuard
