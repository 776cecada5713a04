import CallGuard.Proofs.Breaker.History

/-!
# The fields of a breaker

The state of a breaker, its two counters and the time of its last failure are four fields
that do not vary independently. Each clause below is kept only because the others are: a
breaker that fails its trials is open with a full count because it has been open before,
and counting goes on, without a meaning, while it is open.

* `Breaker.Coherent`: what the state says about the other fields.
* `Breaker.Coherent.perform`: an operation keeps the fields coherent, in every state.
* `Breaker.coherent_run`: **the fields are coherent after any run**, and the counters stay in range.
-/

namespace CallGuard.Breaker

/-- **The fields of a breaker are coherent.** Failures are counted up to the largest count. While it is closed,
there were too few to open and there is no trial. While it is open, there were enough, the last of them at a known
time, and there is no trial. While it is half-open, the same holds of the failures, and there were too few
successful trials to close. -/
structure Coherent (b : Breaker) : Prop where
  failures_le : b.failures ≤ maxCount
  closed : b.circuit = .closed → b.failures < b.config.threshold.toNat ∧ b.successes = 0
  opened : b.circuit = .opened →
    b.config.threshold.toNat ≤ b.failures ∧ b.lastFailure.isSome ∧ b.successes = 0
  halfOpen : b.circuit = .halfOpen →
    b.config.threshold.toNat ≤ b.failures ∧ b.lastFailure.isSome ∧
      b.successes < b.config.maxRequests.toNat

variable {b : Breaker} {now : Instant}

theorem toNat_le_maxCount (n : UInt32) : n.toNat ≤ maxCount := by
  have h := n.toNat_lt
  rw [maxCount]
  omega

theorem coherent_new {config : Config} (hv : config.validate = .ok ()) : Coherent (new config) := by
  obtain ⟨hopen, -⟩ := (Config.validate_ok_iff config).1 hv
  refine ⟨Nat.zero_le _, fun _ => ⟨hopen, rfl⟩, ?_, ?_⟩
  · intro h; cases h
  · intro h; cases h

/-- A full count stays full, because the threshold is in the range of the counter. -/
theorem threshold_le_countFailure (now : Instant) (h : b.config.threshold.toNat ≤ b.failures) :
    b.config.threshold.toNat ≤ (b.countFailure now).failures := by
  have hmax := toNat_le_maxCount b.config.threshold
  rw [countFailure]
  exact Nat.le_min.2 ⟨Nat.le_succ_of_le h, hmax⟩

theorem Coherent.perform_allow (h : Coherent b) (hv : b.config.validate = .ok ()) :
    Coherent (b.perform now .allow).breaker := by
  obtain ⟨-, hclose⟩ := (Config.validate_ok_iff b.config).1 hv
  cases hcirc : b.circuit with
  | closed => rwa [allow_closed hcirc]
  | halfOpen => rwa [allow_halfOpen hcirc]
  | opened =>
    by_cases htime : b.config.timeout ≤ b.sinceFailure now
    · rw [allow_due hcirc htime]
      obtain ⟨hfull, hlast, -⟩ := h.opened hcirc
      exact ⟨h.failures_le, by simp, by simp, fun _ => ⟨hfull, hlast, hclose⟩⟩
    · rwa [allow_early hcirc htime]

theorem Coherent.perform_success (h : Coherent b) (hv : b.config.validate = .ok ()) :
    Coherent (b.perform now .success).breaker := by
  obtain ⟨hopen, -⟩ := (Config.validate_ok_iff b.config).1 hv
  cases hcirc : b.circuit with
  | closed =>
    rw [success_closed hcirc]
    obtain ⟨-, hnone⟩ := h.closed hcirc
    refine ⟨Nat.zero_le _, fun _ => ⟨hopen, hnone⟩, ?_, ?_⟩
    · simp [hcirc]
    · simp [hcirc]
  | opened => rwa [success_opened hcirc]
  | halfOpen =>
    obtain ⟨hfull, hlast, -⟩ := h.halfOpen hcirc
    rcases Nat.lt_or_ge (b.successes + 1) b.config.maxRequests.toNat with hmore | henough
    · rw [success_trial hcirc hmore]
      refine ⟨h.failures_le, ?_, ?_, fun _ => ⟨hfull, hlast, hmore⟩⟩
      · simp [hcirc]
      · simp [hcirc]
    · rw [success_last hcirc henough]
      exact ⟨Nat.zero_le _, fun _ => ⟨hopen, rfl⟩, by simp, by simp⟩

theorem Coherent.perform_failure (h : Coherent b) : Coherent (b.perform now .failure).breaker := by
  have hle : (b.countFailure now).failures ≤ maxCount := Nat.min_le_right _ _
  cases hcirc : b.circuit with
  | closed =>
    obtain ⟨hfew, hnone⟩ := h.closed hcirc
    rcases Nat.lt_or_eq_of_le (Nat.succ_le_of_lt hfew) with hmore | hlast
    · rw [failure_closed hcirc hmore]
      refine ⟨?_, fun _ => ⟨hmore, hnone⟩, ?_, ?_⟩
      · exact Nat.le_trans (Nat.le_of_lt hmore) (toNat_le_maxCount _)
      · simp [hcirc]
      · simp [hcirc]
    · rw [failure_last hcirc hlast]
      refine ⟨?_, by simp, fun _ => ⟨Nat.le_of_eq hlast.symm, rfl, hnone⟩, by simp⟩
      exact Nat.le_trans (Nat.le_of_eq hlast) (toNat_le_maxCount _)
  | opened =>
    rw [failure_opened hcirc]
    obtain ⟨hfull, -, hnone⟩ := h.opened hcirc
    refine ⟨hle, ?_, fun _ => ⟨threshold_le_countFailure now hfull, rfl, hnone⟩, ?_⟩
    · simp [countFailure, hcirc]
    · simp [countFailure, hcirc]
  | halfOpen =>
    rw [failure_halfOpen hcirc]
    obtain ⟨hfull, -, -⟩ := h.halfOpen hcirc
    exact ⟨hle, by simp, fun _ => ⟨threshold_le_countFailure now hfull, rfl, rfl⟩, by simp⟩

theorem Coherent.perform_reset (hv : b.config.validate = .ok ()) :
    Coherent (b.perform now .reset).breaker := by
  obtain ⟨hopen, -⟩ := (Config.validate_ok_iff b.config).1 hv
  rw [reset_breaker]
  exact ⟨Nat.zero_le _, fun _ => ⟨hopen, rfl⟩, by simp, by simp⟩

/-- **An operation keeps the fields coherent.** -/
theorem Coherent.perform (h : Coherent b) (hv : b.config.validate = .ok ()) (now : Instant)
    (op : Operation) : Coherent (b.perform now op).breaker := by
  cases op with
  | allow => exact h.perform_allow hv
  | success => exact h.perform_success hv
  | failure => exact h.perform_failure
  | reset => exact Coherent.perform_reset hv

theorem coherent_after {config : Config} (hv : config.validate = .ok ()) (past : List Entry) :
    Coherent (after config past) := by
  induction past with
  | nil => exact coherent_new hv
  | cons e before ih =>
    rw [after_cons]
    apply ih.perform
    rwa [(inv_after hv before).settings]

/-! ## The range of the counters -/

theorem failures_failure (b : Breaker) (now : Instant) :
    (b.perform now .failure).breaker.failures = min (b.failures + 1) maxCount := by
  simp only [Breaker.perform, failure, Outcome.answering]
  split
  · split <;> rfl
  · rfl
  · rfl

/-- **Failures in any number are counted** up to the largest count, whatever they do to the state. -/
theorem failures_replicate {config : Config} {past : List Entry} (time : Instant)
    (hle : (after config past).failures ≤ maxCount) (n : Nat) :
    (after config (List.replicate n ⟨.failure, time⟩ ++ past)).failures =
      min ((after config past).failures + n) maxCount := by
  induction n with
  | zero => exact (Nat.min_eq_left hle).symm
  | succ n ih =>
    rw [List.replicate_succ, List.cons_append, after_cons, failures_failure, ih]
    omega

/-- **The fields of a breaker are coherent** after any run. A trial of a half-open breaker can be counted
without leaving the range of the counter, and failures are counted up to the largest count. -/
theorem coherent_run (config : Config) (hv : config.validate = .ok ()) (start : Instant)
    (actions : List Action) :
    let b := after config (Course.run start actions).past
    b.config = config ∧ Coherent b ∧ (b.circuit = .halfOpen → b.successes + 1 ≤ maxCount) ∧
      ∀ n, (after config (Course.run start (actions ++ List.replicate n (.operate .failure))).past).failures =
        min (b.failures + n) maxCount := by
  intro b
  have hcoherent : Coherent b := coherent_after hv _
  refine ⟨(inv_after hv _).settings, hcoherent, fun hcirc => ?_, fun n => ?_⟩
  · obtain ⟨-, -, htrials⟩ := hcoherent.halfOpen hcirc
    exact Nat.le_trans htrials (toNat_le_maxCount _)
  · rw [Course.run_replicate]
    exact failures_replicate _ hcoherent.failures_le n

/-- Two successful trials of three, after five failures. -/
theorem coherent_run_trials :
    let b := after .standard
      (Course.run .origin (recovering ++ List.replicate 2 (.operate .success))).past
    Config.standard.validate = .ok () ∧ Coherent b ∧ b.circuit = .halfOpen ∧ b.successes + 1 ≤ maxCount ∧
      b.failures = 5 := by
  obtain ⟨-, hcoherent, hroom, -⟩ :=
    coherent_run .standard rfl .origin (recovering ++ List.replicate 2 (.operate .success))
  exact ⟨rfl, hcoherent, by decide, hroom (by decide), by decide⟩

end CallGuard.Breaker
