import CallGuard.Proofs.Breaker.History

/-!
# Trials of a half-open breaker

A half-open breaker counts successful trials, not trials. As long as it is half-open it
says yes to every question, so that its trials are limited by the reports of those who ask:
each success brings it closer to the end of the episode, and a failure ends it.

* `Breaker.trials`: the questions of the current episode that were answered yes.
* `Breaker.unreported`: those of them of which no outcome is known.
* `Breaker.trials_le`: every other trial was a success.
* `Breaker.halfOpen_trials`: **fewer trials are reported than close the circuit, but any number
  can go unreported.**
* `Breaker.halfOpen_uncapped`: the number of requests that closes the circuit is no cap on trials.
-/

namespace CallGuard.Breaker

/-- True if an operation was a question that was answered yes. -/
def grants (config : Config) (e : Entry) (before : List Entry) : Bool :=
  ((after config before).perform e.time e.op).answer == some true

/-- **Trials**: the questions answered yes since the latest entry into half-open, the one that made the
breaker half-open among them. -/
def trials (config : Config) : List Entry → Nat
  | [] => 0
  | e :: before =>
    (if enters config .halfOpen e before then 0 else trials config before) +
      if grants config e before then 1 else 0

/-- **Unreported trials**: a success accounts for one of them. -/
def unreported (config : Config) : List Entry → Nat
  | [] => 0
  | e :: before =>
    ((if enters config .halfOpen e before then 0 else unreported config before) +
      if grants config e before then 1 else 0) - if e.op = .success then 1 else 0

variable {config : Config} {past : List Entry} {now : Instant}

/-- A success is no question. -/
theorem grants_success (config : Config) (time : Instant) (before : List Entry) :
    grants config ⟨.success, time⟩ before = false := rfl

/-- **Trials that are not unreported were successes** of the episode. -/
theorem trials_le (config : Config) (past : List Entry) :
    trials config past ≤ trialSuccesses config past + unreported config past := by
  induction past with
  | nil => exact Nat.le_refl _
  | cons e before ih =>
    obtain ⟨op, time⟩ := e
    rw [trials, trialSuccesses, unreported]
    -- all three start over together, so that only a success tells them apart
    by_cases hop : op = .success
    · subst hop
      rw [grants_success]
      split
      · simp
      · simp only [Bool.false_eq_true, if_false, if_true]
        omega
    · simp only [if_neg hop]
      split <;> omega

/-- **A half-open breaker answers yes**, and stays as it is. -/
theorem allow_again (hv : config.validate = .ok ()) (now : Instant)
    (hcirc : (after config past).circuit = .halfOpen) :
    after config (⟨.allow, now⟩ :: past) = after config past ∧ grants config ⟨.allow, now⟩ past = true := by
  have h := inv_after hv past
  have hlt := (h.halfOpen hcirc).2
  rw [after_cons, grants, allow_halfOpen hcirc, h.settings, decide_eq_true hlt]
  exact ⟨rfl, rfl⟩

/-- **Any number of questions** in a row are trials of the same episode. -/
theorem trials_replicate (hv : config.validate = .ok ()) (now : Instant)
    (hcirc : (after config past).circuit = .halfOpen) (n : Nat) :
    after config (List.replicate n ⟨.allow, now⟩ ++ past) = after config past ∧
      trials config (List.replicate n ⟨.allow, now⟩ ++ past) = trials config past + n ∧
      unreported config (List.replicate n ⟨.allow, now⟩ ++ past) = unreported config past + n := by
  induction n with
  | zero => exact ⟨rfl, rfl, rfl⟩
  | succ n ih =>
    obtain ⟨hafter, htrials, hunreported⟩ := ih
    -- the questions before it have changed nothing, and so it is asked of the same breaker
    have hcirc' := (congrArg Breaker.circuit hafter).trans hcirc
    obtain ⟨hsame, hgrants⟩ := allow_again hv now hcirc'
    have henters : enters config .halfOpen ⟨.allow, now⟩ (List.replicate n ⟨.allow, now⟩ ++ past) = false := by
      rw [enters, hcirc']
      rfl
    rw [List.replicate_succ, List.cons_append]
    refine ⟨hsame.trans hafter, ?_, ?_⟩
    · rw [trials, henters, hgrants, htrials]
      rfl
    · rw [unreported, henters, hgrants, hunreported]
      rfl

/-- **Trials of a half-open breaker.** Fewer are reported than close the circuit; but any number of
questions more are answered yes, and leave the breaker half-open. -/
theorem halfOpen_trials (config : Config) (hv : config.validate = .ok ()) (start : Instant)
    (actions : List Action)
    (hcirc : (after config (Course.run start actions).past).circuit = .halfOpen) :
    trials config (Course.run start actions).past <
        config.maxRequests.toNat + unreported config (Course.run start actions).past ∧
      ∀ n, let more := Course.run start (actions ++ List.replicate n (.operate .allow))
        (after config more.past).circuit = .halfOpen ∧
        trials config more.past = trials config (Course.run start actions).past + n ∧
        unreported config more.past = unreported config (Course.run start actions).past + n := by
  refine ⟨?_, fun n => ?_⟩
  · obtain ⟨hcount, hlt⟩ := (inv_after hv (Course.run start actions).past).halfOpen hcirc
    have hle := trials_le config (Course.run start actions).past
    omega
  · obtain ⟨hafter, hcounts⟩ := trials_replicate hv (Course.run start actions).now hcirc n
    rw [Course.run_replicate]
    exact ⟨(congrArg Breaker.circuit hafter).trans hcirc, hcounts⟩

/-- Two trials of three, each reported before the next. -/
def prompt : List Action := recovering ++ [.operate .success, .operate .allow]

theorem halfOpen_trials_prompt :
    Config.standard.validate = .ok () ∧
      (after .standard (Course.run .origin prompt).past).circuit = .halfOpen ∧
      trials .standard (Course.run .origin prompt).past <
        Config.standard.maxRequests.toNat + unreported .standard (Course.run .origin prompt).past ∧
      unreported .standard (Course.run .origin prompt).past = 1 :=
  ⟨rfl, by decide, (halfOpen_trials .standard rfl .origin prompt (by decide)).1, by decide⟩

/-- **The number of successes that closes the circuit is no cap** on the trials of an episode. -/
theorem halfOpen_uncapped :
    ¬∀ (config : Config) (start : Instant) (actions : List Action), config.validate = .ok () →
      (after config (Course.run start actions).past).circuit = .halfOpen →
      trials config (Course.run start actions).past ≤ config.maxRequests.toNat := by
  intro h
  have hle := h .standard .origin (recovering ++ List.replicate 3 (.operate .allow)) rfl (by decide)
  exact absurd hle (by decide)

end CallGuard.Breaker
