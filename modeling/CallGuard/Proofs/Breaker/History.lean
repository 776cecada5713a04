import CallGuard.Breaker.Basic

/-!
# The history of a breaker

What a breaker does next can be read off what was done to it: from failures in a row,
from the time of the last failure, and from successes since it became half-open. None
of these is taken from what the breaker remembers.

* `Breaker.Course`: a clock, and what was done to a new breaker so far.
* `Breaker.Follows`: what the history says about every state and the next operation.
* `Breaker.inv_after`: the breaker remembers of its history what its state needs.
* `Breaker.follows_history`: **a breaker follows its history.**
-/

namespace CallGuard.Breaker

/-- What can happen: an operation, or time moving on. -/
inductive Action where
  | operate (op : Operation)
  | advance (span : Span)
deriving DecidableEq

/-- An operation and its time on the breaker's clock. -/
structure Entry where
  op : Operation
  time : Instant
deriving DecidableEq

/-- What a clock shows, and what was done to a new breaker so far, latest first. -/
structure Course where
  now : Instant
  past : List Entry

namespace Course

/-- One action. A clock that would leave its range stays. -/
def step (c : Course) : Action → Course
  | .operate op => ⟨c.now, ⟨op, c.now⟩ :: c.past⟩
  | .advance span => ⟨(c.now.add? span).getD c.now, c.past⟩

/-- **Actions one after another**, from a time at which nothing was done. -/
def run (start : Instant) (actions : List Action) : Course := actions.foldl step ⟨start, []⟩

/-- The same operation again and again, all at one time. -/
theorem run_replicate (start : Instant) (actions : List Action) (op : Operation) (n : Nat) :
    run start (actions ++ List.replicate n (.operate op)) =
      ⟨(run start actions).now,
        List.replicate n ⟨op, (run start actions).now⟩ ++ (run start actions).past⟩ := by
  rw [run, List.foldl_append, ← run]
  generalize run start actions = c
  induction n generalizing c with
  | zero => rfl
  | succ n ih =>
    rw [List.replicate_succ, List.foldl_cons, ih, List.replicate_succ', List.append_assoc]
    rfl

/-- Nothing was done later than now. -/
theorem time_le_now (start : Instant) (actions : List Action) :
    ∀ e ∈ (run start actions).past, e.time ≤ (run start actions).now := by
  suffices h : ∀ c : Course, (∀ e ∈ c.past, e.time ≤ c.now) →
      ∀ e ∈ (actions.foldl step c).past, e.time ≤ (actions.foldl step c).now from
    h ⟨start, []⟩ (by simp)
  induction actions with
  | nil => exact fun _ h => h
  | cons a rest ih =>
    intro c h
    apply ih
    cases a with
    | operate op =>
      intro e he
      rcases List.mem_cons.1 he with rfl | he
      · exact Int.le_refl _
      · exact h e he
    | advance span =>
      intro e he
      have hle := h e he
      cases hadd : c.now.add? span with
      | none => simpa [step, hadd] using hle
      | some t =>
        have ht := Instant.add?_eq_some_iff.1 hadd
        simp only [step, hadd, Option.getD_some, Instant.le_iff] at hle ⊢
        omega

end Course

/-! ## What a history tells -/

/-- The breaker after a history, latest first, that began with a new one. -/
def after (config : Config) : List Entry → Breaker
  | [] => new config
  | e :: before => ((after config before).perform e.time e.op).breaker

/-- True if an operation moved the breaker into a state. -/
def enters (config : Config) (target : Circuit) (e : Entry) (before : List Entry) : Bool :=
  (after config before).circuit != target && (after config (e :: before)).circuit == target

/-- **Failures in a row**: those since the latest of creation, reset, success and entry into closed. -/
def failuresInRow (config : Config) : List Entry → Nat
  | [] => 0
  | e :: before =>
    if e.op = .reset ∨ e.op = .success ∨ enters config .closed e before then 0
    else failuresInRow config before + if e.op = .failure then 1 else 0

/-- The time of the latest failure. -/
def lastFailed : List Entry → Option Instant
  | [] => none
  | e :: before => if e.op = .failure then some e.time else lastFailed before

/-- **Successful trials**: the successes since the latest entry into half-open. -/
def trialSuccesses (config : Config) : List Entry → Nat
  | [] => 0
  | e :: before =>
    if enters config .halfOpen e before then 0
    else trialSuccesses config before + if e.op = .success then 1 else 0

/-! ## What a breaker remembers -/

/-- **What a breaker remembers of its history** is what the state it is in needs. -/
structure Inv (config : Config) (past : List Entry) : Prop where
  settings : (after config past).config = config
  closed : (after config past).circuit = .closed →
    (after config past).failures = failuresInRow config past ∧
      (after config past).failures < config.threshold.toNat
  opened : (after config past).circuit = .opened →
    ∃ t, lastFailed past = some t ∧ (after config past).lastFailure = some t
  halfOpen : (after config past).circuit = .halfOpen →
    (after config past).successes = trialSuccesses config past ∧
      (after config past).successes < config.maxRequests.toNat

variable {config : Config} {past : List Entry}

theorem after_cons (config : Config) (past : List Entry) (e : Entry) :
    after config (e :: past) = ((after config past).perform e.time e.op).breaker := rfl

theorem inv_new (hv : config.validate = .ok ()) : Inv config [] := by
  obtain ⟨hopen, hclose⟩ := (Config.validate_ok_iff config).1 hv
  exact ⟨rfl, fun _ => ⟨rfl, hopen⟩, nofun, nofun⟩

/-- A question opens no circuit and closes none; it may make an open one half-open, with no trial yet. -/
theorem inv_allow (time : Instant) (hv : config.validate = .ok ()) (h : Inv config past) :
    Inv config (⟨.allow, time⟩ :: past) := by
  obtain ⟨-, hclose⟩ := (Config.validate_ok_iff config).1 hv
  obtain ⟨hs, hc, ho, hh⟩ := h
  have hnext := after_cons config past ⟨.allow, time⟩
  cases hcirc : (after config past).circuit with
  | closed =>
    rw [allow_closed hcirc] at hnext
    refine ⟨by rw [hnext, hs], fun _ => ?_, ?_, ?_⟩
    · simpa [hnext, failuresInRow, enters, hcirc] using hc hcirc
    · simp [hnext, hcirc]
    · simp [hnext, hcirc]
  | halfOpen =>
    rw [allow_halfOpen hcirc] at hnext
    refine ⟨by rw [hnext, hs], ?_, ?_, fun _ => ?_⟩
    · simp [hnext, hcirc]
    · simp [hnext, hcirc]
    · simpa [hnext, trialSuccesses, enters, hcirc] using hh hcirc
  | opened =>
    by_cases htime : (after config past).config.timeout ≤ (after config past).sinceFailure time
    · rw [allow_due hcirc htime] at hnext
      refine ⟨by rw [hnext]; exact hs, ?_, ?_, fun _ => ?_⟩
      · simp [hnext]
      · simp [hnext]
      · simp [trialSuccesses, enters, hcirc, hnext, hclose]
    · rw [allow_early hcirc htime] at hnext
      refine ⟨by rw [hnext, hs], ?_, fun _ => ?_, ?_⟩
      · simp [hnext, hcirc]
      · simpa [hnext, lastFailed] using ho hcirc
      · simp [hnext, hcirc]

/-- A success ends a row of failures, and the trial that makes up the number closes the circuit. -/
theorem inv_success (time : Instant) (hv : config.validate = .ok ()) (h : Inv config past) :
    Inv config (⟨.success, time⟩ :: past) := by
  obtain ⟨hopen, -⟩ := (Config.validate_ok_iff config).1 hv
  obtain ⟨hs, -, ho, hh⟩ := h
  have hnext := after_cons config past ⟨.success, time⟩
  cases hcirc : (after config past).circuit with
  | closed =>
    rw [success_closed hcirc] at hnext
    refine ⟨by rw [hnext]; exact hs, fun _ => ?_, ?_, ?_⟩
    · simp [failuresInRow, hnext, hopen]
    · simp [hnext, hcirc]
    · simp [hnext, hcirc]
  | opened =>
    -- it ends the row of failures in the history only, which an open circuit does not look at
    rw [success_opened hcirc] at hnext
    refine ⟨by rw [hnext, hs], ?_, fun _ => ?_, ?_⟩
    · simp [hnext, hcirc]
    · simpa [hnext, lastFailed] using ho hcirc
    · simp [hnext, hcirc]
  | halfOpen =>
    obtain ⟨hcount, hlt⟩ := hh hcirc
    rcases Nat.lt_or_ge ((after config past).successes + 1) (after config past).config.maxRequests.toNat
      with hmore | hlast
    · rw [success_trial hcirc hmore] at hnext
      refine ⟨by rw [hnext]; exact hs, ?_, ?_, fun _ => ?_⟩
      · simp [hnext, hcirc]
      · simp [hnext, hcirc]
      · rw [hs] at hmore
        simp [hnext, trialSuccesses, enters, hcirc, ← hcount, hmore]
    · rw [success_last hcirc hlast] at hnext
      refine ⟨by rw [hnext]; exact hs, fun _ => ?_, ?_, ?_⟩
      · simp [failuresInRow, hnext, hopen]
      · simp [hnext]
      · simp [hnext]

/-- A failure lengthens the row, and one that makes up the number opens the circuit, now. -/
theorem inv_failure (time : Instant) (h : Inv config past) : Inv config (⟨.failure, time⟩ :: past) := by
  obtain ⟨hs, hc, -, -⟩ := h
  have hnext := after_cons config past ⟨.failure, time⟩
  cases hcirc : (after config past).circuit with
  | closed =>
    obtain ⟨hcount, hlt⟩ := hc hcirc
    have hlt : (after config past).failures < (after config past).config.threshold.toNat := by
      rw [hs]; exact hlt
    rcases Nat.lt_or_eq_of_le (Nat.succ_le_of_lt hlt) with hmore | hlast
    · rw [failure_closed hcirc hmore] at hnext
      refine ⟨by rw [hnext]; exact hs, fun _ => ?_, ?_, ?_⟩
      · rw [hs] at hmore
        simp [hnext, failuresInRow, enters, hcirc, ← hcount, hmore]
      · simp [hnext, hcirc]
      · simp [hnext, hcirc]
    · rw [failure_last hcirc hlast] at hnext
      exact ⟨by rw [hnext]; exact hs, by simp [hnext], fun _ => ⟨time, rfl, by rw [hnext]⟩, by simp [hnext]⟩
  | opened =>
    -- the counter moves on without a meaning, and the timeout begins again
    rw [failure_opened hcirc] at hnext
    refine ⟨by rw [hnext]; exact hs, ?_, fun _ => ⟨time, rfl, by rw [hnext]; rfl⟩, ?_⟩
    · simp [hnext, countFailure, hcirc]
    · simp [hnext, countFailure, hcirc]
  | halfOpen =>
    rw [failure_halfOpen hcirc] at hnext
    exact ⟨by rw [hnext]; exact hs, by simp [hnext], fun _ => ⟨time, rfl, by rw [hnext]; rfl⟩, by simp [hnext]⟩

/-- A reset leaves nothing to remember. -/
theorem inv_reset (time : Instant) (hv : config.validate = .ok ()) (h : Inv config past) :
    Inv config (⟨.reset, time⟩ :: past) := by
  obtain ⟨hopen, -⟩ := (Config.validate_ok_iff config).1 hv
  have hnext := after_cons config past ⟨.reset, time⟩
  rw [reset_breaker] at hnext
  refine ⟨by rw [hnext]; exact h.settings, fun _ => ?_, ?_, ?_⟩
  · simp [hnext, failuresInRow, hopen]
  · simp [hnext]
  · simp [hnext]

/-- **The breaker remembers of its history what its state needs.** -/
theorem inv_after (hv : config.validate = .ok ()) (past : List Entry) : Inv config past := by
  induction past with
  | nil => exact inv_new hv
  | cons e before ih =>
    obtain ⟨op, time⟩ := e
    cases op with
    | allow => exact inv_allow time hv ih
    | success => exact inv_success time hv ih
    | failure => exact inv_failure time ih
    | reset => exact inv_reset time hv ih

/-! ## What the history says -/

/-- **A breaker follows its history** if in every state the next operation, now, does what the history of earlier
ones asks for. While it is closed, the failures in a row are counted, and the one that makes up the threshold opens.
While it is open, only a reset leaves, or a question once the timeout has passed since the latest failure. While it
is half-open, a failure reopens, and the success that makes up the number of trials closes. -/
structure Follows (config : Config) (c : Course) : Prop where
  closed : (after config c.past).circuit = .closed →
    (after config c.past).failures = failuresInRow config c.past ∧
    failuresInRow config c.past < config.threshold.toNat ∧
    ∀ op, (after config (⟨op, c.now⟩ :: c.past)).circuit =
      if op = .failure ∧ failuresInRow config c.past + 1 = config.threshold.toNat then .opened
      else .closed
  opened : (after config c.past).circuit = .opened →
    ∃ failed, lastFailed c.past = some failed ∧
    (∀ op, (after config (⟨op, c.now⟩ :: c.past)).circuit =
      if op = .reset then .closed
      else if op = .allow ∧ failed.nanos + config.timeout.nanos ≤ c.now.nanos then .halfOpen
      else .opened) ∧
    (failed.nanos + config.timeout.nanos ≤ c.now.nanos →
      ((after config c.past).perform c.now .allow).answer = some true) ∧
    (¬failed.nanos + config.timeout.nanos ≤ c.now.nanos →
      (after config c.past).perform c.now .allow = ⟨some false, after config c.past, none⟩)
  halfOpen : (after config c.past).circuit = .halfOpen →
    (after config c.past).successes = trialSuccesses config c.past ∧
    trialSuccesses config c.past < config.maxRequests.toNat ∧
    (∀ op, (after config (⟨op, c.now⟩ :: c.past)).circuit =
      if op = .failure then .opened
      else if op = .reset ∨ op = .success ∧ trialSuccesses config c.past + 1 = config.maxRequests.toNat
      then .closed
      else .halfOpen) ∧
    ∀ op, (after config (⟨op, c.now⟩ :: c.past)).circuit = .closed →
      (after config (⟨op, c.now⟩ :: c.past)).failures = 0 ∧
        (after config (⟨op, c.now⟩ :: c.past)).successes = 0

theorem lastFailed_time {t : Instant} (h : lastFailed past = some t) : ∃ e ∈ past, e.time = t := by
  induction past with
  | nil => cases h
  | cons e before ih =>
    rw [lastFailed] at h
    split at h
    · exact ⟨e, List.mem_cons_self, Option.some.inj h⟩
    · obtain ⟨e', he, ht⟩ := ih h
      exact ⟨e', List.mem_cons_of_mem _ he, ht⟩

/-- An open breaker asks whether the timeout is over, counted from the latest failure. -/
theorem timeout_le_iff {b : Breaker} {failed now : Instant} (hb : b.lastFailure = some failed)
    (hle : failed ≤ now) :
    b.config.timeout ≤ b.sinceFailure now ↔ failed.nanos + b.config.timeout.nanos ≤ now.nanos := by
  rw [Instant.le_iff] at hle
  rw [Span.le_iff, sinceFailure, hb, Instant.since_nanos]
  omega

theorem follows_closed {now : Instant} (h : Inv config past)
    (hcirc : (after config past).circuit = .closed) (op : Operation) :
    (after config (⟨op, now⟩ :: past)).circuit =
      if op = .failure ∧ failuresInRow config past + 1 = config.threshold.toNat then .opened
      else .closed := by
  obtain ⟨hcount, hlt⟩ := h.closed hcirc
  rw [after_cons, ← hcount]
  have hlt : (after config past).failures < (after config past).config.threshold.toNat := by
    rw [h.settings]; exact hlt
  cases op with
  | allow => simp [allow_closed hcirc, hcirc]
  | success => simp [success_closed hcirc, hcirc]
  | reset => simp [reset_breaker]
  | failure =>
    rcases Nat.lt_or_eq_of_le (Nat.succ_le_of_lt hlt) with hmore | hlast
    · rw [failure_closed hcirc hmore]
      rw [h.settings] at hmore
      simp [hcirc, Nat.ne_of_lt hmore]
    · rw [failure_last hcirc hlast]
      rw [h.settings] at hlast
      exact (if_pos ⟨rfl, hlast⟩).symm

theorem follows_opened {now failed : Instant} (h : Inv config past)
    (hcirc : (after config past).circuit = .opened) (hf : lastFailed past = some failed)
    (hle : failed ≤ now) (op : Operation) :
    (after config (⟨op, now⟩ :: past)).circuit =
      if op = .reset then .closed
      else if op = .allow ∧ failed.nanos + config.timeout.nanos ≤ now.nanos then .halfOpen
      else .opened := by
  obtain ⟨t, ht, hb⟩ := h.opened hcirc
  obtain rfl : t = failed := Option.some.inj (ht.symm.trans hf)
  have hdue := timeout_le_iff hb hle
  rw [h.settings] at hdue
  rw [after_cons]
  cases op with
  | success => simp [success_opened hcirc, hcirc]
  | failure => simp [failure_opened hcirc, countFailure, hcirc]
  | reset => simp [reset_breaker]
  | allow =>
    by_cases htime : config.timeout ≤ (after config past).sinceFailure now
    · rw [allow_due hcirc (by rw [h.settings]; exact htime)]
      simp [hdue.1 htime]
    · rw [allow_early hcirc (by rw [h.settings]; exact htime)]
      simp [hcirc, mt hdue.2 htime]

theorem follows_halfOpen {now : Instant} (h : Inv config past)
    (hcirc : (after config past).circuit = .halfOpen) (op : Operation) :
    (after config (⟨op, now⟩ :: past)).circuit =
      if op = .failure then .opened
      else if op = .reset ∨ op = .success ∧ trialSuccesses config past + 1 = config.maxRequests.toNat
      then .closed
      else .halfOpen := by
  obtain ⟨hcount, hlt⟩ := h.halfOpen hcirc
  rw [after_cons, ← hcount]
  cases op with
  | allow => simp [allow_halfOpen hcirc, hcirc]
  | failure => simp [failure_halfOpen hcirc]
  | reset => simp [reset_breaker]
  | success =>
    rcases Nat.lt_or_eq_of_le (Nat.succ_le_of_lt hlt) with hmore | hlast
    · rw [success_trial hcirc (by rw [h.settings]; exact hmore)]
      simp [hcirc, Nat.ne_of_lt hmore]
    · rw [success_last hcirc (by rw [h.settings]; exact Nat.le_of_eq hlast.symm)]
      simp [← hlast]

/-- Both counters are zero where a half-open circuit closes. -/
theorem counters_closed {now : Instant} {op : Operation}
    (hcirc : (after config past).circuit = .halfOpen)
    (hclosed : (after config (⟨op, now⟩ :: past)).circuit = .closed) :
    (after config (⟨op, now⟩ :: past)).failures = 0 ∧
      (after config (⟨op, now⟩ :: past)).successes = 0 := by
  rw [after_cons] at hclosed ⊢
  cases op with
  | allow => simp [allow_halfOpen hcirc, hcirc] at hclosed
  | failure => simp [failure_halfOpen hcirc] at hclosed
  | reset => simp [reset_breaker]
  | success =>
    rcases Nat.lt_or_ge ((after config past).successes + 1) (after config past).config.maxRequests.toNat
      with hmore | hlast
    · simp [success_trial hcirc hmore, hcirc] at hclosed
    · simp [success_last hcirc hlast]

/-- **A breaker follows its history**, whatever is done to it and however time moves. -/
theorem follows_history (config : Config) (hv : config.validate = .ok ()) (start : Instant)
    (actions : List Action) : Follows config (Course.run start actions) := by
  have h := inv_after hv (Course.run start actions).past
  refine ⟨fun hcirc => ?_, fun hcirc => ?_, fun hcirc => ?_⟩
  · obtain ⟨hcount, hlt⟩ := h.closed hcirc
    exact ⟨hcount, hcount ▸ hlt, follows_closed h hcirc⟩
  · obtain ⟨failed, hf, hb⟩ := h.opened hcirc
    obtain ⟨e, he, rfl⟩ := lastFailed_time hf
    have hle := Course.time_le_now start actions e he
    have hdue := timeout_le_iff hb hle
    refine ⟨e.time, hf, follows_opened h hcirc hf hle, fun hlate => ?_, fun hearly => ?_⟩
    · rw [allow_due hcirc (hdue.2 (by rw [h.settings]; exact hlate))]
    · exact allow_early hcirc (fun ht => hearly (by rw [h.settings] at hdue ht; exact hdue.1 ht))
  · obtain ⟨hcount, hlt⟩ := h.halfOpen hcirc
    exact ⟨hcount, hcount ▸ hlt, follows_halfOpen h hcirc, fun _ => counters_closed hcirc⟩

/-- A default breaker, opened by failures and asked again after its timeout. -/
def recovering : List Action :=
  List.replicate 5 (.operate .failure) ++ [.advance (.ofMillis 30000), .operate .allow]

theorem follows_history_recovering :
    Config.standard.validate = .ok () ∧ Follows .standard (Course.run .origin recovering) ∧
      (after .standard (Course.run .origin recovering).past).circuit = .halfOpen :=
  ⟨rfl, follows_history .standard rfl .origin _, by decide⟩

end CallGuard.Breaker
