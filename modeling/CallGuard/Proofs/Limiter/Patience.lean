import CallGuard.Proofs.Limiter.Sweeps.Bucket
import CallGuard.Proofs.Limiter.Sweeps.CellRate
import CallGuard.Proofs.Limiter.Sweeps.Window

/-!
# When sweeps loosen a limit

A sweep drops keys that were idle for longer than a threshold, and a dropped key starts
afresh. Settings are **patient** if a key that is idle for so long is as good as new
anyway. Validation asks for nothing of the kind: it accepts a window of ten seconds whose
keys are forgotten at once, and such a limiter admits more than its rate.

* `Limiter.Config.NeverLooser`: a limiter that sweeps admits no more than one that does not, and a
  window no more than its rate. `Limiter.Config.Looser` is the opposite.
* `Limiter.Config.Patient`: the settings whose sweeps drop only what is as good as new.
* `Limiter.patient_slidingWindow`: for a sliding window this is a threshold of a window or more.
* `Limiter.sweeps_exact`: **patient settings are never looser, and impatient ones are**, if they are plain.
* `Limiter.forgetful_looser`: not all accepted settings are never looser.
-/

namespace CallGuard.Limiter

/-- The same settings without sweeps: none is ever due. -/
def Config.unswept (c : Config) : Config := { c with cleanupInterval := .longest }

/-- **A key may be forgotten** after an idle time: out of the window, full again, or as far ahead as a
new one. -/
def Algorithm.Forgives : Algorithm → Span → Prop
  | .tokenBucket rate capacity, idle => (⟨rate, capacity⟩ : TokenBucket Float).Forgives idle
  | .slidingWindow _ window, idle => window < idle
  | .cellRate rate burst, idle => (CellRate.ofRate rate burst).Forgives idle

/-- An emission interval after a time is in the range of the clock. -/
def Algorithm.InRange : Algorithm → Instant → Prop
  | .cellRate rate burst, now => (CellRate.ofRate rate burst).InRange now
  | .tokenBucket _ _, _ => True
  | .slidingWindow _ _, _ => True

/-- **Settings are patient** if their sweeps drop only what may be forgotten. -/
def Config.Patient (c : Config) (start : Instant) : Prop :=
  CallGuard.Patient start c.cleanupInterval c.inactiveThreshold c.algorithm.InRange c.algorithm.Forgives

/-- **A run of a limiter**: time does not go back, not before its start either. -/
structure Config.Runs (c : Config) (start : Instant) (run : List Query) : Prop where
  ordered : Ordered run
  begins : ∀ q ∈ run, start ≤ q.time
  inRange : ∀ q ∈ run, c.algorithm.InRange q.time

/-- **Sweeps never loosen the limit** in a run. No key is admitted more often than without sweeps, and no closed
interval of the length of a window holds more admissions than the rate. -/
structure Config.NeverLooser (c : Config) (start : Instant) (run : List Query) : Prop where
  admitted : ∀ key,
    ((c.build start).admitted key run).length ≤ ((c.unswept.build start).admitted key run).length
  window : ∀ rate window, c.algorithm = .slidingWindow rate window → ∀ key (first : Int),
    ((c.build start).admitted key run).countP
      (fun t => first ≤ t.nanos ∧ t.nanos ≤ first + window.nanos) ≤ rate.toNat

/-- **Sweeps loosen the limit** in a run. Some key is admitted more often than without sweeps, and some closed
interval of the length of a window holds more admissions than the rate. -/
structure Config.Looser (c : Config) (start : Instant) (run : List Query) : Prop where
  admitted : ∃ key,
    ((c.unswept.build start).admitted key run).length < ((c.build start).admitted key run).length
  window : ∀ rate window, c.algorithm = .slidingWindow rate window → ∃ key, ∃ first : Int,
    rate.toNat < ((c.build start).admitted key run).countP
      (fun t => first ≤ t.nanos ∧ t.nanos ≤ first + window.nanos)

/-- What an impatient limiter needs to be looser: a new key has its full burst ahead in the range of the
clock, and a bucket holds whole tokens. -/
def Config.Plain (c : Config) (start : Instant) : Prop :=
  match c.algorithm with
  | .tokenBucket _ capacity => ∃ n : UInt64, n.toNat < 2 ^ 53 ∧ capacity = n.toFloat
  | .slidingWindow _ _ => True
  | .cellRate rate burst =>
    Instant.minNanos ≤ start.nanos - ((CellRate.ofRate rate burst).interval.nanos * burst.toNat : Nat)

variable {c : Config} {start : Instant} {run : List Query}

/-- **A sliding window is patient** if its keys are kept for a window, or if no key can be dropped before
the end of the clock. -/
theorem patient_slidingWindow {rate : UInt32} {window interval threshold : Span} :
    (⟨.slidingWindow rate window, interval, threshold⟩ : Config).Patient start ↔
      window ≤ threshold ∨ Instant.maxNanos ≤ start.nanos + max threshold.nanos interval.nanos := by
  have hmin := start.inRange.1
  have hwindow := window.nanos_le
  rw [Span.le_iff]
  constructor
  · intro hp
    by_contra hno
    -- the shortest idle time above the threshold ends with a sweep, and is within the window
    have hforgiven : window < (⟨threshold.nanos + 1, by omega⟩ : Span) :=
      hp ⟨threshold.nanos + 1, by omega⟩ (Nat.lt_succ_self threshold.nanos)
        ⟨start.nanos + max threshold.nanos interval.nanos + 1, by omega, by omega⟩ trivial
        (by dsimp only; omega) (by dsimp only; omega)
    rw [Span.lt_iff] at hforgiven
    dsimp only at hforgiven
    omega
  · intro h idle hidle now _ hspan hlate
    have hnow := now.inRange.2
    have hidle : threshold.nanos < idle.nanos := hidle
    have hlate : start.nanos + interval.nanos < now.nanos := hlate
    show window.nanos < idle.nanos
    omega

/-- What a limiter of given settings admits, by its rule. -/
theorem admitted_build (c : Config) (start : Instant) (key : String) (run : List Query) :
    (c.build start).admitted key run =
      match c.algorithm with
      | .tokenBucket rate capacity =>
        (⟨rate, capacity⟩ : TokenBucket Float).rule.swept start c.cleanupInterval c.inactiveThreshold key run
      | .slidingWindow rate window =>
        (⟨rate, window⟩ : SlidingWindow).rule.swept start c.cleanupInterval c.inactiveThreshold key run
      | .cellRate rate burst =>
        (CellRate.ofRate rate burst).rule.swept start c.cleanupInterval c.inactiveThreshold key run := by
  obtain ⟨algorithm, interval, threshold⟩ := c
  rw [admitted]
  cases algorithm with
  | tokenBucket rate capacity =>
    exact congrArg (admittedBy · key run) (decision_tokenBucket _ (.new start interval threshold))
  | slidingWindow rate window =>
    exact congrArg (admittedBy · key run) (decision_slidingWindow _ (.new start interval threshold))
  | cellRate rate burst =>
    exact congrArg (admittedBy · key run) (decision_cellRate _ (.new start interval threshold))

/-- **Patient settings are never looser.** -/
theorem neverLooser (hv : c.validate = .ok ()) (hp : c.Patient start) (hr : c.Runs start run) :
    c.NeverLooser start run := by
  obtain ⟨ho, hstart, hrange⟩ := hr
  obtain ⟨algorithm, interval, threshold⟩ := c
  cases algorithm with
  | tokenBucket rate capacity =>
    obtain ⟨n, r, hfits⟩ := TokenBucket.exists_fits hv
    refine ⟨fun key => ?_, nofun⟩
    rw [admitted_build, admitted_build]
    exact Nat.le_of_eq (congrArg List.length
      (TokenBucket.swept_eq hfits hp ho hstart key))
  | cellRate rate burst =>
    refine ⟨fun key => ?_, nofun⟩
    rw [admitted_build, admitted_build]
    exact CellRate.swept_le hp ho hstart hrange key
  | slidingWindow rate window =>
    have hp : CallGuard.Patient start interval threshold (fun _ => True)
        ((⟨rate, window⟩ : SlidingWindow).window < ·) := hp
    refine ⟨fun key => ?_, fun rate' window' heq key first => ?_⟩
    · rw [admitted_build, admitted_build]
      exact Nat.le_of_eq (congrArg List.length (SlidingWindow.swept_eq hp ho hstart key))
    · cases heq
      rw [admitted_build]
      exact SlidingWindow.countP_swept_le hp ho hstart key first

/-! ## Impatient settings -/

/-- An earlier time is in range too. -/
theorem Algorithm.InRange.mono {a : Algorithm} {t now : Instant} (h : a.InRange now) (hle : t ≤ now) :
    a.InRange t := by
  cases a with
  | tokenBucket rate capacity => trivial
  | slidingWindow rate window => trivial
  | cellRate rate burst => exact Int.le_trans (Int.add_le_add_right hle _) h

/-- **An idle time that ends with a sweep**: it begins before a sweep is due and ends after. -/
theorem exists_idle {interval threshold idle : Span} {now : Instant} (hidle : threshold < idle)
    (hspan : start.nanos + idle.nanos ≤ now.nanos) (hlate : start.nanos + interval.nanos < now.nanos) :
    ∃ first second : Instant, start ≤ first ∧ second ≤ now ∧ first.nanos + idle.nanos = second.nanos ∧
      first.nanos ≤ start.nanos + interval.nanos ∧ start.nanos + interval.nanos < second.nanos := by
  have hmin := start.inRange.1
  have hmax := now.inRange.2
  rw [Span.lt_iff] at hidle
  -- the key is used as early as it can be for the sweep to be due when the idle time is over
  refine ⟨⟨start.nanos + (interval.nanos + 1 - idle.nanos : Nat), by omega, by omega⟩,
    ⟨start.nanos + (interval.nanos + 1 - idle.nanos : Nat) + idle.nanos, by omega, by omega⟩,
    ?_, ?_, rfl, ?_, ?_⟩
  · rw [Instant.le_iff]
    dsimp only
    omega
  · rw [Instant.le_iff]
    dsimp only
    omega
  · dsimp only
    omega
  · dsimp only
    omega

/-- Requests at two instants are a run. -/
theorem runs_bursts {first second now : Instant} (hnow : c.algorithm.InRange now) (hstart : start ≤ first)
    (hle : first ≤ second) (hsecond : second ≤ now) (key : String) (n m : Nat) :
    c.Runs start (Rule.bursts key first second n m) := by
  refine ⟨Rule.ordered_bursts hle key n m, fun q hq => ?_, fun q hq => ?_⟩
  · rcases Rule.time_of_mem_bursts hq with h | h
    · exact h ▸ Int.le_trans hstart hle
    · exact h ▸ hstart
  · rcases Rule.time_of_mem_bursts hq with h | h
    · exact h ▸ hnow.mono hsecond
    · exact h ▸ hnow.mono (Int.le_trans hle hsecond)

/-- **Impatient settings are looser** in some run. -/
theorem exists_looser (hv : c.validate = .ok ()) (hplain : c.Plain start) (hp : ¬c.Patient start) :
    ∃ run, c.Runs start run ∧ c.Looser start run := by
  simp only [Config.Patient, CallGuard.Patient, not_forall] at hp
  obtain ⟨idle, hidle, now, hnow, hspan, hlate, hforgiven⟩ := hp
  -- what the first requests use up is not there for the second ones, unless a sweep forgets it
  obtain ⟨first, second, hfirst, hsecond, hbetween, hearly, hafter⟩ := exists_idle hidle hspan hlate
  have hle : first ≤ second := by
    rw [Instant.le_iff]
    omega
  have hruns := runs_bursts (c := c) hnow hfirst hle hsecond ""
  obtain ⟨algorithm, interval, threshold⟩ := c
  cases algorithm with
  | tokenBucket rate capacity =>
    obtain ⟨size, pace, hfits⟩ := TokenBucket.exists_fits hv
    obtain ⟨tokens, htokens, hwhole⟩ := hplain
    obtain ⟨n, m, hn, hless⟩ := TokenBucket.exists_loosened hfits htokens hwhole hforgiven hbetween
    refine ⟨_, hruns n m, ⟨"", ?_⟩, nofun⟩
    rw [admitted_build, admitted_build]
    exact Rule.lt_of_bursts (TokenBucket.stamps _) "" hidle hbetween hearly hafter hn hless
  | cellRate rate burst =>
    have hrange := hnow.mono hsecond
    rw [Instant.le_iff] at hfirst
    obtain ⟨n, m, hn, hless⟩ := CellRate.exists_loosened hforgiven hbetween hrange
      (Int.le_trans hplain (Int.sub_le_sub_right hfirst _))
    refine ⟨_, hruns n m, ⟨"", ?_⟩, nofun⟩
    rw [admitted_build, admitted_build]
    exact Rule.lt_of_bursts (CellRate.stamps _) "" hidle hbetween hearly hafter hn hless
  | slidingWindow rate window =>
    have hrate : 0 < rate.toNat := SlidingWindow.rate_pos hv
    obtain ⟨n, m, hn, hless, hmore⟩ :=
      SlidingWindow.exists_loosened (w := ⟨rate, window⟩) hrate hforgiven hbetween
    have hstamps := SlidingWindow.stamps ⟨rate, window⟩
    refine ⟨_, hruns n m, ⟨"", ?_⟩, fun rate' window' heq => ⟨"", first.nanos, ?_⟩⟩
    · rw [admitted_build, admitted_build]
      exact Rule.lt_of_bursts hstamps "" hidle hbetween hearly hafter hn hless
    · cases heq
      rw [admitted_build]
      refine Nat.lt_of_lt_of_eq ?_
        (SlidingWindow.countP_bursts (w := ⟨rate, window⟩) hforgiven hbetween "" n m).symm
      rw [(Rule.length_bursts hstamps "" hidle hbetween hearly hafter hn m).2]
      exact hmore

/-! ## The exact condition -/

/-- **Sweeps never loosen the limit where the settings are patient**, and do in some run where they are
not, if the settings are plain. -/
theorem sweeps_exact (c : Config) (hv : c.validate = .ok ()) (start : Instant) :
    (c.Patient start → ∀ run, c.Runs start run → c.NeverLooser start run) ∧
      (c.Plain start → ¬c.Patient start → ∃ run, c.Runs start run ∧ c.Looser start run) :=
  ⟨fun hp _ hr => neverLooser hv hp hr, exists_looser hv⟩

/-- One request in ten seconds, and every sweep forgets all that is not of its own instant. -/
def Config.forgetful : Config := ⟨.slidingWindow 1 (.ofMillis 10000), .zero, .zero⟩

/-- Keys are kept for the whole of a window. -/
def Config.mindful : Config := ⟨.slidingWindow 1 (.ofMillis 10000), .zero, .ofMillis 10000⟩

/-- Two requests for one key, a millisecond apart. -/
def hasty : List Query := [⟨"k", ⟨1000000, by decide⟩⟩, ⟨"k", .origin⟩]

theorem sweeps_exact_mindful :
    Config.mindful.NeverLooser .origin hasty ∧
      ∃ run, Config.forgetful.Runs .origin run ∧ Config.forgetful.Looser .origin run := by
  refine ⟨(sweeps_exact .mindful rfl .origin).1 (fun _ hidle _ _ _ _ => hidle) _ ?_,
    (sweeps_exact .forgetful rfl .origin).2 trivial fun hp => ?_⟩
  · exact ⟨by decide, by decide, fun _ _ => trivial⟩
  · -- a millisecond is forgotten, and is no reason to
    have hforgiven : Span.ofMillis 10000 < .ofMillis 1 :=
      hp (.ofMillis 1) (by decide) ⟨1000000, by decide⟩ trivial (by decide) (by decide)
    exact absurd hforgiven (by decide)

/-- **Not all accepted settings are never looser.** -/
theorem forgetful_looser :
    ¬∀ (c : Config) (start : Instant) (run : List Query), c.validate = .ok () → Ordered run →
      (∀ q ∈ run, start ≤ q.time) → c.NeverLooser start run := by
  intro h
  have hnever := h .forgetful .origin hasty rfl (by decide) (by decide)
  exact absurd (hnever.window 1 (.ofMillis 10000) rfl "k" 0) (by decide)

end CallGuard.Limiter
