import CallGuard.Proofs.Limiter.Independence
import CallGuard.Proofs.Limiter.Sweeps.CellRate
import Mathlib.Order.Bounds.Basic

/-!
# Keys of a cell rate limiter by themselves

An arrival time that is more than an interval past is as good as one an interval past: the
next admission moves both to now. So a cell rate sees no more of an entry than the later of
its arrival time and an interval before now, and that is what a new key starts with, if it
is ahead by a burst. With it a request says exactly when it would be admitted.

* `CellRate.view`: what a cell rate sees of an entry.
* `CellRate.views`: forgotten entries and denied requests do not show.
* `CellRate.admits_retry_iff`: after a denial a request is admitted from the arrival time on.
* `CellRate.alone_run`: **a key is served as if it were alone, and told the least wait.**
-/

namespace CallGuard

/-- A number of milliseconds is a wait that is long enough exactly if it makes up for the span. -/
theorem Span.waitMillis_le_iff {s : Span} (h : s.nanos ≤ nanosPerMilli * maxWord) {m : Nat} (hm : 1 ≤ m) :
    s.waitMillis ≤ m ↔ s.nanos ≤ nanosPerMilli * m := by
  unfold nanosPerMilli maxWord at h
  unfold waitMillis nanosPerMilli maxWord
  omega

namespace CellRate

/-- **What a cell rate sees of an entry**: the arrival time, or an interval before now if that is later. -/
def view (c : CellRate) (now : Instant) (e : Stamped Instant) : Int :=
  max e.value.nanos (now.nanos - c.interval.nanos)

/-- A burst before a time is in the range of the clock. -/
def StartsInRange (c : CellRate) (now : Instant) : Prop :=
  Instant.minNanos ≤ now.nanos - (c.interval.nanos * c.burst.toNat : Nat)

instance (c : CellRate) (now : Instant) : Decidable (c.StartsInRange now) :=
  inferInstanceAs (Decidable (Instant.minNanos ≤ now.nanos - (c.interval.nanos * c.burst.toNat : Nat)))

/-- An entry is ahead of its last use by an interval at most. -/
def Near (c : CellRate) (e : Stamped Instant) : Prop := e.value.nanos ≤ e.lastUse.nanos + c.interval.nanos

variable {c : CellRate} {now later : Instant} {e e' : Stamped Instant}

/-- A new key is ahead by an interval or more. -/
theorem fresh_nanos_le (hburst : 1 ≤ c.burst.toNat) (hnow : c.StartsInRange now) :
    (c.fresh now).nanos ≤ now.nanos - c.interval.nanos := by
  have hmore : c.interval.nanos ≤ c.interval.nanos * c.burst.toNat := Nat.le_mul_of_pos_right _ hburst
  rw [fresh_nanos hnow]
  omega

theorem view_fresh (hburst : 1 ≤ c.burst.toNat) (hnow : c.StartsInRange now) (hle : now ≤ later) :
    c.view later ⟨c.rule.fresh now, now⟩ = later.nanos - c.interval.nanos := by
  have hfresh : (c.rule.fresh now).nanos ≤ now.nanos - c.interval.nanos := fresh_nanos_le hburst hnow
  rw [Instant.le_iff] at hle
  unfold view
  dsimp only
  omega

/-- Where the sum is no instant an arrival time that is over moves to now. -/
theorem advanced_nanos_of_not_range {arrival : Instant} (hle : arrival ≤ now)
    (hrange : ¬arrival.nanos + c.interval.nanos ≤ Instant.maxNanos) : (c.advanced now arrival).nanos = now.nanos := by
  have hnone : arrival.add? c.interval = none := by
    cases hsum : arrival.add? c.interval with
    | none => rfl
    | some t =>
      have ht := Instant.add?_eq_some_iff.1 hsum
      have hmax := t.inRange.2
      omega
  unfold advanced
  rw [hnone, Option.getD_none]
  show (if arrival ≤ now then now else arrival : Instant).nanos = now.nanos
  rw [if_pos hle]

theorem advanced_nanos_le {arrival : Instant} (hle : arrival ≤ now) :
    (c.advanced now arrival).nanos ≤ now.nanos + c.interval.nanos := by
  by_cases hrange : arrival.nanos + c.interval.nanos ≤ Instant.maxNanos
  · rw [advanced_nanos_of_range now hrange]
    rw [Instant.le_iff] at hle
    omega
  · rw [advanced_nanos_of_not_range hle hrange]
    omega

theorem admits_iff_view : admits (c.rule.judge now e).1 ↔ c.view now e ≤ now.nanos := by
  unfold view
  rcases Int.lt_or_le now.nanos e.value.nanos with hdenied | hadmitted
  · rw [(judge_denied hdenied).1]
    constructor
    · intro h
      cases h
    · intro h
      omega
  · rw [(judge_admitted hadmitted).1]
    constructor
    · intro _
      omega
    · intro _
      rfl

/-- **The view decides**, also about the arrival time that is left. -/
theorem judge_congr (h : c.view now e = c.view now e') :
    (c.rule.judge now e).1 = (c.rule.judge now e').1 ∧
      (c.rule.judge now e).2.value = (c.rule.judge now e').2.value := by
  unfold view at h
  rcases Int.lt_or_le now.nanos e.value.nanos with hdenied | hadmitted
  · have hvalue : e.value = e'.value := Instant.ext (by omega)
    have hdenied' : now < e'.value := hvalue ▸ hdenied
    rw [(judge_denied hdenied).2, (judge_denied hdenied').2]
    refine ⟨?_, hvalue⟩
    show Except.ok (c.judge now e).1 = Except.ok (c.judge now e').1
    unfold judge
    rw [hvalue]
    split <;> rfl
  · have hadmitted' : e'.value ≤ now := by
      rw [Instant.le_iff]
      omega
    have hadvanced : c.advanced now e.value = c.advanced now e'.value := by
      by_cases hsame : e.value = e'.value
      · rw [hsame]
      · -- both are an interval past, so that both move to now
        have hold : e.value.nanos ≠ e'.value.nanos := fun h => hsame (Instant.ext h)
        have hmax := now.inRange.2
        apply Instant.ext
        rw [advanced_nanos_of_range now (by omega), advanced_nanos_of_range now (by omega)]
        omega
    rw [(judge_admitted hadmitted).2, (judge_admitted hadmitted').2]
    refine ⟨?_, hadvanced⟩
    have hd : c.judge now e = (.allowed (c.remaining now (c.advanced now e.value)), ⟨c.advanced now e.value, now⟩) :=
      if_neg (Int.not_lt.2 hadmitted)
    have hd' : c.judge now e' =
        (.allowed (c.remaining now (c.advanced now e'.value)), ⟨c.advanced now e'.value, now⟩) :=
      if_neg (Int.not_lt.2 hadmitted')
    show Except.ok (c.judge now e).1 = Except.ok (c.judge now e').1
    rw [hd, hd', hadvanced]

/-- **Forgotten entries and denied requests do not show**, if new keys are ahead by a burst and nothing is
forgotten before it is idle for longer than two intervals. -/
theorem views {threshold : Span} (hburst : 1 ≤ c.burst.toNat) (hc : 2 * c.interval.nanos ≤ threshold.nanos) :
    c.rule.Views threshold c.StartsInRange (fun _ => c.Near) c.view where
  fresh {now} _ := by
    have hle := Instant.le_iff.1 (c.fresh_le now)
    show (c.fresh now).nanos ≤ now.nanos + c.interval.nanos
    omega
  later _ hnear := hnear
  judged {now e} _ hnear := by
    rcases Int.lt_or_le now.nanos e.value.nanos with hdenied | hadmitted
    · rw [(judge_denied hdenied).2]
      exact hnear
    · rw [(judge_admitted hadmitted).2]
      exact advanced_nanos_le hadmitted
  renew {now later} hnow hlater hle := by
    rw [view_fresh hburst hnow hle, view_fresh hburst hlater (Int.le_refl _)]
  idle {now e} hnow hnear hidle := by
    rw [view_fresh hburst hnow (Int.le_refl _)]
    rw [Span.lt_iff, Instant.since_nanos] at hidle
    unfold Near at hnear
    unfold view
    omega
  decides h := (judge_congr h).1
  leaves _ _ _ h := by
    unfold view
    rw [(judge_congr h).2]
  denied {now later e} _ _ hdenied := by
    have hview : ¬c.view now e ≤ now.nanos := by
      intro hle
      rw [admits_iff_view.2 hle] at hdenied
      cases hdenied
    unfold view at hview
    rw [(judge_denied (show now < e.value by rw [Instant.lt_iff]; omega)).2]

/-! ## Waits -/

/-- The arrival time that a request for a key finds after a run. -/
def arrival (c : CellRate) (s : Store Instant) (past : List Query) (key : String) (now : Instant) : Instant :=
  (c.rule.worked s past ⟨key, now⟩).value

variable {s : Store Instant} {past : List Query} {key : String} {wait : Nat}

theorem wait_of_limited (hd : c.rule.decision s past ⟨key, now⟩ = .ok (.limited wait)) :
    now < c.arrival s past key now ∧ ((c.arrival s past key now).since now).waitMillis = wait := by
  have hjudge : (.ok (c.judge now (c.rule.worked s past ⟨key, now⟩)).1 : Except TimeError Decision) =
      .ok (.limited wait) := hd
  rw [Rule.decision_eq] at hd
  unfold arrival
  by_cases hdenied : now < (c.rule.worked s past ⟨key, now⟩).value
  · unfold judge at hjudge
    rw [if_pos hdenied] at hjudge
    cases hjudge
    exact ⟨hdenied, rfl⟩
  · have hadmits := (judge_admitted (c := c) (Int.not_lt.1 hdenied)).1
    rw [hd] at hadmits
    cases hadmits

/-- **After a denial a request is admitted from the arrival time on.** -/
theorem admits_retry_iff (hburst : 1 ≤ c.burst.toNat) (hc : 2 * c.interval.nanos ≤ s.threshold.nanos)
    (hs : s.entries = .empty) (ho : Ordered (⟨key, now⟩ :: past))
    (hrange : ∀ q ∈ ⟨key, now⟩ :: past, c.StartsInRange q.time)
    (hd : c.rule.decision s past ⟨key, now⟩ = .ok (.limited wait)) (hle : now ≤ later) :
    admits (c.rule.decision s (⟨key, now⟩ :: past) ⟨key, later⟩) ↔ c.arrival s past key now ≤ later := by
  have hviews := views hburst hc
  have hlater : c.StartsInRange later := by
    have hnow : c.StartsInRange now := hrange ⟨key, now⟩ List.mem_cons_self
    unfold StartsInRange at hnow ⊢
    rw [Instant.le_iff] at hle
    omega
  have ho' : Ordered (⟨key, later⟩ :: ⟨key, now⟩ :: past) :=
    List.pairwise_cons.2 ⟨fun p hp => Int.le_trans (ho.le_last p hp) hle, ho⟩
  have hrange' : ∀ q ∈ ⟨key, later⟩ :: ⟨key, now⟩ :: past, c.StartsInRange q.time := by
    intro q hq
    rcases List.mem_cons.1 hq with rfl | hq
    · exact hlater
    · exact hrange q hq
  have hdenied : admits (c.rule.decision s past ⟨key, now⟩) = false := by
    rw [hd]
    rfl
  -- the retry works on what looks like the entry that the denied request worked on
  have hview : c.view later (c.rule.worked s (⟨key, now⟩ :: past) ⟨key, later⟩) =
      c.view later (c.rule.worked s past ⟨key, now⟩) := by
    rw [hviews.view_worked hs ho' hrange' (Int.le_refl _) hlater, hviews.view_worked hs ho hrange hle hlater]
    exact hviews.shown_denied hs hdenied ho hrange hle hlater
  rw [Rule.decision_eq, admits_iff_view, hview, Instant.le_iff]
  unfold view arrival
  dsimp only
  omega

/-- **The suggested wait is the least one.** -/
theorem isLeast_wait (hburst : 1 ≤ c.burst.toNat) (hc : 2 * c.interval.nanos ≤ s.threshold.nanos)
    (hs : s.entries = .empty) (ho : Ordered (⟨key, now⟩ :: past))
    (hrange : ∀ q ∈ ⟨key, now⟩ :: past, c.StartsInRange q.time)
    (hd : c.rule.decision s past ⟨key, now⟩ = .ok (.limited wait))
    (hsoon : (c.arrival s past key now).nanos - now.nanos ≤ (nanosPerMilli * maxWord : Nat)) :
    IsLeast {m : Nat | 1 ≤ m ∧ ∀ later : Instant, later.nanos = now.nanos + (nanosPerMilli * m : Nat) →
      admits (c.rule.decision s (⟨key, now⟩ :: past) ⟨key, later⟩)} wait := by
  obtain ⟨hdenied, hwait⟩ := wait_of_limited hd
  have hspan : ((c.arrival s past key now).since now).nanos ≤ nanosPerMilli * maxWord := by
    rw [Instant.since_nanos]
    omega
  have hmillis := fun (m : Nat) (hm : 1 ≤ m) => Span.waitMillis_le_iff hspan hm
  rw [Instant.since_nanos, hwait] at hmillis
  have hpos : 1 ≤ wait := hwait ▸ Span.waitMillis_pos _
  constructor
  · refine ⟨hpos, fun later hlater => ?_⟩
    have henough := (hmillis wait hpos).1 (Nat.le_refl _)
    refine (admits_retry_iff hburst hc hs ho hrange hd ?_).2 ?_
    · rw [Instant.le_iff]
      omega
    · rw [Instant.le_iff]
      omega
  · rintro m ⟨hm, hadmits⟩
    rw [hmillis m hm]
    refine Nat.le_of_not_lt fun hshort => ?_
    -- until the arrival time there is an instant after every number of milliseconds
    have hmin := now.inRange.1
    have hmax := (c.arrival s past key now).inRange.2
    have hnanos : Instant.minNanos ≤ now.nanos + (nanosPerMilli * m : Nat) ∧
        now.nanos + (nanosPerMilli * m : Nat) ≤ Instant.maxNanos := by omega
    have hle : now ≤ (⟨_, hnanos⟩ : Instant) := by
      rw [Instant.le_iff]
      dsimp only
      omega
    have harrival := (admits_retry_iff hburst hc hs ho hrange hd hle).1 (hadmits ⟨_, hnanos⟩ rfl)
    rw [Instant.le_iff] at harrival
    dsimp only at harrival
    omega

/-! ## Limiters -/

/-- **A key is served as if it were alone**, after a run, now. A limiter that never sweeps decides the same after
the requests for the key only. It does not matter either if denied requests and requests for other keys are left out
of the run, however the limiter sweeps then. A denial tells the least number of milliseconds after which a request
is admitted, if that is a word. -/
structure Alone (c : CellRate) (start : Instant) (interval threshold : Span) (past : List Query) (key : String)
    (now : Instant) : Prop where
  own : (Limiter.ofCellRate c start .longest threshold).decision (past.filter (·.key = key)) ⟨key, now⟩ =
    (Limiter.ofCellRate c start interval threshold).decision past ⟨key, now⟩
  thinned : ∀ start' interval' threshold', 2 * c.interval.nanos ≤ threshold'.nanos →
    ∀ fewer, Thins (Limiter.ofCellRate c start interval threshold).decision key past fewer →
      (Limiter.ofCellRate c start' interval' threshold').decision fewer ⟨key, now⟩ =
        (Limiter.ofCellRate c start interval threshold).decision past ⟨key, now⟩
  least : ∀ wait, (Limiter.ofCellRate c start interval threshold).decision past ⟨key, now⟩ = .ok (.limited wait) →
    (c.arrival (.new start interval threshold) past key now).nanos - now.nanos ≤ (nanosPerMilli * maxWord : Nat) →
    IsLeast {m : Nat | 1 ≤ m ∧ ∀ later : Instant, later.nanos = now.nanos + (nanosPerMilli * m : Nat) →
      admits ((Limiter.ofCellRate c start interval threshold).decision (⟨key, now⟩ :: past) ⟨key, later⟩)} wait

/-- **Keys of a cell rate limiter do not interfere**, if new keys are ahead by a burst, and no key is
forgotten before it is idle for longer than two intervals. -/
theorem alone_run (c : CellRate) (start : Instant) (interval threshold : Span) (past : List Query) (key : String)
    (now : Instant) (ho : Ordered (⟨key, now⟩ :: past)) (hburst : 1 ≤ c.burst.toNat)
    (hc : 2 * c.interval.nanos ≤ threshold.nanos)
    (hrange : ∀ q ∈ ⟨key, now⟩ :: past, c.StartsInRange q.time) :
    c.Alone start interval threshold past key now := by
  have hdecision : ∀ start interval threshold, (Limiter.ofCellRate c start interval threshold).decision =
      c.rule.decision (.new start interval threshold) := fun _ _ _ => Limiter.decision_cellRate _ _
  have hthin : ∀ start' interval' threshold', 2 * c.interval.nanos ≤ threshold'.nanos →
      ∀ fewer, Thins (c.rule.decision (.new start interval threshold)) key past fewer →
        c.rule.decision (.new start' interval' threshold') fewer ⟨key, now⟩ =
          c.rule.decision (.new start interval threshold) past ⟨key, now⟩ := by
    intro start' interval' threshold' hc' fewer hthin
    have hs' : (Store.new start' interval' threshold' : Store Instant).entries = .empty := rfl
    exact Rule.Views.decision_thin (views hburst hc) rfl (views hburst hc') hs' hthin ho hrange
  constructor
  · rw [hdecision, hdecision]
    exact hthin start .longest threshold hc _ (thins_own _ key past)
  · intro start' interval' threshold' hc' fewer
    rw [hdecision, hdecision]
    exact hthin start' interval' threshold' hc' fewer
  · rw [hdecision]
    intro wait hd hsoon
    exact isLeast_wait (s := .new start interval threshold) hburst hc rfl ho hrange hd hsoon

/-- Three requests for a key at once, of which one is denied; when the key was idle for long enough, one for
another key, and two more. -/
def crowd : List Query :=
  [⟨"a", ⟨350000000, by decide⟩⟩, ⟨"a", ⟨350000000, by decide⟩⟩, ⟨"b", ⟨350000000, by decide⟩⟩,
    ⟨"a", .origin⟩, ⟨"a", .origin⟩, ⟨"a", .origin⟩]

theorem alone_crowd :
    (⟨.ofMillis 100, 3⟩ : CellRate).Alone .origin .zero (.ofMillis 200) crowd "a" ⟨400500000, by decide⟩ ∧
      (Limiter.ofCellRate ⟨.ofMillis 100, 3⟩ .origin .zero (.ofMillis 200)).decision crowd
        ⟨"a", ⟨400500000, by decide⟩⟩ = .ok (.limited 50) :=
  ⟨alone_run ⟨.ofMillis 100, 3⟩ .origin .zero (.ofMillis 200) crowd "a" ⟨400500000, by decide⟩ (by decide)
    (by decide) (by decide) (by decide), rfl⟩

end CellRate

end CallGuard
