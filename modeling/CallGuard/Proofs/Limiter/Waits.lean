import CallGuard.Proofs.Limiter.Sweeps.Bucket
import CallGuard.Proofs.Limiter.Sweeps.CellRate
import CallGuard.Proofs.Limiter.Sweeps.Window

/-!
# Suggested waits

A denied request is told how long to wait. For a cell rate that is long enough. A window
is closed: an admission is still in it when it is over, and so a wait that was a whole
number of milliseconds ends a nanosecond too early. A token bucket computes with floats,
which may lose as much, and more of long waits.

* `Rule.admits_retry`: a retry finds what the denied request left, or nothing.
* `CellRate.admits_retry`, `SlidingWindow.admits_retry`, `TokenBucket.Fits.admits_retry`: when a retry of
  each rule is admitted.
* `SlidingWindow.retry_iff`: when the suggested wait is long enough for a window.
* `Limiter.honours`: **after the suggested wait and the slack of the rule a retry is admitted.**
* `Limiter.wait_too_short`: after the suggested wait alone not every retry is.
-/

namespace CallGuard

namespace Rule

variable {α : Type} {r : Rule α} {s : Store α} {past : List Query}

/-- **A retry finds what the denied request left**, or nothing after a sweep. -/
theorem admits_retry {key : String} {now later : Instant}
    (hfresh : admits (r.judge later ⟨r.fresh later, later⟩).1)
    (hkept : admits (r.judge later (r.judge now (r.worked s past ⟨key, now⟩)).2).1) :
    admits (r.decision s (⟨key, now⟩ :: past) ⟨key, later⟩) := by
  rw [decision_eq, worked]
  rcases seen_cases (r := r) (s := s) (⟨key, now⟩ :: past) key later with hsame | ⟨hnone, -⟩
  · rw [hsame, get?_after_cons, if_pos rfl]
    exact hkept
  · rw [hnone]
    exact hfresh

end Rule

variable {now later : Instant} {wait : Nat}

/-! ## The cell rate -/

/-- **A wait lasts until the arrival time.** -/
theorem CellRate.admits_retry {c : CellRate} {e : Stamped Instant}
    (hd : (c.rule.judge now e).1 = .ok (.limited wait)) (hw : wait < maxWord)
    (hlater : now.nanos + (nanosPerMilli * wait : Nat) ≤ later.nanos) :
    admits (c.rule.judge later (c.rule.judge now e).2).1 := by
  rcases Int.lt_or_le now.nanos e.value.nanos with hdenied | hadmitted
  · have hjudge : c.judge now e = (.limited (e.value.since now).waitMillis, e) := if_pos hdenied
    obtain rfl : (e.value.since now).waitMillis = wait := by
      simpa [rule, hjudge] using hd
    have hwait := Span.le_waitMillis hw
    rw [Instant.since_nanos] at hwait
    rw [(judge_denied hdenied).2]
    refine (judge_admitted ?_).1
    rw [Instant.le_iff]
    omega
  · have hadmits : admits (c.rule.judge now e).1 := (judge_admitted hadmitted).1
    rw [hd] at hadmits
    cases hadmits

/-! ## The sliding window -/

namespace SlidingWindow

variable {w : SlidingWindow}

/-- **A wait lasts until the oldest admission is a window old.** -/
theorem oldest_leaves {recent : List Instant} {oldest : Instant}
    (h : w.answer now recent = .ok (.limited wait)) (hw : wait < maxWord)
    (holdest : recent.head? = some oldest) :
    oldest.nanos + w.window.nanos ≤ now.nanos + (nanosPerMilli * wait : Nat) := by
  cases recent with
  | nil => cases holdest
  | cons first rest =>
    obtain rfl : first = oldest := by simpa using holdest
    rw [answer] at h
    split at h
    · cases h
    · rw [SlidingWindow.wait, Instant.add] at h
      cases hsum : first.add? w.window with
      | none => rw [hsum] at h; cases h
      | some leaves =>
        rw [hsum] at h
        obtain rfl : (leaves.since now).waitMillis = wait := by
          simpa [bind, Except.bind, pure, Except.pure] using h
        have hleaves := Instant.add?_eq_some_iff.1 hsum
        have hwait := Span.le_waitMillis hw
        rw [Instant.since_nanos] at hwait
        omega

/-- A denial finds the window full. -/
theorem rate_le_of_limited {recent : List Instant} (h : w.answer now recent = .ok (.limited wait)) :
    w.rate.toNat ≤ recent.length := by
  refine Nat.le_of_not_lt fun hroom => ?_
  rw [answer, if_pos hroom] at h
  cases h

/-- **After the wait is over the oldest admission has left the window.** -/
theorem admits_retry {e : Stamped (List Instant)} (hrate : 0 < w.rate.toNat)
    (hfew : e.value.length ≤ w.rate.toNat) (hd : (w.judge now e).1 = .ok (.limited wait))
    (hw : wait < maxWord) (hlater : now.nanos + (nanosPerMilli * wait : Nat) < later.nanos) :
    admits (w.judge later (w.judge now e).2).1 := by
  rw [judge_eq] at hd
  have hfull := rate_le_of_limited hd
  have hkept : (w.current now e.value).length ≤ e.value.length := (List.dropWhile_sublist _).length_le
  cases hcurrent : w.current now e.value with
  | nil =>
    rw [hcurrent, List.length_nil] at hfull
    omega
  | cons oldest rest =>
    rw [hcurrent] at hd hfull hkept
    have hleaves := oldest_leaves hd hw rfl
    rw [judge_eq, judge_eq, hcurrent, if_neg (Nat.not_lt.2 hfull), admits_answer]
    have hout : w.window < later.since oldest := by
      rw [Span.lt_iff, Instant.since_nanos]
      omega
    have hrest : (w.current later (oldest :: rest)).length ≤ rest.length := by
      rw [current, List.dropWhile_cons_of_pos (by simpa using hout)]
      exact (List.dropWhile_sublist _).length_le
    rw [List.length_cons] at hkept
    dsimp only
    omega

/-- A new window has room. -/
theorem admits_fresh (hrate : 0 < w.rate.toNat) (now : Instant) :
    admits (w.rule.judge now ⟨w.rule.fresh now, now⟩).1 := by
  show admits (w.judge now ⟨[], now⟩).1
  rw [judge_eq, admits_answer]
  exact hrate

/-- No more admissions are kept than the rate allows for. -/
theorem length_judge_le {e : Stamped (List Instant)} (hfew : e.value.length ≤ w.rate.toNat) (now : Instant) :
    (w.judge now e).2.value.length ≤ w.rate.toNat := by
  have hkept : (w.current now e.value).length ≤ e.value.length := (List.dropWhile_sublist _).length_le
  rw [judge_eq]
  dsimp only
  split
  · rw [List.length_append]
    exact ‹_›
  · exact Nat.le_trans hkept hfew

theorem length_worked_le {s : Store (List Instant)} (hs : s.entries = .empty) (past : List Query) (q : Query) :
    (w.rule.worked s past q).value.length ≤ w.rate.toNat :=
  Rule.value_worked (r := w.rule) (P := fun _ _ times => times.length ≤ w.rate.toNat) hs
    (fun _ _ _ => Nat.zero_le _) (fun q _ hfew => length_judge_le hfew q.time) (fun _ _ _ _ _ h => h) past q

/-- The times in a window are the latest ones. -/
theorem lt_countP_iff {times : List Instant} (hs : times.Pairwise fun later earlier => earlier ≤ later)
    (hle : ∀ t ∈ times, t ≤ now) (n : Nat) :
    n < times.countP (w.holds now) ↔ ∃ t, times[n]? = some t ∧ w.holds now t := by
  induction times generalizing n with
  | nil => simp
  | cons u rest ih =>
    obtain ⟨hfirst, hrest⟩ := List.pairwise_cons.1 hs
    have ih := ih hrest (fun t ht => hle t (List.mem_cons_of_mem _ ht))
    by_cases hold : w.holds now u
    · rw [List.countP_cons_of_pos hold]
      cases n with
      | zero => simpa using hold
      | succ n =>
        rw [List.getElem?_cons_succ, ← ih n]
        omega
    · -- all others are earlier still
      have hnone : ∀ t ∈ u :: rest, ¬w.holds now t := by
        intro t ht hin
        rcases List.mem_cons.1 ht with rfl | ht
        · exact hold hin
        · have hearlier := hfirst t ht
          have hu := hle u List.mem_cons_self
          rw [Instant.le_iff] at hearlier hu
          rw [holds_iff] at hin hold
          omega
      rw [List.countP_eq_zero.2 hnone]
      refine ⟨fun h => absurd h (Nat.not_lt_zero n), fun ⟨t, ht, hin⟩ => ?_⟩
      exact absurd hin (hnone t (List.mem_of_getElem? ht))

/-- **The admission that a retry waits for** is as many places back as the rate. -/
theorem exists_leaves {times : List Instant} (hs : times.Pairwise fun later earlier => earlier ≤ later)
    (hle : ∀ t ∈ times, t ≤ now) (hrate : 0 < w.rate.toNat) (hmost : times.countP (w.holds now) ≤ w.rate.toNat)
    (hd : w.answer now (times.reverse.filter (w.holds now)) = .ok (.limited wait)) (hw : wait < maxWord) :
    ∃ t, times[w.rate.toNat - 1]? = some t ∧ t ≤ now ∧
      t.nanos + w.window.nanos ≤ now.nanos + (nanosPerMilli * wait : Nat) := by
  have hroom := rate_le_of_limited hd
  rw [← List.countP_eq_length_filter, List.countP_reverse] at hroom
  obtain ⟨t, ht, -⟩ := (lt_countP_iff (w := w) hs hle (w.rate.toNat - 1)).1 (by omega)
  refine ⟨t, ht, hle t (List.mem_of_getElem? ht), ?_⟩
  cases hrecent : times.reverse.filter (w.holds now) with
  | nil =>
    have hnone := congrArg List.length hrecent
    rw [← List.countP_eq_length_filter, List.countP_reverse, List.length_nil] at hnone
    omega
  | cons oldest rest =>
    have hmem : oldest ∈ times.reverse.filter (w.holds now) := hrecent ▸ List.mem_cons_self
    obtain ⟨holdest, hholds⟩ := List.mem_filter.1 hmem
    obtain ⟨i, hi⟩ := List.mem_iff_getElem?.1 (List.mem_reverse.1 holdest)
    have hfew := (lt_countP_iff hs hle i).2 ⟨oldest, hi, hholds⟩
    -- no more than the rate are in the window, and so `t` is at the place of the oldest one or further back
    have hearlier : t ≤ oldest := by
      obtain ⟨hlti, rfl⟩ := List.getElem?_eq_some_iff.1 hi
      obtain ⟨hltr, rfl⟩ := List.getElem?_eq_some_iff.1 ht
      rcases Nat.lt_or_ge i (w.rate.toNat - 1) with hlt | hge
      · exact List.pairwise_iff_getElem.1 hs i (w.rate.toNat - 1) hlti hltr hlt
      · simp only [show i = w.rate.toNat - 1 by omega]
        exact Int.le_refl _
    rw [hrecent] at hd
    have hleaves := oldest_leaves hd hw rfl
    rw [Instant.le_iff] at hearlier
    omega

/-- **The wait alone is long enough** unless it ends when the admission that it waits for is exactly a
window old, if keys are not forgotten before that. -/
theorem retry_iff {s : Store (List Instant)} {past : List Query} {key : String} (hs : s.entries = .empty)
    (hthreshold : w.window ≤ s.threshold) (hrate : 0 < w.rate.toNat) (ho : Ordered (⟨key, now⟩ :: past))
    (hd : w.rule.decision s past ⟨key, now⟩ = .ok (.limited wait)) (hw : wait < maxWord)
    (hlater : later.nanos = now.nanos + (nanosPerMilli * wait : Nat)) :
    admits (w.rule.decision s (⟨key, now⟩ :: past) ⟨key, later⟩) ↔
      ∀ t, (admittedBy (w.rule.decision s) key past)[w.rate.toNat - 1]? = some t →
        t.nanos + w.window.nanos ≠ later.nanos := by
  obtain ⟨times, htimes⟩ : ∃ times, times = admittedBy (w.rule.decision s) key past := ⟨_, rfl⟩
  have hsorted : times.Pairwise fun later earlier => earlier ≤ later := htimes ▸ pairwise_admittedBy ho.tail
  have hpast : ∀ t ∈ times, t ≤ now := by
    intro t ht
    obtain ⟨p, hp, rfl⟩ := mem_admittedBy (htimes ▸ ht)
    exact ho.le p hp
  have hle : now ≤ later := by rw [Instant.le_iff]; omega
  have ho' : Ordered (⟨key, later⟩ :: ⟨key, now⟩ :: past) :=
    List.pairwise_cons.2 ⟨fun p hp => Int.le_trans (ho.le_last p hp) hle, ho⟩
  have hmost : times.countP (w.holds now) ≤ w.rate.toNat :=
    htimes ▸ countP_holds_le hs hthreshold key ho.tail now
  -- the denied request is not among the admissions
  have hsame : admittedBy (w.rule.decision s) key (⟨key, now⟩ :: past) = times := by
    rw [admittedBy, hd, if_neg (by simp [admits, Decision.isAllowed]), htimes]
  have hadmits : admits (w.rule.decision s (⟨key, now⟩ :: past) ⟨key, later⟩) ↔
      times.countP (w.holds later) < w.rate.toNat := hsame ▸ admits_iff hs hthreshold ho'
  rw [decision_eq w hs hthreshold ho, ← htimes] at hd
  obtain ⟨t, ht, hnow, hleaves⟩ := exists_leaves hsorted hpast hrate hmost hd hw
  have hwindow := lt_countP_iff (w := w) hsorted (fun u hu => Int.le_trans (hpast u hu) hle) (w.rate.toNat - 1)
  have hholds : w.holds later t ↔ t.nanos + w.window.nanos = later.nanos := by
    rw [Instant.le_iff] at hnow hle
    rw [holds_iff]
    omega
  -- the window is full just as long as it holds the admission `t`
  simp only [ht, Option.some.injEq, exists_eq_left', hholds] at hwindow
  simp only [hadmits, ← htimes, ht, Option.some.injEq, forall_eq']
  rw [ne_eq, ← hwindow]
  omega

end SlidingWindow

/-! ## The token bucket -/

namespace TokenBucket

open Binary

variable {b : TokenBucket Float} {c r : Nat}

/-- **What flows in while a bucket waits makes up for what is missing**, if the wait is read as a little
more seconds than were computed. -/
theorem Fits.refills (h : b.Fits c r) {level seconds : Float} {l q t : Nat} (hl : units level = some l)
    (hlt : l < one) (hq : units ((1.0 - level) / b.rate) = some q) (hfin : q < infinite)
    (ht : units seconds = some t) (hle : (2 ^ 52 + 1) ^ 3 * (q + 1) ≤ 2 ^ 156 * t) :
    ∃ n, units (level + seconds * b.rate) = some n ∧ one ≤ n := by
  have hone := representable units_one
  have honelt : one < infinite := Nat.one_mul one ▸ lt_infinite_of_le (by decide)
  obtain ⟨m, hm, hmissing⟩ := units_sub units_one hl (Nat.le_of_lt hlt) honelt
  obtain ⟨q', hq', hquotient⟩ := units_div hm h.rate h.rate_pos h.rate_lt
  obtain rfl : q' = q := Option.some.inj (hq'.symm.trans hq)
  obtain ⟨f, hf, -, hproduct⟩ := units_mul ht h.rate h.rate_pos h.rate_lt
  obtain ⟨n, hn, hsum⟩ := units_add hl hf
  refine ⟨n, hn, hsum.le one hone.1 hone.2 ?_⟩
  -- what flows in passes a float that is at least what is missing
  obtain ⟨k, hk, hle', hclose⟩ := exists_above (one - l)
  suffices hflow : k ≤ f by omega
  have hfew : one + one < infinite := (Nat.two_mul one) ▸ lt_infinite_of_le (by decide)
  refine hproduct k hk (by omega) ?_
  have hmissing := hmissing.relative (Nat.le_of_lt (Nat.lt_of_le_of_lt (Nat.sub_le _ _) honelt))
  have hquotient := quotient_relative h.rate_pos (Nat.le_of_not_lt fun hlarge => Nat.not_le.2 hfin
    (hquotient infinite representable_infinite (Nat.le_refl _) (Nat.le_of_lt hlarge))) hquotient
  refine Nat.le_of_mul_le_mul_left (c := 2 ^ 156) ?_ (by norm_num)
  calc 2 ^ 156 * (k * one) = 2 ^ 104 * (2 ^ 52 * k) * one := by ring
    _ ≤ 2 ^ 104 * ((2 ^ 52 + 1) * (one - l)) * one := by gcongr
    _ = 2 ^ 52 * (2 ^ 52 + 1) * (2 ^ 52 * (one - l)) * one := by ring
    _ ≤ 2 ^ 52 * (2 ^ 52 + 1) * ((2 ^ 52 + 1) * m) * one := by gcongr
    _ = (2 ^ 52 + 1) ^ 2 * (2 ^ 52 * (m * one)) := by ring
    _ ≤ (2 ^ 52 + 1) ^ 2 * ((2 ^ 52 + 1) * ((q' + 1) * r)) := by gcongr
    _ = (2 ^ 52 + 1) ^ 3 * (q' + 1) * r := by ring
    _ ≤ 2 ^ 156 * t * r := by gcongr
    _ = 2 ^ 156 * (t * r) := Nat.mul_assoc _ _ _

/-- **What a denial leaves and says**: less than a token, and the wait until there is one. -/
theorem Fits.denied (h : b.Fits c r) {e : Stamped Float} {v : Nat} (hv : units e.value = some v)
    (hd : (b.rule.judge now e).1 = .ok (.limited wait)) :
    ∃ level l, (b.rule.judge now e).2 = ⟨level, now⟩ ∧ units level = some l ∧ l < one ∧
      (Span.ofFloat ((1.0 - level) / b.rate)).waitMillis = wait := by
  obtain ⟨f, hf⟩ := h.exists_inflow (now.since e.lastUse)
  obtain ⟨n, -, hn, -⟩ := h.refilled hv hf
  have hreaches : (1.0 : Float) ≤ b.refilled now e ↔ one ≤ min c n := Binary.le_iff units_one hn
  by_cases hone : one ≤ min c n
  · have hadmits := (h.judge hn (Nat.min_le_left _ _)).1
    rw [hd, decide_eq_true hone] at hadmits
    cases hadmits
  · have hjudge : b.judge now e =
        (.limited (Span.ofFloat ((1.0 - b.refilled now e) / b.rate)).waitMillis, ⟨b.refilled now e, now⟩) :=
      if_neg (by simpa [Quantity.reaches, Quantity.one] using mt hreaches.1 hone)
    rw [rule_judge, hjudge] at hd ⊢
    exact ⟨_, _, rfl, hn, Nat.lt_of_not_le hone, by simpa using hd⟩

/-- **After the wait and a little more there is a token.** -/
theorem Fits.admits_retry (h : b.Fits c r) {e : Stamped Float} {v : Nat} (hv : units e.value = some v)
    (hd : (b.rule.judge now e).1 = .ok (.limited wait)) (hw : wait < maxWord)
    (hlater : now.nanos + (nanosPerMilli * wait + (1 + nanosPerMilli * wait / 2 ^ 48) : Nat) ≤ later.nanos) :
    admits (b.rule.judge later (b.rule.judge now e).2).1 := by
  obtain ⟨level, l, hleft, hl, hlt, hwait⟩ := h.denied hv hd
  rw [hleft]
  subst hwait
  have hspan := Span.le_waitMillis hw
  obtain ⟨m, hm, -⟩ := units_sub units_one hl (Nat.le_of_lt hlt)
    (Nat.one_mul one ▸ lt_infinite_of_le (by decide))
  -- a wait that is not the longest was written without being cut off
  obtain ⟨q, hq, -⟩ := units_div hm h.rate h.rate_pos h.rate_lt
  have hshort : (Span.ofFloat ((1.0 - level) / b.rate)).nanos < Span.maxNanos := by
    rw [maxWord] at hw
    rw [nanosPerMilli] at hspan
    rw [Span.maxNanos]
    omega
  have hlong : (Span.ofFloat ((1.0 - level) / b.rate)).nanos + 1 +
      (Span.ofFloat ((1.0 - level) / b.rate)).nanos / 2 ^ 48 ≤ (later.since now).nanos := by
    have hmono := Nat.div_le_div_right (c := 2 ^ 48) hspan
    rw [Instant.since_nanos]
    omega
  obtain ⟨t, ht, hmore⟩ := Span.outlasts hq hshort hlong
  obtain ⟨n, hn, hone⟩ := h.refills hl hlt hq (Span.le_ofFloat hq hshort).1 ht hmore
  have hrefilled : units (b.refilled later ⟨level, now⟩) = some (min c n) :=
    (units_least h.capacity hn).1
  rw [(h.judge hrefilled (Nat.min_le_left _ _)).1]
  exact decide_eq_true (Nat.le_min.2 ⟨h.one_le, hone⟩)

/-- A new bucket is full, and has a token. -/
theorem Fits.admits_fresh (h : b.Fits c r) (now : Instant) :
    admits (b.rule.judge now ⟨b.rule.fresh now, now⟩).1 := by
  have hunits : units (b.refilled now ⟨b.rule.fresh now, now⟩) = some c := by
    rw [h.refilled_fresh]
    exact h.capacity
  rw [(h.judge hunits (Nat.le_refl _)).1]
  exact decide_eq_true h.one_le

end TokenBucket

/-! ## Limiters -/

namespace Limiter

/-- **What a suggested wait falls short by**, in nanoseconds: nothing, the instant at which the window is
still closed, or what floats lose of the wait. -/
def Algorithm.slack : Algorithm → Nat → Nat
  | .cellRate _ _, _ => 0
  | .slidingWindow _ _, _ => 1
  | .tokenBucket _ _, wait => 1 + wait / 2 ^ 48

/-- **A limiter honours a wait** that it suggested for a key after a run, now. After the wait and the slack a retry
is admitted. For a window the wait alone is long enough, unless the admission that it waits for is exactly a window
old when it ends. Admissions are listed latest first. -/
structure Config.Honours (c : Config) (start : Instant) (past : List Query) (key : String) (now : Instant)
    (wait : Nat) : Prop where
  enough : ∀ later : Instant,
    now.nanos + (nanosPerMilli * wait + c.algorithm.slack (nanosPerMilli * wait) : Nat) ≤ later.nanos →
    admits ((c.build start).decision (⟨key, now⟩ :: past) ⟨key, later⟩)
  window : ∀ rate window, c.algorithm = .slidingWindow rate window → window ≤ c.inactiveThreshold →
    ∀ later : Instant, later.nanos = now.nanos + (nanosPerMilli * wait : Nat) →
    (admits ((c.build start).decision (⟨key, now⟩ :: past) ⟨key, later⟩) ↔
      ∀ t, ((c.build start).admitted key past)[rate.toNat - 1]? = some t →
        t.nanos + window.nanos ≠ later.nanos)

variable {c : Config} {start : Instant} {past : List Query} {key : String}

/-- **Limiters of accepted settings honour the waits that they suggest**, but for the slack. -/
theorem honours (hv : c.validate = .ok ()) (ho : Ordered (⟨key, now⟩ :: past))
    (hd : (c.build start).decision past ⟨key, now⟩ = .ok (.limited wait)) (hw : wait < maxWord) :
    c.Honours start past key now wait := by
  obtain ⟨algorithm, interval, threshold⟩ := c
  cases algorithm with
  | tokenBucket rate capacity =>
    obtain ⟨n, r, hfits⟩ := TokenBucket.exists_fits hv
    have hdecision : (Config.build ⟨.tokenBucket rate capacity, interval, threshold⟩ start).decision =
        (⟨rate, capacity⟩ : TokenBucket Float).rule.decision (.new start interval threshold) :=
      decision_tokenBucket _ _
    rw [hdecision, Rule.decision_eq] at hd
    refine ⟨fun later hlater => ?_, fun _ _ heq => by cases heq⟩
    obtain ⟨v, hunits⟩ := Rule.value_worked (r := (⟨rate, capacity⟩ : TokenBucket Float).rule)
      (s := .new start interval threshold) (P := fun _ _ x => ∃ v, Binary.units x = some v) rfl
      (fun _ _ _ => ⟨n, hfits.capacity⟩) (fun _ _ h => h.elim fun _ hv => hfits.judge_value hv)
      (fun _ _ _ _ _ h => h) past ⟨key, now⟩
    rw [hdecision]
    exact Rule.admits_retry (hfits.admits_fresh later) (hfits.admits_retry hunits hd hw hlater)
  | slidingWindow rate window =>
    have hrate : 0 < rate.toNat := SlidingWindow.rate_pos hv
    have hdecision : (Config.build ⟨.slidingWindow rate window, interval, threshold⟩ start).decision =
        (⟨rate, window⟩ : SlidingWindow).rule.decision (.new start interval threshold) :=
      decision_slidingWindow _ _
    rw [hdecision] at hd
    refine ⟨fun later hlater => ?_, fun rate' window' heq hthreshold later hlater => ?_⟩
    · have hfew := SlidingWindow.length_worked_le (w := ⟨rate, window⟩) (s := .new start interval threshold) rfl
        past ⟨key, now⟩
      have hlater : now.nanos + (nanosPerMilli * wait + 1 : Nat) ≤ later.nanos := hlater
      rw [hdecision]
      refine Rule.admits_retry (SlidingWindow.admits_fresh hrate later)
        (SlidingWindow.admits_retry hrate hfew hd hw (by omega))
    · cases heq
      rw [admitted, hdecision]
      exact SlidingWindow.retry_iff rfl hthreshold hrate ho hd hw hlater
  | cellRate rate burst =>
    have hdecision : (Config.build ⟨.cellRate rate burst, interval, threshold⟩ start).decision =
        (CellRate.ofRate rate burst).rule.decision (.new start interval threshold) := decision_cellRate _ _
    rw [hdecision, Rule.decision_eq] at hd
    refine ⟨fun later hlater => ?_, fun _ _ heq => by cases heq⟩
    rw [hdecision]
    exact Rule.admits_retry (CellRate.judge_admitted (CellRate.fresh_le _ later)).1
      (CellRate.admits_retry hd hw hlater)

/-- Ten tokens a second, and room for one. -/
def Config.drip : Config := ⟨.tokenBucket 10.0 1.0, Store.defaultInterval, Store.defaultThreshold⟩

theorem honours_drip :
    (Config.drip.build .origin).decision [⟨"k", .origin⟩] ⟨"k", .origin⟩ = .ok (.limited 100) ∧
      Config.drip.Honours .origin [⟨"k", .origin⟩] "k" .origin 100 :=
  have hd : (Config.drip.build .origin).decision [⟨"k", .origin⟩] ⟨"k", .origin⟩ = .ok (.limited 100) := by
    decide +kernel
  ⟨hd, honours (by decide +kernel) (by decide) hd (by decide)⟩

/-- One request in a second. -/
def Config.second : Config :=
  ⟨.slidingWindow 1 (.ofMillis 1000), Store.defaultInterval, Store.defaultThreshold⟩

/-- **The wait alone is not always long enough**: half a second before the window is over, the wait is half
a second, and then the window is still closed. -/
theorem wait_too_short :
    ¬∀ (c : Config) (start : Instant) (past : List Query) (key : String) (now later : Instant) (wait : Nat),
      c.validate = .ok () → Ordered (⟨key, now⟩ :: past) →
      (c.build start).decision past ⟨key, now⟩ = .ok (.limited wait) → wait < maxWord →
      later.nanos = now.nanos + (nanosPerMilli * wait : Nat) →
      admits ((c.build start).decision (⟨key, now⟩ :: past) ⟨key, later⟩) := by
  intro h
  have hadmits := h .second .origin [⟨"k", .origin⟩] "k" ⟨500000000, by decide⟩ ⟨1000000000, by decide⟩ 500
    rfl (by decide) (by decide) (by decide) (by decide)
  exact absurd hadmits (by decide)

end Limiter

end CallGuard
