import CallGuard.Proofs.Limiter.Sweeps.CellRate

/-!
# The pace of a cell rate limiter

Admissions of a key are an emission interval apart, but for one that a key has in hand. A
request that keeps the interval is always admitted. Sweeps change neither, if they drop
only keys that were idle for longer than two intervals.

* `CellRate.Before`, `CellRate.Spaced`: times that are spaced, latest first.
* `CellRate.Spaced.length_le`: few spaced times fit into a span.
* `CellRate.Keeps`: an arrival time is ahead of all earlier admissions, in order.
* `CellRate.tracks`: a run keeps this, through denials, other keys and sweeps.
* `CellRate.keeps_pace`: **admissions are spaced, and requests at the pace are admitted.**
-/

namespace CallGuard.CellRate

variable {c : CellRate} {times : List Instant} {now later : Instant} {t t' : Int}

/-! ## Spaced times -/

/-- **Times are spaced before `t`**, latest first: the one at place `i` comes `i` intervals before, or
earlier. -/
def Before (c : CellRate) (times : List Instant) (t : Int) : Prop :=
  ∀ (i : Nat) (u : Instant), times[i]? = some u → u.nanos + i * c.interval.nanos ≤ t

/-- **Times are spaced**, latest first: each has those before it spaced before it. -/
def Spaced (c : CellRate) : List Instant → Prop
  | [] => True
  | u :: rest => c.Before rest u.nanos ∧ Spaced c rest

theorem before_nil (c : CellRate) (t : Int) : c.Before [] t := fun _ _ h => nomatch h

theorem Before.mono (h : c.Before times t) (hle : t ≤ t') : c.Before times t' :=
  fun i u hu => Int.le_trans (h i u hu) hle

/-- One more time, an interval after the others. -/
theorem before_cons {u : Instant} :
    c.Before (u :: times) t ↔ u.nanos ≤ t ∧ c.Before times (t - c.interval.nanos) := by
  constructor
  · intro h
    refine ⟨by simpa using h 0 u rfl, fun i v hv => ?_⟩
    have hle := h (i + 1) v hv
    rw [c.intervals_succ] at hle
    omega
  · rintro ⟨hu, hrest⟩ i v hv
    cases i with
    | zero =>
      cases hv
      simpa using hu
    | succ i =>
      have hle := hrest i v hv
      rw [c.intervals_succ]
      omega

theorem Before.sublist {fewer : List Instant} (hsub : List.Sublist fewer times) (h : c.Before times t) :
    c.Before fewer t := by
  induction hsub generalizing t with
  | slnil => exact h
  | cons u _ ih => exact ih ((before_cons.1 h).2.mono (by omega))
  | cons_cons u _ ih =>
    obtain ⟨hu, hrest⟩ := before_cons.1 h
    exact before_cons.2 ⟨hu, ih hrest⟩

theorem Spaced.sublist {fewer : List Instant} (hsub : List.Sublist fewer times) (h : c.Spaced times) :
    c.Spaced fewer := by
  induction hsub with
  | slnil => trivial
  | cons u _ ih => exact ih h.2
  | cons_cons u hsub ih => exact ⟨h.1.sublist hsub, ih h.2⟩

/-- **Two spaced times** are as many intervals apart as there are times between them. -/
theorem Spaced.apart (h : c.Spaced times) {i j : Nat} {u v : Instant} (hij : i < j)
    (hu : times[i]? = some u) (hv : times[j]? = some v) :
    v.nanos + (j - i - 1 : Nat) * c.interval.nanos ≤ u.nanos := by
  induction times generalizing i j with
  | nil => cases hu
  | cons first rest ih =>
    obtain ⟨j, rfl⟩ : ∃ k, j = k + 1 := ⟨j - 1, by omega⟩
    rw [List.getElem?_cons_succ] at hv
    cases i with
    | zero =>
      cases hu
      exact h.1 j v hv
    | succ i =>
      have hapart := ih h.2 (Nat.lt_of_succ_lt_succ hij) hu hv
      rwa [Nat.add_sub_add_right]

/-- **Few spaced times fit into a span.** -/
theorem Spaced.length_le (h : c.Spaced times) (hpos : 0 < c.interval.nanos) (first : Int) {length : Nat}
    (hin : ∀ u ∈ times, first ≤ u.nanos ∧ u.nanos ≤ first + length) :
    times.length ≤ length / c.interval.nanos + 2 := by
  rcases Nat.lt_or_ge times.length 2 with hfew | hmany
  · exact Nat.le_add_left_of_le (Nat.le_of_lt hfew)
  -- the first and the last of them are in the span
  have hlatest := List.getElem?_eq_getElem (show 0 < times.length by omega)
  have hearliest := List.getElem?_eq_getElem (show times.length - 1 < times.length by omega)
  have hapart := h.apart (show 0 < times.length - 1 by omega) hlatest hearliest
  have hend := (hin _ (List.mem_of_getElem? hlatest)).2
  have hbegin := (hin _ (List.mem_of_getElem? hearliest)).1
  have hfit : (times.length - 2) * c.interval.nanos ≤ length := by
    rw [show times.length - 1 - 0 - 1 = times.length - 2 by omega] at hapart
    have : ((times.length - 2 : Nat) : Int) * c.interval.nanos ≤ length := by omega
    exact_mod_cast this
  have hle := (Nat.le_div_iff_mul_le hpos).2 hfit
  omega

/-! ## What is kept for a key -/

/-- **What is kept for a key**, whose admissions are latest first: they are spaced, an arrival time is
ahead of them all, and a forgotten key is late for all of them. -/
structure Keeps (c : CellRate) (entry : Option (Stamped Instant)) (admitted : List Instant)
    (now : Instant) : Prop where
  spaced : c.Spaced admitted
  ahead : ∀ e, entry = some e → c.Before admitted e.value.nanos
  used : ∀ e, entry = some e →
    admitted.head? = some e.lastUse ∧ e.value.nanos ≤ e.lastUse.nanos + c.interval.nanos
  forgotten : entry = none → c.Before admitted (now.nanos - c.interval.nanos)

variable {entry : Option (Stamped Instant)} {admitted : List Instant}

theorem keeps_nothing (c : CellRate) (now : Instant) : c.Keeps none [] now :=
  ⟨trivial, by simp, by simp, fun _ => before_nil c _⟩

theorem Keeps.mono (h : c.Keeps entry admitted now) (hle : now ≤ later) : c.Keeps entry admitted later := by
  rw [Instant.le_iff] at hle
  exact ⟨h.spaced, h.ahead, h.used, fun hnone => (h.forgotten hnone).mono (by omega)⟩

/-- **A key that is idle for longer than two intervals may be forgotten.** -/
theorem Keeps.forget {e : Stamped Instant} {threshold : Span} (h : c.Keeps (some e) admitted now)
    (hc : 2 * c.interval.nanos ≤ threshold.nanos) (hidle : threshold < now.since e.lastUse) :
    c.Keeps none admitted now := by
  refine ⟨h.spaced, by simp, by simp, fun _ => (h.ahead e rfl).mono ?_⟩
  have hused := (h.used e rfl).2
  rw [Span.lt_iff, Instant.since_nanos] at hidle
  omega

/-- The entry that a request works on. -/
def worked (c : CellRate) (entry : Option (Stamped Instant)) (now : Instant) : Stamped Instant :=
  entry.getD ⟨c.fresh now, now⟩

/-- An admission is spaced, and moves the arrival time ahead of it. -/
theorem Keeps.admit (h : c.Keeps entry admitted now) (hle : (c.worked entry now).value ≤ now)
    (hrange : (c.worked entry now).value.nanos + c.interval.nanos ≤ Instant.maxNanos) :
    c.Keeps (some ⟨c.advanced now (c.worked entry now).value, now⟩) (now :: admitted) now := by
  have hnanos := advanced_nanos_of_range now hrange
  -- the new arrival time is an interval after the old one or after now, whichever is later
  have hbefore : c.Before admitted now.nanos ∧
      c.Before admitted ((c.advanced now (c.worked entry now).value).nanos - c.interval.nanos) := by
    rw [Instant.le_iff] at hle
    cases entry with
    | none =>
      have hlate := h.forgotten rfl
      exact ⟨hlate.mono (by omega), hlate.mono (by omega)⟩
    | some e =>
      have hahead := h.ahead e rfl
      have hle : e.value.nanos ≤ now.nanos := hle
      have hnanos : _ = max (e.value.nanos + c.interval.nanos) now.nanos := hnanos
      exact ⟨hahead.mono hle, hahead.mono (by omega)⟩
  rw [Instant.le_iff] at hle
  refine ⟨⟨hbefore.1, h.spaced⟩, fun e he => ?_, fun e he => ?_, by simp⟩
  · -- the new admission is before the new arrival time, the others an interval before that
    cases he
    exact before_cons.2 ⟨by dsimp only; omega, hbefore.2⟩
  · cases he
    exact ⟨rfl, by dsimp only; omega⟩

/-- **One request** leaves what the ones after it need. -/
theorem Keeps.judge (h : c.Keeps entry admitted now)
    (hrange : (c.worked entry now).value ≤ now →
      (c.worked entry now).value.nanos + c.interval.nanos ≤ Instant.maxNanos) :
    c.Keeps (some (c.rule.judge now (c.worked entry now)).2)
      (if admits (c.rule.judge now (c.worked entry now)).1 then now :: admitted else admitted) now := by
  by_cases hle : (c.worked entry now).value ≤ now
  · rw [(judge_admitted hle).1, (judge_admitted hle).2]
    exact h.admit hle (hrange hle)
  · have hlt : now < (c.worked entry now).value := Int.lt_of_not_ge hle
    rw [(judge_denied hlt).1, (judge_denied hlt).2]
    cases entry with
    | none => exact absurd (c.fresh_le now) hle
    | some e => exact h

/-- **A request at the pace is admitted**: an interval after the last admission the arrival time is over. -/
theorem Keeps.admits (h : c.Keeps entry admitted now)
    (hpace : ∀ last, admitted.head? = some last → last.nanos + c.interval.nanos ≤ now.nanos) :
    admits (c.rule.judge now (c.worked entry now)).1 := by
  refine (judge_admitted ?_).1
  cases entry with
  | none => exact c.fresh_le now
  | some e =>
    obtain ⟨hlast, hvalue⟩ := h.used e rfl
    exact Int.le_trans hvalue (hpace _ hlast)

/-! ## Runs -/

/-- **Arrival times stay in range**: wherever a run admits a request, an interval after the arrival time
that it finds is an instant. -/
def StaysInRange (c : CellRate) (s : Store Instant) : List Query → Prop :=
  c.rule.Along s fun now e => e.value ≤ now → e.value.nanos + c.interval.nanos ≤ Instant.maxNanos

variable {s : Store Instant} {past : List Query} {threshold : Span}

/-- They do if an interval after every clock reading is an instant. -/
theorem staysInRange (h : ∀ q ∈ past, c.InRange q.time) : c.StaysInRange s past :=
  Rule.along_of fun q hq _ hle => Int.le_trans (Int.add_le_add_right hle _) (h q hq)

/-- **A run keeps the pace of a key**, if keys are not forgotten too early. -/
theorem tracks (hc : 2 * c.interval.nanos ≤ threshold.nanos) :
    c.rule.Tracks threshold
      (fun now e => e.value ≤ now → e.value.nanos + c.interval.nanos ≤ Instant.maxNanos) c.Keeps where
  fresh := c.keeps_nothing
  later hle h := h.mono hle
  drop hidle h := h.forget hc hidle
  judge heq hrange _ h := by
    subst heq
    exact h.judge hrange

/-- **A limiter keeps the pace** of a key in a run. Two admissions, which are listed latest first, are as many
intervals apart as there are admissions between them. In a span of any length there are at most two more admissions
than intervals fit into it. A request that comes an interval after the last admission, or later, is admitted. -/
structure Pace (c : CellRate) (l : Limiter) (past : List Query) (key : String) : Prop where
  spaced : ∀ (i j : Nat) later earlier, i < j → (l.admitted key past)[i]? = some later →
    (l.admitted key past)[j]? = some earlier →
    earlier.nanos + (j - i - 1 : Nat) * c.interval.nanos ≤ later.nanos
  bounded : 0 < c.interval.nanos → ∀ (first : Int) (length : Nat), (l.admitted key past).countP
    (fun t => first ≤ t.nanos ∧ t.nanos ≤ first + length) ≤ length / c.interval.nanos + 2
  paced : ∀ now : Instant, (∀ q ∈ past, q.time ≤ now) →
    (∀ last, (l.admitted key past).head? = some last → last.nanos + c.interval.nanos ≤ now.nanos) →
    admits (l.decision past ⟨key, now⟩)

/-- **A cell rate limiter keeps the pace of every key**, if keys are not forgotten before they are idle
for longer than two intervals. -/
theorem keeps_pace (c : CellRate) (start : Instant) (interval threshold : Span) (past : List Query)
    (key : String) (ho : Ordered past) (hc : 2 * c.interval.nanos ≤ threshold.nanos)
    (hrange : c.StaysInRange (.new start interval threshold) past) :
    c.Pace (.ofCellRate c start interval threshold) past key := by
  have hdecision : (Limiter.ofCellRate c start interval threshold).decision =
      c.rule.decision (.new start interval threshold) := Limiter.decision_cellRate _ _
  have htracks := tracks hc
  have hkeeps := htracks.after (s := .new start interval threshold) rfl key ho hrange
  -- what is spaced does not depend on the time at which one looks
  have hspaced : c.Spaced (admittedBy (c.rule.decision (.new start interval threshold)) key past) := by
    cases past with
    | nil => trivial
    | cons q past => exact (hkeeps q.time ho.le_last).spaced
  refine ⟨fun i j later earlier hij hlater hearlier => ?_, fun hpos first length => ?_, fun now hnow hpace => ?_⟩
  · rw [Limiter.admitted, hdecision] at hlater hearlier
    exact hspaced.apart hij hlater hearlier
  · rw [Limiter.admitted, hdecision, List.countP_eq_length_filter]
    refine (hspaced.sublist List.filter_sublist).length_le hpos first fun u hu => ?_
    have hin : first ≤ u.nanos ∧ u.nanos ≤ first + length := by simpa using (List.mem_filter.1 hu).2
    exact hin
  · rw [Limiter.admitted, hdecision] at hpace
    rw [hdecision]
    exact (htracks.seen (s := .new start interval threshold) rfl key ho hrange hnow).admits hpace

/-- Three requests at once, and one after a sweep that comes as soon as it may. -/
def rush : List Query :=
  [⟨"a", ⟨200000001, by decide⟩⟩, ⟨"a", .origin⟩, ⟨"b", .origin⟩, ⟨"a", .origin⟩, ⟨"a", .origin⟩]

theorem keeps_pace_swept :
    Ordered rush ∧ 2 * (Span.ofMillis 100).nanos ≤ (Span.ofMillis 200).nanos ∧
      (⟨.ofMillis 100, 3⟩ : CellRate).StaysInRange (.new .origin .zero (.ofMillis 200)) rush ∧
      (⟨.ofMillis 100, 3⟩ : CellRate).Pace
        (.ofCellRate ⟨.ofMillis 100, 3⟩ .origin .zero (.ofMillis 200)) rush "a" :=
  have hrange : (⟨.ofMillis 100, 3⟩ : CellRate).StaysInRange (.new .origin .zero (.ofMillis 200)) rush :=
    staysInRange (by decide)
  ⟨by decide, by decide, hrange, keeps_pace ⟨.ofMillis 100, 3⟩ .origin .zero (.ofMillis 200) rush "a"
    (by decide) (by decide) hrange⟩

end CallGuard.CellRate
