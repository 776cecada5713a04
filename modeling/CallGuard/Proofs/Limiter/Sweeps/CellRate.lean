import CallGuard.Proofs.Limiter.Sweeps

/-!
# Sweeps and the cell rate

A key that a cell rate limiter forgets starts again with the lead of a new key. The
limit is not loosened by that if the key would have gained the same lead in the time for
which it was idle: an emission interval, and another one where new keys are ahead.

* `CellRate.lead`: how far ahead a new key is, after its first request.
* `CellRate.Forgives`: the idle times after which a key may be forgotten.
* `CellRate.simulates`: arrival times without sweeps are behind by one interval for each request more.
* `CellRate.swept_le`, `CellRate.exists_loosened`: **forgiven idle times loosen nothing, others do.**
-/

namespace CallGuard.CellRate

/-- How far ahead a new key still is after its first request, in nanoseconds. -/
def lead (c : CellRate) : Nat := if c.burst = 0 then 0 else c.interval.nanos

/-- **A key may be forgotten** if it was idle for so long that it is as far ahead as a new one. -/
def Forgives (c : CellRate) (idle : Span) : Prop := c.interval.nanos + c.lead ≤ idle.nanos

/-- An interval after a time is in the range of the clock. -/
def InRange (c : CellRate) (now : Instant) : Prop := now.nanos + c.interval.nanos ≤ Instant.maxNanos

instance (c : CellRate) (now : Instant) : Decidable (c.InRange now) :=
  inferInstanceAs (Decidable (now.nanos + c.interval.nanos ≤ Instant.maxNanos))

variable {c : CellRate} {now : Instant}

theorem fresh_le (c : CellRate) (now : Instant) : c.fresh now ≤ now := by
  rw [fresh, Instant.le_iff]
  cases h : now.sub? (c.interval.scale c.burst.toNat) with
  | none => exact Int.le_refl _
  | some t =>
    have ht := Instant.sub?_eq_some_iff.1 h
    show t.nanos ≤ now.nanos
    omega

/-- **An arrival time moves on by an interval**, at least to now, where that is in range. -/
theorem advanced_nanos_of_range (now : Instant) {arrival : Instant}
    (hrange : arrival.nanos + c.interval.nanos ≤ Instant.maxNanos) :
    (c.advanced now arrival).nanos = max (arrival.nanos + c.interval.nanos) now.nanos := by
  have hmin := arrival.inRange.1
  have hsum : arrival.add? c.interval = some ⟨arrival.nanos + c.interval.nanos, by omega, hrange⟩ :=
    Instant.add?_eq_some_iff.2 rfl
  rw [advanced, hsum, Option.getD_some]
  show (if _ ≤ now then now else _ : Instant).nanos = _
  split
  · rename_i hle
    rw [Instant.le_iff] at hle
    exact (Int.max_eq_right hle).symm
  · rename_i hle
    rw [Instant.le_iff] at hle
    exact (Int.max_eq_left (by omega)).symm

theorem advanced_nanos {arrival : Instant} (h : arrival ≤ now) (hnow : c.InRange now) :
    (c.advanced now arrival).nanos = max (arrival.nanos + c.interval.nanos) now.nanos :=
  advanced_nanos_of_range now (Int.le_trans (Int.add_le_add_right h _) hnow)

/-- After its first request a new key is ahead by its lead at most. -/
theorem le_advanced_fresh (hnow : c.InRange now) :
    now.nanos + c.interval.nanos ≤ (c.advanced now (c.fresh now)).nanos + c.lead := by
  rw [advanced_nanos (c.fresh_le now) hnow, lead]
  split
  · rename_i hburst
    have hfresh : (c.fresh now).nanos = now.nanos := by
      have hzero : (c.interval.scale c.burst.toNat).nanos = 0 := by
        rw [Span.scale_nanos, hburst]
        simp
      have hsub : now.sub? (c.interval.scale c.burst.toNat) = some now := by
        rw [Instant.sub?_eq_some_iff, hzero]
        omega
      rw [fresh, hsub]
      rfl
    omega
  · omega

theorem judge_denied {e : Stamped Instant} (h : now < e.value) :
    admits (c.rule.judge now e).1 = false ∧ (c.rule.judge now e).2 = e := by
  have hjudge : c.judge now e = (.limited (e.value.since now).waitMillis, e) := if_pos h
  simp [rule, hjudge, admits, Decision.isAllowed]

theorem judge_admitted {e : Stamped Instant} (h : e.value ≤ now) :
    admits (c.rule.judge now e).1 = true ∧ (c.rule.judge now e).2 = ⟨c.advanced now e.value, now⟩ := by
  rw [Instant.le_iff] at h
  have hjudge : c.judge now e =
      (.allowed (c.remaining now (c.advanced now e.value)), ⟨c.advanced now e.value, now⟩) :=
    if_neg (by rw [Instant.lt_iff]; omega)
  simp [rule, hjudge, admits, Decision.isAllowed]

theorem stamps (c : CellRate) : c.rule.Stamps := by
  intro now e
  by_cases h : now < e.value
  · exact .inr (by rw [(judge_denied h).2])
  · rw [Instant.lt_iff] at h
    exact .inl (by rw [(judge_admitted (e := e) (by rw [Instant.le_iff]; omega)).2])

/-! ## Forgiven idle times -/

/-- **Without sweeps arrival times are behind** by at most one interval for each request admitted more.
Where a sweep dropped the entry, it is as if its arrival time were the lead before now. -/
def Behind (c : CellRate) (now : Instant) (kept left : Option (Stamped Instant)) (more : Nat) : Prop :=
  match kept, left with
  | none, none => more = 0
  | some u, some e =>
    u.value.nanos ≤ e.value.nanos + more * c.interval.nanos ∧
      e.value.nanos ≤ e.lastUse.nanos + c.interval.nanos
  | some u, none => u.value.nanos + c.lead ≤ now.nanos + more * c.interval.nanos
  | none, some _ => False

theorem intervals_succ (c : CellRate) (n : Nat) :
    ((n + 1 : Nat) : Int) * c.interval.nanos = n * c.interval.nanos + c.interval.nanos := by
  rw [Int.natCast_add, Int.add_mul, Int.natCast_one, Int.one_mul]

theorem intervals_nonneg (c : CellRate) (n : Nat) : (0 : Int) ≤ n * c.interval.nanos :=
  Int.mul_nonneg (by omega) (by omega)

/-- Who is behind by something has admitted more. -/
theorem exists_succ {more : Nat} (h : 0 < (more : Int) * c.interval.nanos) : ∃ less, more = less + 1 := by
  cases more with
  | zero => rw [Int.natCast_zero, Int.zero_mul] at h; omega
  | succ less => exact ⟨less, rfl⟩

/-- Both limiters know the key. -/
theorem behind_judge {u e : Stamped Instant} {more : Nat} (hnow : c.InRange now)
    (h : c.Behind now (some u) (some e) more) :
    ∃ more', (admits (c.rule.judge now u).1).toNat + more =
        (admits (c.rule.judge now e).1).toNat + more' ∧
      c.Behind now (some (c.rule.judge now u).2) (some (c.rule.judge now e).2) more' := by
  obtain ⟨hbehind, huse⟩ := h
  have hnonneg := c.intervals_nonneg more
  rcases Int.lt_or_le now.nanos u.value.nanos with hu | hu <;>
  rcases Int.lt_or_le now.nanos e.value.nanos with he | he
  · rw [(judge_denied hu).1, (judge_denied hu).2, (judge_denied he).1, (judge_denied he).2]
    exact ⟨more, rfl, hbehind, huse⟩
  · -- the one with sweeps catches up
    rw [(judge_denied hu).1, (judge_denied hu).2, (judge_admitted he).1, (judge_admitted he).2]
    obtain ⟨less, rfl⟩ := exists_succ (show 0 < (more : Int) * c.interval.nanos by omega)
    have hless := c.intervals_succ less
    have hnonneg := c.intervals_nonneg less
    have hadvanced := advanced_nanos he hnow
    refine ⟨less, by simp [Nat.add_comm], ?_, ?_⟩
    · show u.value.nanos ≤ (c.advanced now e.value).nanos + less * c.interval.nanos
      omega
    · show (c.advanced now e.value).nanos ≤ now.nanos + c.interval.nanos
      omega
  · -- the one without sweeps admits one more, and moves on by the interval that allows for it
    rw [(judge_admitted hu).1, (judge_admitted hu).2, (judge_denied he).1, (judge_denied he).2]
    have hadvanced := advanced_nanos hu hnow
    have hmore := c.intervals_succ more
    refine ⟨more + 1, by simp [Nat.add_comm], ?_, huse⟩
    show (c.advanced now u.value).nanos ≤ e.value.nanos + ((more + 1 : Nat) : Int) * c.interval.nanos
    omega
  · rw [(judge_admitted hu).1, (judge_admitted hu).2, (judge_admitted he).1, (judge_admitted he).2]
    have hadvanced := advanced_nanos hu hnow
    have hadvanced' := advanced_nanos he hnow
    refine ⟨more, rfl, ?_, ?_⟩
    · show (c.advanced now u.value).nanos ≤ (c.advanced now e.value).nanos + more * c.interval.nanos
      omega
    · show (c.advanced now e.value).nanos ≤ now.nanos + c.interval.nanos
      omega

/-- A sweep dropped the key, which is new again for the limiter that sweeps. -/
theorem behind_judge_dropped {u : Stamped Instant} {more : Nat} (hnow : c.InRange now)
    (h : c.Behind now (some u) none more) :
    ∃ more', (admits (c.rule.judge now u).1).toNat + more =
        (admits (c.rule.judge now ⟨c.fresh now, now⟩).1).toNat + more' ∧
      c.Behind now (some (c.rule.judge now u).2) (some (c.rule.judge now ⟨c.fresh now, now⟩).2) more' := by
  have hbehind : u.value.nanos + c.lead ≤ now.nanos + more * c.interval.nanos := h
  have hfresh := judge_admitted (c := c) (e := ⟨c.fresh now, now⟩) (c.fresh_le now)
  have hahead := le_advanced_fresh hnow
  have hnew := advanced_nanos (c.fresh_le now) hnow
  have hle := Instant.le_iff.1 (c.fresh_le now)
  have hnonneg := c.intervals_nonneg more
  rw [hfresh.1, hfresh.2]
  rcases Int.lt_or_le now.nanos u.value.nanos with hu | hu
  · rw [(judge_denied hu).1, (judge_denied hu).2]
    obtain ⟨less, rfl⟩ := exists_succ (show 0 < (more : Int) * c.interval.nanos by omega)
    have hless := c.intervals_succ less
    refine ⟨less, by simp [Nat.add_comm], ?_, ?_⟩
    · show u.value.nanos ≤ (c.advanced now (c.fresh now)).nanos + less * c.interval.nanos
      omega
    · show (c.advanced now (c.fresh now)).nanos ≤ now.nanos + c.interval.nanos
      omega
  · rw [(judge_admitted hu).1, (judge_admitted hu).2]
    have hadvanced := advanced_nanos hu hnow
    refine ⟨more, rfl, ?_, ?_⟩
    · show (c.advanced now u.value).nanos ≤ (c.advanced now (c.fresh now)).nanos + more * c.interval.nanos
      omega
    · show (c.advanced now (c.fresh now)).nanos ≤ now.nanos + c.interval.nanos
      omega

/-- The key is new to both limiters. -/
theorem behind_judge_fresh (hnow : c.InRange now) :
    c.Behind now (some (c.rule.judge now ⟨c.fresh now, now⟩).2)
      (some (c.rule.judge now ⟨c.fresh now, now⟩).2) 0 := by
  have hfresh := judge_admitted (c := c) (e := ⟨c.fresh now, now⟩) (c.fresh_le now)
  have hnew := advanced_nanos (c.fresh_le now) hnow
  have hle := Instant.le_iff.1 (c.fresh_le now)
  rw [hfresh.2]
  refine ⟨?_, ?_⟩
  · rw [Int.natCast_zero, Int.zero_mul]
    omega
  · show (c.advanced now (c.fresh now)).nanos ≤ now.nanos + c.interval.nanos
    omega

variable {start : Instant} {interval threshold : Span}

/-- **Sweeps that drop what is forgiven** keep arrival times without sweeps behind. -/
theorem simulates (hp : Patient start interval threshold c.InRange c.Forgives) :
    c.rule.Simulates start interval threshold c.InRange c.Behind where
  fresh _ := rfl
  later {now later kept left more} hle h := by
    rw [Instant.le_iff] at hle
    cases kept with
    | none => cases left <;> exact h
    | some u =>
      cases left with
      | some e => exact h
      | none =>
        have h : u.value.nanos + c.lead ≤ now.nanos + more * c.interval.nanos := h
        show u.value.nanos + c.lead ≤ later.nanos + more * c.interval.nanos
        omega
  drop {now kept e more} hnow hlate huse hidle h := by
    cases kept with
    | none => cases h
    | some u =>
      obtain ⟨hbehind, hlast⟩ := h
      have hspan := Instant.since_nanos now e.lastUse
      have hpos : threshold.nanos < (now.since e.lastUse).nanos := hidle
      have hforgiven : c.interval.nanos + c.lead ≤ (now.since e.lastUse).nanos :=
        hp.forgiven hnow hlate huse hidle
      show u.value.nanos + c.lead ≤ now.nanos + more * c.interval.nanos
      omega
  judge {now kept left more} hnow h := by
    cases kept with
    | none =>
      cases left with
      | some e => cases h
      | none =>
        obtain rfl : more = 0 := h
        exact ⟨0, rfl, behind_judge_fresh hnow⟩
    | some u =>
      cases left with
      | some e => exact behind_judge hnow h
      | none => exact behind_judge_dropped hnow h

/-- **Where sweeps drop what is forgiven, they admit no more.** -/
theorem swept_le (hp : Patient start interval threshold c.InRange c.Forgives) {run : List Query} (ho : Ordered run) (hstart : ∀ q ∈ run, start ≤ q.time)
    (hrange : ∀ q ∈ run, c.InRange q.time) (key : String) :
    (c.rule.swept start interval threshold key run).length ≤
      (c.rule.unswept start threshold key run).length := by
  cases run with
  | nil => exact Nat.le_refl _
  | cons q past =>
    obtain ⟨more, hlength, -⟩ :=
      (simulates hp).admitted c.stamps ho hstart hrange key q.time ho.le_last
    omega

/-! ## Other idle times -/

/-- A new key is a burst ahead, if that is in the range of the clock. -/
theorem fresh_nanos (h : Instant.minNanos ≤ now.nanos - (c.interval.nanos * c.burst.toNat : Nat)) :
    (c.fresh now).nanos = now.nanos - (c.interval.nanos * c.burst.toNat : Nat) := by
  have hmost := now.inRange.2
  have hscale : (c.interval.scale c.burst.toNat).nanos = c.interval.nanos * c.burst.toNat := by
    rw [Span.scale_nanos]
    refine Nat.min_eq_left ?_
    simp only [Instant.minNanos, Instant.maxNanos, Span.maxNanos] at h hmost ⊢
    omega
  have hsub : now.sub? (c.interval.scale c.burst.toNat) =
      some ⟨now.nanos - (c.interval.nanos * c.burst.toNat : Nat), h, by omega⟩ := by
    rw [Instant.sub?_eq_some_iff, hscale]
  rw [fresh, hsub]
  rfl

/-- A new key that is ahead may make two requests at once, which leave it an interval behind. -/
theorem entryAfter_two (hburst : c.burst ≠ 0)
    (hfresh : Instant.minNanos ≤ now.nanos - (c.interval.nanos * c.burst.toNat : Nat))
    (hnow : c.InRange now) :
    c.rule.admittedAt now none 2 = 2 ∧ ∃ e, c.rule.entryAfter now none 2 = some e ∧
      e.value.nanos = now.nanos + c.interval.nanos := by
  have hpos : 0 < c.burst.toNat := by
    rw [Nat.pos_iff_ne_zero, ne_eq, ← UInt32.toNat_zero, UInt32.toNat_inj]
    exact hburst
  have hle : c.interval.nanos ≤ c.interval.nanos * c.burst.toNat := Nat.le_mul_of_pos_right _ hpos
  have hfirst : (c.advanced now (c.fresh now)).nanos = now.nanos := by
    rw [advanced_nanos (c.fresh_le now) hnow, fresh_nanos hfresh]
    omega
  have hjudge := judge_admitted (c := c) (e := ⟨c.fresh now, now⟩) (c.fresh_le now)
  have hsecond : c.advanced now (c.fresh now) ≤ now := by
    rw [Instant.le_iff]
    omega
  have hjudge' := judge_admitted (c := c) (e := ⟨c.advanced now (c.fresh now), now⟩) hsecond
  have hentry : c.rule.entryAfter now none 1 = some ⟨c.advanced now (c.fresh now), now⟩ :=
    congrArg some hjudge.2
  refine ⟨?_, ⟨c.advanced now (c.advanced now (c.fresh now)), now⟩, ?_, ?_⟩
  · rw [Rule.admittedAt, hentry, Option.getD_some, hjudge'.1]
    show 1 + ((admits (c.rule.judge now ⟨c.fresh now, now⟩).1).toNat + 0) = 2
    rw [hjudge.1]
    rfl
  · rw [Rule.entryAfter, hentry, Option.getD_some, hjudge'.2]
  · show (c.advanced now (c.advanced now (c.fresh now))).nanos = _
    rw [advanced_nanos hsecond hnow, hfirst]
    omega

/-- A new key that is not ahead may make one request, which leaves it an interval behind. -/
theorem entryAfter_one (hburst : c.burst = 0)
    (hfresh : Instant.minNanos ≤ now.nanos - (c.interval.nanos * c.burst.toNat : Nat))
    (hnow : c.InRange now) :
    c.rule.admittedAt now none 1 = 1 ∧ ∃ e, c.rule.entryAfter now none 1 = some e ∧
      e.value.nanos = now.nanos + c.interval.nanos := by
  have hjudge := judge_admitted (c := c) (e := ⟨c.fresh now, now⟩) (c.fresh_le now)
  refine ⟨?_, ⟨c.advanced now (c.fresh now), now⟩, congrArg some hjudge.2, ?_⟩
  · show (admits (c.rule.judge now ⟨c.fresh now, now⟩).1).toNat + 0 = 1
    rw [hjudge.1]
    rfl
  · show (c.advanced now (c.fresh now)).nanos = _
    rw [advanced_nanos (c.fresh_le now) hnow, fresh_nanos hfresh, hburst, UInt32.toNat_zero, Nat.mul_zero]
    omega

/-- A key that is an interval behind is denied, or admitted once before the second interval is over. -/
theorem admittedAt_behind {first : Instant} {e : Stamped Instant}
    (he : e.value.nanos = first.nanos + c.interval.nanos) (hnow : c.InRange now) :
    (now.nanos < first.nanos + c.interval.nanos → c.rule.admittedAt now (some e) 1 = 0) ∧
      (now.nanos < first.nanos + 2 * c.interval.nanos → c.rule.admittedAt now (some e) 2 < 2) := by
  have hone : c.rule.admittedAt now (some e) 1 = (admits (c.rule.judge now e).1).toNat := rfl
  have htwo : c.rule.admittedAt now (some e) 2 =
      (admits (c.rule.judge now (c.rule.judge now e).2).1).toNat + (admits (c.rule.judge now e).1).toNat := rfl
  rcases Int.lt_or_le now.nanos e.value.nanos with hdenied | hadmitted
  · rw [hone, htwo, (judge_denied hdenied).2, (judge_denied hdenied).1]
    exact ⟨fun _ => rfl, fun _ => by decide⟩
  · refine ⟨fun h => by omega, fun h => ?_⟩
    have hadvanced := advanced_nanos hadmitted hnow
    have hdenied : now < (⟨c.advanced now e.value, now⟩ : Stamped Instant).value := by
      rw [Instant.lt_iff]
      show now.nanos < (c.advanced now e.value).nanos
      omega
    rw [htwo, (judge_admitted hadmitted).2, (judge_admitted hadmitted).1, (judge_denied hdenied).1]
    decide

/-- **Where an idle time is not forgiven, a sweep loosens the limit.** -/
theorem exists_loosened {first second : Instant} {idle : Span} (hf : ¬c.Forgives idle)
    (hspan : first.nanos + idle.nanos = second.nanos) (hrange : c.InRange second)
    (hfresh : Instant.minNanos ≤ first.nanos - (c.interval.nanos * c.burst.toNat : Nat)) :
    ∃ n m, 0 < n ∧
      c.rule.admittedAt second (c.rule.entryAfter first none n) m < c.rule.admittedAt second none m := by
  have hrange' : c.InRange first := by
    have : second.nanos + c.interval.nanos ≤ Instant.maxNanos := hrange
    show first.nanos + c.interval.nanos ≤ Instant.maxNanos
    omega
  have hshort : ¬c.interval.nanos + c.lead ≤ idle.nanos := hf
  rw [lead] at hshort
  by_cases hburst : c.burst = 0
  · obtain ⟨-, e, he, hvalue⟩ := entryAfter_one hburst hfresh hrange'
    obtain ⟨hone, -⟩ := entryAfter_one hburst (show Instant.minNanos ≤ second.nanos - (c.interval.nanos * c.burst.toNat : Nat) by omega) hrange
    rw [if_pos hburst] at hshort
    refine ⟨1, 1, by decide, ?_⟩
    rw [he, (admittedAt_behind hvalue hrange).1 (by omega), hone]
    decide
  · obtain ⟨-, e, he, hvalue⟩ := entryAfter_two hburst hfresh hrange'
    obtain ⟨htwo, -⟩ := entryAfter_two hburst (show Instant.minNanos ≤ second.nanos - (c.interval.nanos * c.burst.toNat : Nat) by omega) hrange
    rw [if_neg hburst] at hshort
    refine ⟨2, 2, by decide, ?_⟩
    rw [he, htwo]
    exact (admittedAt_behind hvalue hrange).2 (by omega)

end CallGuard.CellRate
