import CallGuard.Limiter.Config
import CallGuard.Proofs.Binary.Seconds
import CallGuard.Proofs.Limiter.Sweeps

/-!
# Sweeps and the token bucket

A bucket that is forgotten is full when it comes back. The limit is not loosened by that
if what would have flowed in while it was idle fills it anyway. Buckets hold floats, and
all of this is about what floats compute.

* `TokenBucket.Fits`: the settings of an accepted bucket in units.
* `TokenBucket.judge_units`: one request in units.
* `TokenBucket.Forgives`: the idle times after which a bucket may be forgotten.
* `TokenBucket.simulates`: with and without sweeps buckets hold the same.
* `TokenBucket.swept_eq`, `TokenBucket.exists_loosened`: **forgiven idle times loosen nothing; others do,
  if the capacity is a whole number.**
-/

namespace CallGuard.TokenBucket

open Binary

/-- **The settings of a bucket in units**: a positive finite rate and a finite capacity of a token or more. -/
structure Fits (b : TokenBucket Float) (c r : Nat) : Prop where
  capacity : units b.capacity = some c
  rate : units b.rate = some r
  one_le : one ≤ c
  rate_pos : 0 < r
  capacity_lt : c < infinite
  rate_lt : r < infinite

/-- Accepted settings fit. -/
theorem exists_fits {rate capacity : Float}
    (hv : (Limiter.Algorithm.tokenBucket rate capacity).validate = .ok ()) :
    ∃ c r, (⟨rate, capacity⟩ : TokenBucket Float).Fits c r := by
  rw [Limiter.Algorithm.validate] at hv
  split at hv
  · cases hv
  · rename_i hrate
    split at hv
    · cases hv
    · rename_i hcapacity
      simp only [Limiter.isPositive, Limiter.holdsToken, Bool.not_eq_true', Bool.not_eq_false,
        Bool.and_eq_true, decide_eq_true_eq] at hrate hcapacity
      obtain ⟨r, hr, hpos, hrlt⟩ := units_of_lt units_zero hrate.1 hrate.2
      obtain ⟨c, hc, hone, hclt⟩ := units_of_le units_one hcapacity.1 hcapacity.2
      exact ⟨c, r, hc, hr, hone, hpos, hclt, hrlt⟩

variable {b : TokenBucket Float} {c r : Nat} {now : Instant} {e : Stamped Float}

theorem units_toFloat_zero : units Span.zero.toFloat = some 0 := by decide +kernel

/-- What flows in is not negative. -/
theorem Fits.exists_inflow (h : b.Fits c r) (s : Span) : ∃ n, units (s.toFloat * b.rate) = some n := by
  obtain ⟨n, hn, -⟩ := s.units_seconds
  obtain ⟨m, hm, -⟩ := units_mul hn h.rate h.rate_pos h.rate_lt
  exact ⟨m, hm⟩

/-- Nothing flows in at once. -/
theorem Fits.inflow_zero (h : b.Fits c r) : units (Span.zero.toFloat * b.rate) = some 0 := by
  obtain ⟨m, hm, hzero, -⟩ := units_mul units_toFloat_zero h.rate h.rate_pos h.rate_lt
  rw [hm, hzero rfl]

theorem units_least {x y : Float} {a n : Nat} (hx : units x = some a) (hy : units y = some n) :
    units (leastFloat x y) = some (min a n) ∧ (a ≤ n → leastFloat x y = x) := by
  have hlt := lt_iff hy hx
  rw [leastFloat, not_isNaN hx, not_isNaN hy]
  by_cases h : n < a
  · rw [if_neg (by simp), if_neg (by simp), if_pos (hlt.2 h), Nat.min_eq_right (Nat.le_of_lt h)]
    exact ⟨hy, fun hle => by omega⟩
  · rw [if_neg (by simp), if_neg (by simp), if_neg (mt hlt.1 h), Nat.min_eq_left (by omega)]
    exact ⟨hx, fun _ => rfl⟩

/-- **Refilling in units**: what was there and what flowed in, rounded, and at most the capacity. -/
theorem Fits.refilled (h : b.Fits c r) {v n : Nat} (hv : units e.value = some v)
    (hn : units ((now.since e.lastUse).toFloat * b.rate) = some n) :
    ∃ s, Near (v + n) s ∧ units (b.refilled now e) = some (min c s) ∧
      (c ≤ s → b.refilled now e = b.capacity) := by
  obtain ⟨s, hs, hnear⟩ := units_add hv hn
  have hleast := units_least h.capacity hs
  exact ⟨s, hnear, hleast.1, hleast.2⟩

theorem rule_judge (b : TokenBucket Float) (now : Instant) (e : Stamped Float) :
    b.rule.judge now e = (.ok (b.judge now e).1, (b.judge now e).2) := rfl

/-- **One request in units**: a bucket with a whole token gives it away. -/
theorem Fits.judge (h : b.Fits c r) {t : Nat} (ht : units (b.refilled now e) = some t) (hle : t ≤ c) :
    admits (b.rule.judge now e).1 = decide (one ≤ t) ∧ (b.rule.judge now e).2.lastUse = now ∧
      ∃ v, units (b.rule.judge now e).2.value = some v ∧
        if one ≤ t then Near (t - one) v else v = t := by
  have hlt := h.capacity_lt
  have hreaches : (1.0 : Float) ≤ b.refilled now e ↔ one ≤ t := Binary.le_iff units_one ht
  by_cases hone : one ≤ t
  · have hjudge : b.judge now e =
        (.allowed (Quantity.whole (b.refilled now e - 1.0)), ⟨b.refilled now e - 1.0, now⟩) :=
      if_pos (decide_eq_true (hreaches.2 hone))
    obtain ⟨v, hv, hnear⟩ := units_sub ht units_one hone (by omega)
    rw [rule_judge, hjudge]
    exact ⟨(decide_eq_true hone).symm, rfl, v, hv, by rw [if_pos hone]; exact hnear⟩
  · have hjudge : b.judge now e =
        (.limited (Quantity.wait ((1.0 - b.refilled now e) / b.rate) : Span).waitMillis,
          ⟨b.refilled now e, now⟩) :=
      if_neg (by simpa [Quantity.reaches, Quantity.one] using mt hreaches.1 hone)
    rw [rule_judge, hjudge]
    exact ⟨(decide_eq_false hone).symm, rfl, t, ht, by rw [if_neg hone]⟩

theorem lastUse_judge (b : TokenBucket Float) (now : Instant) (e : Stamped Float) :
    (b.rule.judge now e).2.lastUse = now := by
  show (b.judge now e).2.lastUse = now
  rw [TokenBucket.judge]
  split <;> rfl

theorem stamps (b : TokenBucket Float) : b.rule.Stamps := fun now e => .inl (b.lastUse_judge now e)

/-- A request depends on what the bucket is refilled to, and on nothing else. -/
theorem judge_congr {e e' : Stamped Float} (h : b.refilled now e = b.refilled now e') :
    b.rule.judge now e = b.rule.judge now e' := by
  rw [rule_judge, rule_judge, TokenBucket.judge, TokenBucket.judge, h]

/-! ## Forgiven idle times -/

/-- **A bucket may be forgotten** if what flows in while it is idle fills it. -/
def Forgives (b : TokenBucket Float) (idle : Span) : Prop := b.capacity ≤ idle.toFloat * b.rate

/-- A new bucket is full. -/
theorem Fits.refilled_fresh (h : b.Fits c r) (now : Instant) :
    b.refilled now ⟨b.rule.fresh now, now⟩ = b.capacity := by
  obtain ⟨n, hn⟩ := h.exists_inflow (now.since now)
  obtain ⟨s, hnear, -, hfull⟩ := h.refilled (e := ⟨b.capacity, now⟩) h.capacity hn
  obtain ⟨hrep, hinf⟩ := representable h.capacity
  exact hfull (hnear.le c hrep hinf (Nat.le_add_right c n))

/-- A bucket that was idle for a forgiven time is full. -/
theorem Fits.refilled_idle (h : b.Fits c r) {v : Nat} (hv : units e.value = some v)
    (hf : b.Forgives (now.since e.lastUse)) : b.refilled now e = b.capacity := by
  obtain ⟨n, hn⟩ := h.exists_inflow (now.since e.lastUse)
  obtain ⟨s, hnear, -, hfull⟩ := h.refilled hv hn
  obtain ⟨hrep, hinf⟩ := representable h.capacity
  have hle : c ≤ n := (Binary.le_iff h.capacity hn).1 hf
  exact hfull (hnear.le c hrep hinf (by omega))

/-- What a bucket holds afterwards is not negative. -/
theorem Fits.judge_value (h : b.Fits c r) {v : Nat} (hv : units e.value = some v) :
    ∃ v', units (b.rule.judge now e).2.value = some v' := by
  obtain ⟨n, hn⟩ := h.exists_inflow (now.since e.lastUse)
  obtain ⟨s, -, hs, -⟩ := h.refilled hv hn
  obtain ⟨-, -, v', hv', -⟩ := h.judge hs (Nat.min_le_left _ _)
  exact ⟨v', hv'⟩

variable {start : Instant} {interval threshold : Span}

/-- **With and without sweeps buckets hold the same**, or a sweep dropped one that is idle still. -/
def Same (start : Instant) (interval threshold : Span) (now : Instant) (kept left : Option (Stamped Float))
    (more : Nat) : Prop :=
  more = 0 ∧
    match kept, left with
    | none, none => True
    | some u, some e => u = e ∧ ∃ v, units u.value = some v
    | some u, none => (∃ v, units u.value = some v) ∧ start ≤ u.lastUse ∧
        threshold < now.since u.lastUse ∧ start.nanos + interval.nanos < now.nanos
    | none, some _ => False

/-- **Sweeps that drop what is full again** change nothing. -/
theorem simulates (h : b.Fits c r) (hp : Patient start interval threshold (fun _ => True) b.Forgives) :
    b.rule.Simulates start interval threshold (fun _ => True) (Same start interval threshold) where
  fresh _ := ⟨rfl, trivial⟩
  later {now later kept left more} hle hsame := by
    obtain ⟨hmore, hsame⟩ := hsame
    refine ⟨hmore, ?_⟩
    cases kept with
    | none => cases left <;> exact hsame
    | some u =>
      cases left with
      | some e => exact hsame
      | none =>
        obtain ⟨hv, huse, hidle, hlate⟩ := hsame
        rw [Instant.le_iff] at hle
        rw [Span.lt_iff, Instant.since_nanos] at hidle
        refine ⟨hv, huse, ?_, by omega⟩
        rw [Span.lt_iff, Instant.since_nanos]
        omega
  drop {now kept e more} _ hlate huse hidle hsame := by
    obtain ⟨hmore, hsame⟩ := hsame
    refine ⟨hmore, ?_⟩
    cases kept with
    | none => cases hsame
    | some u =>
      obtain ⟨rfl, hv⟩ := hsame
      exact ⟨hv, huse, hidle, hlate⟩
  judge {now kept left more} _ hsame := by
    obtain ⟨rfl, hsame⟩ := hsame
    have hfresh := h.refilled_fresh now
    cases kept with
    | none =>
      cases left with
      | some e => cases hsame
      | none => exact ⟨0, rfl, rfl, rfl, h.judge_value (e := ⟨b.rule.fresh now, now⟩) h.capacity⟩
    | some u =>
      cases left with
      | some e =>
        obtain ⟨rfl, v, hv⟩ := hsame
        exact ⟨0, rfl, rfl, rfl, h.judge_value hv⟩
      | none =>
        obtain ⟨⟨v, hv⟩, huse, hidle, hlate⟩ := hsame
        have hforgiven := hp.forgiven trivial hlate huse hidle
        have hjudge := judge_congr ((h.refilled_idle hv hforgiven).trans hfresh.symm)
        rw [Option.getD_some, Option.getD_none, hjudge]
        exact ⟨0, rfl, rfl, rfl, h.judge_value (e := ⟨b.rule.fresh now, now⟩) h.capacity⟩

/-- **Where sweeps drop what is forgiven, they change nothing.** -/
theorem swept_eq (h : b.Fits c r) (hp : Patient start interval threshold (fun _ => True) b.Forgives)
    {run : List Query} (ho : Ordered run) (hstart : ∀ q ∈ run, start ≤ q.time) (key : String) :
    b.rule.swept start interval threshold key run = b.rule.unswept start threshold key run :=
  (simulates h hp).swept_eq And.left b.stamps ho hstart (fun _ _ => trivial) key

/-! ## Other idle times -/

/-- At once a bucket holds what it held. -/
theorem Fits.refilled_now (h : b.Fits c r) {v : Nat} (hv : units e.value = some v) (hle : v ≤ c)
    (huse : e.lastUse = now) : units (b.refilled now e) = some v := by
  have hzero : now.since e.lastUse = Span.zero := by
    apply Span.ext
    rw [huse, Instant.since_nanos]
    show (now.nanos - now.nanos).toNat = 0
    omega
  have hn := h.inflow_zero
  rw [← hzero] at hn
  obtain ⟨s, hnear, hs, -⟩ := h.refilled hv hn
  obtain ⟨hrep, hinf⟩ := representable hv
  rw [hs, hnear.eq hrep hinf, Nat.add_zero, Nat.min_eq_right hle]

/-- One request that finds `t` at once leaves the same or one token less. -/
theorem Fits.judge_exact (h : b.Fits c r) (hc : c < 2 ^ 53 * one) {t : Nat}
    (ht : units (b.refilled now e) = some t) (hle : t ≤ c) :
    units (b.rule.judge now e).2.value = some (if one ≤ t then t - one else t) := by
  obtain ⟨-, -, v, hv, hleft⟩ := h.judge ht hle
  obtain ⟨hrep, hinf⟩ := representable ht
  rw [hv]
  by_cases hone : one ≤ t
  · rw [if_pos hone] at hleft ⊢
    rw [hleft.eq (representable_sub_one hrep hone (by omega)) (by omega)]
  · rw [if_neg hone] at hleft ⊢
    rw [hleft]

/-- **Requests at one instant** get the whole tokens that the first of them finds, and leave the rest. -/
theorem Fits.drain (h : b.Fits c r) (hc : c < 2 ^ 53 * one) {t : Nat} {first : Option (Stamped Float)}
    (ht : units (b.refilled now (first.getD ⟨b.rule.fresh now, now⟩)) = some t) (hle : t ≤ c) (n : Nat) :
    b.rule.admittedAt now first n = min n (t / one) ∧
      (n = 0 ∨ ∃ e, b.rule.entryAfter now first n = some e ∧ e.lastUse = now ∧
        units e.value = some (t - min n (t / one) * one)) ∧
      units (b.refilled now ((b.rule.entryAfter now first n).getD ⟨b.rule.fresh now, now⟩)) =
        some (t - min n (t / one) * one) := by
  have hone := one_pos
  have hdiv := Nat.div_mul_le_self t one
  have hmod := Nat.lt_div_mul_add (a := t) hone
  induction n with
  | zero => exact ⟨(Nat.zero_min _).symm, .inl rfl, by rw [Nat.zero_min, Nat.zero_mul]; exact ht⟩
  | succ n ih =>
    obtain ⟨hcount, -, hunits⟩ := ih
    have hadmits := (h.judge hunits (by omega)).1
    have huse := (h.judge hunits (by omega)).2.1
    have hvalue := h.judge_exact hc hunits (by omega)
    have hleft : (if one ≤ t - min n (t / one) * one then t - min n (t / one) * one - one
        else t - min n (t / one) * one) = t - min (n + 1) (t / one) * one ∧
        (decide (one ≤ t - min n (t / one) * one)).toNat + min n (t / one) = min (n + 1) (t / one) := by
      rcases Nat.lt_or_ge n (t / one) with hmore | hdone
      · -- there is another whole token
        have hstep : (n + 1) * one ≤ t / one * one := Nat.mul_le_mul_right _ hmore
        rw [Nat.succ_mul] at hstep
        rw [Nat.min_eq_left (Nat.le_of_lt hmore), Nat.min_eq_left hmore, if_pos (by omega),
          decide_eq_true (by omega), Nat.succ_mul, Nat.sub_sub]
        exact ⟨rfl, Nat.add_comm _ _⟩
      · rw [Nat.min_eq_right hdone, Nat.min_eq_right (by omega), if_neg (by omega),
          decide_eq_false (by omega)]
        exact ⟨rfl, Nat.zero_add _⟩
    rw [hleft.1] at hvalue
    rw [Rule.admittedAt, Rule.entryAfter, hcount, hadmits, hleft.2]
    exact ⟨rfl, .inr ⟨_, rfl, huse, hvalue⟩, h.refilled_now hvalue (by omega) huse⟩

/-- A whole capacity below `2 ^ 53` is as many tokens. -/
theorem Fits.whole (h : b.Fits c r) {n : UInt64} (hn : n.toNat < 2 ^ 53) (hb : b.capacity = n.toFloat) :
    c = n.toNat * one := by
  obtain ⟨k, hk, hnear⟩ := units_toFloat n
  have hcap := h.capacity
  rw [hb, hk] at hcap
  obtain rfl := Option.some.inj hcap
  refine hnear.eq ⟨n.toNat, oneShift, hn, rfl⟩ ?_
  calc n.toNat * one ≤ 2 ^ 53 * 2 ^ oneShift := Nat.mul_le_mul_right _ (Nat.le_of_lt hn)
    _ = 2 ^ 52 * 2 ^ (oneShift + 1) := carry_eq _
    _ ≤ infinite := Nat.mul_le_mul_left _
      (Nat.pow_le_pow_right (by decide) (by rw [lastShift_eq, oneShift]; decide))

/-- **Where an idle time is not forgiven, a sweep loosens the limit**, if the capacity is whole. -/
theorem exists_loosened (h : b.Fits c r) {n : UInt64} (hn : n.toNat < 2 ^ 53) (hb : b.capacity = n.toFloat)
    {first second : Instant} {idle : Span} (hf : ¬b.Forgives idle)
    (hspan : first.nanos + idle.nanos = second.nanos) :
    ∃ n m, 0 < n ∧
      b.rule.admittedAt second (b.rule.entryAfter first none n) m < b.rule.admittedAt second none m := by
  have hone := one_pos
  have hc := h.whole hn hb
  have hlt : c < 2 ^ 53 * one := by rw [hc]; exact (Nat.mul_lt_mul_right hone).2 hn
  have hdiv : c / one = n.toNat := by rw [hc, Nat.mul_div_cancel _ hone]
  have hpos : 0 < n.toNat := by
    have := h.one_le
    rcases Nat.eq_zero_or_pos n.toNat with hzero | hpos
    · rw [hc, hzero, Nat.zero_mul] at this
      omega
    · exact hpos
  have hfresh : ∀ now, units (b.refilled now ((none : Option (Stamped Float)).getD ⟨b.rule.fresh now, now⟩)) =
      some c := by
    intro now
    rw [Option.getD_none, h.refilled_fresh]
    exact h.capacity
  -- the first requests leave nothing, and what flows in until the second ones is less than the capacity
  obtain ⟨-, hentry, -⟩ := h.drain hlt (hfresh first) (Nat.le_refl _) n.toNat
  rw [hdiv, Nat.min_self, ← hc, Nat.sub_self] at hentry
  obtain ⟨e, he, huse, hv⟩ := hentry.resolve_left (by omega)
  have hsince : second.since e.lastUse = idle := by
    apply Span.ext
    rw [huse, Instant.since_nanos]
    omega
  obtain ⟨k, hk⟩ := h.exists_inflow idle
  have hless : k < c := Nat.lt_of_not_le fun hle => hf ((Binary.le_iff h.capacity hk).2 hle)
  rw [← hsince] at hk
  obtain ⟨s, hnear, hs, -⟩ := h.refilled hv hk
  obtain ⟨hrep, hinf⟩ := representable hk
  rw [Nat.zero_add] at hnear
  rw [hnear.eq hrep hinf, Nat.min_eq_right (Nat.le_of_lt hless)] at hs
  have hkept := (h.drain hlt (show units (b.refilled second ((some e).getD _)) = some k from hs) (Nat.le_of_lt hless) n.toNat).1
  have hdropped := (h.drain hlt (hfresh second) (Nat.le_refl _) n.toNat).1
  refine ⟨n.toNat, n.toNat, hpos, ?_⟩
  rw [he, hkept, hdropped, hdiv, Nat.min_self]
  have hfewer : k / one < n.toNat := by
    rw [Nat.div_lt_iff_lt_mul hone, ← hc]
    exact hless
  omega

end CallGuard.TokenBucket
