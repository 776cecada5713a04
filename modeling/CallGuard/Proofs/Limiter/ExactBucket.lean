import CallGuard.Limiter.TokenBucket
import CallGuard.Proofs.Limiter.Independence
import Mathlib.Data.Rat.Floor
import Mathlib.Tactic.Linarith

/-!
# Exact token buckets

A token bucket over rationals loses nothing to rounding. What has flowed in step by step is
what would have flowed in at once, so the level that a bucket would have now says all about
it: denied requests leave the level as it is, and a bucket that is forgotten when it would
be full anyway comes back at the same level. An admission costs a token of what was there
or has flowed in since.

* `ExactBucket.refilled_refilled`: refilling in steps is refilling at once.
* `ExactBucket.views`: forgotten buckets and denied requests do not show.
* `ExactBucket.level`: the tokens of a key after a run, and what requests do to it.
* `ExactBucket.admitted_add_level_le`: admissions and level together are what there was and what flowed in.
* `ExactBucket.level_append`: requests at one instant get the whole tokens that are left.
* `ExactBucket.fair`: **a bucket admits what its level says, in any interval, and for each key by itself.**
-/

namespace CallGuard

/-- A token bucket that computes with rationals. -/
abbrev ExactBucket := TokenBucket Rat

namespace ExactBucket

/-- Settings as a limiter accepts them. -/
structure Sane (b : ExactBucket) : Prop where
  rate_pos : 0 < b.rate
  one_le : 1 ≤ b.capacity

/-- Tokens that flow in during a span. -/
def inflow (b : ExactBucket) (s : Span) : Rat := Quantity.seconds s * b.rate

variable {b : ExactBucket} {now later earlier : Instant} {e : Stamped Rat}

theorem inflow_eq (b : ExactBucket) (s : Span) : b.inflow s = s.nanos * (b.rate / 1000000000) := by
  have hseconds : (Quantity.seconds s : Rat) = s.nanos / 1000000000 := by
    show mkRat (s.nanos : Int) 1000000000 = _
    rw [Rat.mkRat_eq_div]
    norm_num
  unfold inflow
  rw [hseconds]
  ring

theorem inflow_nonneg (hb : b.Sane) (s : Span) : 0 ≤ b.inflow s := by
  have hrate := hb.rate_pos
  rw [inflow_eq]
  positivity

theorem inflow_mono (hb : b.Sane) {s t : Span} (h : s ≤ t) : b.inflow s ≤ b.inflow t := by
  have hrate := hb.rate_pos
  have hnanos : (s.nanos : Rat) ≤ t.nanos := by exact_mod_cast Span.le_iff.1 h
  rw [inflow_eq, inflow_eq]
  gcongr

/-- What flows in during two spans flows in during both together. -/
theorem inflow_since (b : ExactBucket) (h : earlier ≤ now) (h' : now ≤ later) :
    b.inflow (later.since earlier) = b.inflow (now.since earlier) + b.inflow (later.since now) := by
  have hnanos : (later.since earlier).nanos = (now.since earlier).nanos + (later.since now).nanos := by
    rw [Instant.le_iff] at h h'
    rw [Instant.since_nanos, Instant.since_nanos, Instant.since_nanos]
    omega
  rw [inflow_eq, inflow_eq, inflow_eq, hnanos, Nat.cast_add]
  ring

theorem inflow_self (b : ExactBucket) (now : Instant) : b.inflow (now.since now) = 0 := by
  have hnanos : (now.since now).nanos = 0 := by
    rw [Instant.since_nanos]
    omega
  rw [inflow_eq, hnanos, Nat.cast_zero, zero_mul]

/-! ## One bucket -/

theorem refilled_eq (b : ExactBucket) (now : Instant) (e : Stamped Rat) :
    b.refilled now e = min b.capacity (e.value + b.inflow (now.since e.lastUse)) := by
  show (if e.value + b.inflow (now.since e.lastUse) < b.capacity
    then e.value + b.inflow (now.since e.lastUse) else b.capacity) = _
  split
  · rename_i hlt
    exact (min_eq_right hlt.le).symm
  · rename_i hge
    exact (min_eq_left (not_lt.1 hge)).symm

theorem refilled_le (b : ExactBucket) (now : Instant) (e : Stamped Rat) : b.refilled now e ≤ b.capacity := by
  rw [refilled_eq]
  exact min_le_left _ _

/-- What a bucket holds is from nothing to its capacity, and it was used before. -/
structure Sound (b : ExactBucket) (now : Instant) (e : Stamped Rat) : Prop where
  nonneg : 0 ≤ e.value
  le_capacity : e.value ≤ b.capacity
  used : e.lastUse ≤ now

theorem refilled_nonneg (hb : b.Sane) (he : b.Sound now e) : 0 ≤ b.refilled later e := by
  have hflow := inflow_nonneg hb (later.since e.lastUse)
  have hcapacity := hb.one_le
  have hvalue := he.nonneg
  rw [refilled_eq]
  exact le_min (by linarith) (by linarith)

/-- At once a bucket holds what it held. -/
theorem refilled_now {v : Rat} (h : v ≤ b.capacity) : b.refilled now ⟨v, now⟩ = v := by
  rw [refilled_eq, inflow_self, add_zero, min_eq_right h]

/-- **Refilling in steps is refilling at once.** -/
theorem refilled_refilled (hb : b.Sane) (h : e.lastUse ≤ now) (h' : now ≤ later) :
    b.refilled later ⟨b.refilled now e, now⟩ = b.refilled later e := by
  have hflow := inflow_nonneg hb (later.since now)
  have hcapacity : b.capacity ≤ b.capacity + b.inflow (later.since now) := by linarith
  rw [refilled_eq, refilled_eq, refilled_eq, inflow_since b h h', ← add_assoc]
  dsimp only
  rw [min_add, ← min_assoc, min_eq_left hcapacity]

theorem refilled_fresh (hb : b.Sane) (now later : Instant) :
    b.refilled later ⟨b.rule.fresh now, now⟩ = b.capacity := by
  have hflow := inflow_nonneg hb (later.since now)
  rw [refilled_eq]
  show min b.capacity (b.capacity + b.inflow (later.since now)) = b.capacity
  exact min_eq_left (by linarith)

theorem reaches_one {x : Rat} : Quantity.reaches x Quantity.one = true ↔ 1 ≤ x := decide_eq_true_iff

/-- The tokens that a request leaves. -/
theorem judge_snd (b : ExactBucket) (now : Instant) (e : Stamped Rat) :
    (b.rule.judge now e).2 =
      ⟨if 1 ≤ b.refilled now e then b.refilled now e - 1 else b.refilled now e, now⟩ := by
  show (b.judge now e).2 = _
  unfold TokenBucket.judge
  by_cases h : 1 ≤ b.refilled now e
  · rw [if_pos (reaches_one.2 h), if_pos h]
    rfl
  · rw [if_neg (mt reaches_one.1 h), if_neg h]

theorem judge_allowed (h : 1 ≤ b.refilled now e) :
    (b.rule.judge now e).1 = .ok (.allowed (Quantity.whole (b.refilled now e - 1))) := by
  show Except.ok (b.judge now e).1 = _
  unfold TokenBucket.judge
  rw [if_pos (reaches_one.2 h)]
  rfl

theorem admits_iff : admits (b.rule.judge now e).1 ↔ 1 ≤ b.refilled now e := by
  by_cases h : 1 ≤ b.refilled now e
  · rw [judge_allowed h]
    exact ⟨fun _ => h, fun _ => rfl⟩
  · show admits (.ok (b.judge now e).1) ↔ _
    unfold TokenBucket.judge
    rw [if_neg (mt reaches_one.1 h)]
    exact ⟨fun hadmits => (by cases hadmits), fun hle => absurd hle h⟩

/-- A request depends on what the bucket is refilled to, and on nothing else. -/
theorem judge_congr {e' : Stamped Rat} (h : b.refilled now e = b.refilled now e') :
    b.rule.judge now e = b.rule.judge now e' := by
  show (Except.ok (b.judge now e).1, (b.judge now e).2) = (Except.ok (b.judge now e').1, (b.judge now e').2)
  unfold TokenBucket.judge
  rw [h]

/-- **Forgotten buckets and denied requests do not show**, if nothing is forgotten before it would be full. -/
theorem views (hb : b.Sane) {threshold : Span} (hfull : b.capacity ≤ b.inflow threshold) :
    b.rule.Views threshold (fun _ => True) b.Sound b.refilled where
  fresh {now} _ := by
    have hone := hb.one_le
    exact ⟨show 0 ≤ b.capacity by linarith, le_refl b.capacity, Int.le_refl _⟩
  later hle he := ⟨he.nonneg, he.le_capacity, Int.le_trans he.used hle⟩
  judged {now e} _ he := by
    have hnonneg : 0 ≤ b.refilled now e := refilled_nonneg hb he
    have hle := b.refilled_le now e
    rw [judge_snd]
    refine ⟨?_, ?_, Int.le_refl _⟩
    · dsimp only
      split <;> linarith
    · dsimp only
      split <;> linarith
  renew {now later} _ _ _ := by
    rw [refilled_fresh hb, refilled_fresh hb]
  idle {now e} _ he hidle := by
    have hflow : b.capacity ≤ b.inflow (now.since e.lastUse) :=
      hfull.trans (inflow_mono hb (Nat.le_of_lt hidle))
    have hvalue := he.nonneg
    rw [refilled_fresh hb, refilled_eq]
    exact min_eq_left (by linarith)
  decides h := by rw [judge_congr h]
  leaves _ _ _ h := by rw [judge_congr h]
  denied {now later e} he hle hdenied := by
    have hless : ¬1 ≤ b.refilled now e := by
      intro hone
      rw [admits_iff.2 hone] at hdenied
      cases hdenied
    rw [judge_snd, if_neg hless]
    exact refilled_refilled hb he.used hle

/-! ## Levels -/

/-- **The level of a key** after a run: what its bucket would hold now. -/
def level (b : ExactBucket) (s : Store Rat) (past : List Query) (key : String) (now : Instant) : Rat :=
  b.rule.shown b.refilled ((b.rule.after s past).get? key) now

variable {s : Store Rat} {past : List Query} {key : String} {q : Query}

theorem level_le (b : ExactBucket) (s : Store Rat) (past : List Query) (key : String) (now : Instant) :
    b.level s past key now ≤ b.capacity := b.refilled_le now _

section Levels

variable (hb : b.Sane) (hs : s.entries = .empty) (hfull : b.capacity ≤ b.inflow s.threshold)
include hb hs hfull

theorem level_nonneg (ho : Ordered past) (hpast : ∀ p ∈ past, p.time ≤ now) : 0 ≤ b.level s past key now := by
  unfold level Rule.shown
  cases he : (b.rule.after s past).get? key with
  | none =>
    rw [Option.getD_none, refilled_fresh hb]
    exact zero_le_one.trans hb.one_le
  | some e =>
    exact refilled_nonneg hb ((views hb hfull).sound_after hs ho (fun _ _ => trivial) hpast he)

/-- A request works on a bucket of the level that there is. -/
theorem refilled_worked (ho : Ordered (q :: past)) :
    b.refilled q.time (b.rule.worked s past q) = b.level s past q.key q.time :=
  (views hb hfull).view_worked hs ho (fun _ _ => trivial) (Int.le_refl _) trivial

theorem admits_iff_level (ho : Ordered (q :: past)) :
    admits (b.rule.decision s past q) ↔ 1 ≤ b.level s past q.key q.time := by
  rw [Rule.decision_eq, admits_iff, refilled_worked hb hs hfull ho]

/-- Only the admissions of a key change its level. -/
theorem level_same (hno : ¬(q.key = key ∧ admits (b.rule.decision s past q))) (ho : Ordered (q :: past))
    (hle : q.time ≤ now) : b.level s (q :: past) key now = b.level s past key now := by
  have hviews := views hb hfull
  by_cases hkey : key = q.key
  · subst hkey
    have hdenied : admits (b.rule.decision s past q) = false := Bool.eq_false_iff.2 fun h => hno ⟨rfl, h⟩
    exact hviews.shown_denied hs hdenied ho (fun _ _ => trivial) hle trivial
  · exact hviews.shown_other hs hkey ho (fun _ _ => trivial) hle trivial

/-- **An admission costs a token**, of the level at its time. -/
theorem level_admitted (hadmits : admits (b.rule.decision s past q)) (ho : Ordered (q :: past)) :
    b.level s (q :: past) q.key now = b.refilled now ⟨b.level s past q.key q.time - 1, q.time⟩ := by
  have hone := (admits_iff_level hb hs hfull ho).1 hadmits
  have hworked := refilled_worked hb hs hfull ho
  show b.refilled now (((b.rule.after s (q :: past)).get? q.key).getD _) = _
  rw [Rule.get?_after_cons, if_pos rfl, Option.getD_some, judge_snd, hworked, if_pos hone]

omit hb hs hfull in
/-- No request is admitted later than the latest one. -/
theorem countP_admittedBy_of_lt (decision : List Query → Query → Except TimeError Decision) (key : String)
    (ho : Ordered (q :: past)) {first : Instant} (hlate : q.time < first) :
    (q.time :: admittedBy decision key past).countP (first ≤ ·) = 0 := by
  refine List.countP_eq_zero.2 fun t ht => ?_
  have hle : t ≤ q.time := by
    rcases List.mem_cons.1 ht with rfl | ht
    · exact Int.le_refl _
    · obtain ⟨p, hp, rfl⟩ := mem_admittedBy ht
      exact ho.le p hp
  rw [Instant.lt_iff] at hlate
  rw [Instant.le_iff] at hle
  simp only [decide_eq_true_eq, Instant.le_iff]
  omega

/-- **Admissions and level together** are no more than a full bucket and what has flowed in since. -/
theorem admitted_add_level_le (key : String) (ho : Ordered past) (first : Instant) :
    ∀ now, first ≤ now → (∀ p ∈ past, p.time ≤ now) →
      ((admittedBy (b.rule.decision s) key past).countP (first ≤ ·) : Rat) + b.level s past key now ≤
        b.capacity + b.inflow (now.since first) := by
  induction past with
  | nil =>
    intro now _ _
    have hlevel := b.level_le s [] key now
    have hflow := inflow_nonneg hb (now.since first)
    rw [admittedBy, List.countP_nil, Nat.cast_zero]
    linarith
  | cons q past ih =>
    intro now hfirst hpast
    have hq : q.time ≤ now := hpast q List.mem_cons_self
    have hpast' : ∀ p ∈ past, p.time ≤ now := fun p hp => hpast p (List.mem_cons_of_mem _ hp)
    have ih := ih ho.tail
    rw [admittedBy]
    by_cases hadmits : q.key = key ∧ admits (b.rule.decision s past q)
    · obtain ⟨rfl, hadmits⟩ := hadmits
      rw [if_pos ⟨rfl, hadmits⟩, level_admitted hb hs hfull hadmits ho]
      by_cases hin : first ≤ q.time
      · -- the admission took a token of the level at its time, and the rest has grown by what flowed in
        have hcount := ih q.time hin ho.le
        have hflow := inflow_since b hin hq
        have hgrown : b.refilled now ⟨b.level s past q.key q.time - 1, q.time⟩ ≤
            b.level s past q.key q.time - 1 + b.inflow (now.since q.time) := by
          rw [refilled_eq]
          exact min_le_right _ _
        rw [List.countP_cons_of_pos (by simpa using hin), Nat.cast_add, Nat.cast_one]
        linarith
      · -- all admissions are earlier
        have hnone := countP_admittedBy_of_lt (b.rule.decision s) q.key ho (Int.not_le.1 hin)
        have hlevel := b.refilled_le now ⟨b.level s past q.key q.time - 1, q.time⟩
        have hflow := inflow_nonneg hb (now.since first)
        rw [hnone, Nat.cast_zero]
        linarith
    · rw [if_neg hadmits, level_same hb hs hfull hadmits ho hq]
      exact ih now hfirst hpast'

/-- **No interval holds more admissions** than a full bucket and what flows in during it. -/
theorem countP_admitted_le (key : String) (ho : Ordered past) (first last : Instant) :
    ((admittedBy (b.rule.decision s) key past).countP fun t => first ≤ t ∧ t ≤ last : Rat) ≤
      b.capacity + b.inflow (last.since first) := by
  induction past with
  | nil =>
    have hflow := inflow_nonneg hb (last.since first)
    have hone := hb.one_le
    rw [admittedBy, List.countP_nil, Nat.cast_zero]
    linarith
  | cons q past ih =>
    have ih := ih ho.tail
    by_cases hin : q.key = key ∧ admits (b.rule.decision s past q) ∧ first ≤ q.time ∧ q.time ≤ last
    · obtain ⟨rfl, -, hfirst, hlast⟩ := hin
      -- the interval ends with this admission at the earliest, and the level is what is left then
      have htotal := admitted_add_level_le hb hs hfull q.key ho first q.time hfirst ho.le_last
      have hlevel : 0 ≤ b.level s (q :: past) q.key q.time := level_nonneg hb hs hfull ho ho.le_last
      have hflow := inflow_since b hfirst hlast
      have hmore := inflow_nonneg hb (last.since q.time)
      have hcount : (((admittedBy (b.rule.decision s) q.key (q :: past)).countP
          fun t => first ≤ t ∧ t ≤ last : Nat) : Rat) ≤
          (admittedBy (b.rule.decision s) q.key (q :: past)).countP (first ≤ ·) := by
        exact_mod_cast List.countP_mono_left fun t _ ht => by
          simp only [decide_eq_true_eq] at ht ⊢
          exact ht.1
      linarith
    · rw [admittedBy]
      split
      · rename_i hadmits
        have hout : ¬(first ≤ q.time ∧ q.time ≤ last) := fun h => hin ⟨hadmits.1, hadmits.2, h⟩
        rw [List.countP_cons_of_neg (by simpa using hout)]
        exact ih
      · exact ih

end Levels

/-! ## Requests at one instant -/

/-- Whole tokens, where there are fewer than a word can count. -/
theorem le_whole_iff {x : Rat} (h0 : 0 ≤ x) (h : x < 2 ^ 64) (n : Nat) :
    n ≤ Quantity.whole x ↔ (n : Rat) ≤ x := by
  have hfloor : 0 ≤ x.floor := Rat.le_floor_iff.2 (by exact_mod_cast h0)
  have hle : (n : Int) ≤ x.floor ↔ (n : Rat) ≤ x := by
    rw [Rat.le_floor_iff]
    norm_cast
  show n ≤ min x.floor.toNat maxWord ↔ _
  rw [Nat.le_min, ← hle]
  constructor
  · rintro ⟨hn, -⟩
    omega
  · intro hn
    have hword : (n : Rat) < 2 ^ 64 := lt_of_le_of_lt (hle.1 hn) h
    have hword : n < 2 ^ 64 := by exact_mod_cast hword
    have hlast : maxWord = 2 ^ 64 - 1 := rfl
    omega

section Instant

variable (hb : b.Sane) (hs : s.entries = .empty) (hfull : b.capacity ≤ b.inflow s.threshold)
include hb hs hfull

/-- **Requests at one instant** get the whole tokens of the level, and leave the rest. -/
theorem level_append (hword : b.capacity < 2 ^ 64) (ho : Ordered past) (hpast : ∀ p ∈ past, p.time ≤ now)
    (more : List Query) (hmore : ∀ q ∈ more, q.time = now) :
    (admittedBy (b.rule.decision s) key (more ++ past)).length =
        (admittedBy (b.rule.decision s) key past).length +
          min (more.countP (·.key = key)) (Quantity.whole (b.level s past key now)) ∧
      b.level s (more ++ past) key now = b.level s past key now -
        (min (more.countP (·.key = key)) (Quantity.whole (b.level s past key now)) : Nat) := by
  have hlevel := b.level_le s past key now
  have hnonneg : 0 ≤ b.level s past key now := level_nonneg hb hs hfull ho hpast
  have hwhole := fun n => le_whole_iff hnonneg (by linarith) n
  generalize Quantity.whole (b.level s past key now) = tokens at hwhole ⊢
  induction more with
  | nil => simp
  | cons q more ih =>
    obtain ⟨hlength, hleft⟩ := ih fun q hq => hmore q (List.mem_cons_of_mem _ hq)
    have htime := hmore q List.mem_cons_self
    have ho' : Ordered (q :: (more ++ past)) := ho.append hmore hpast
    have hq : q.time ≤ now := Int.le_of_eq (congrArg Instant.nanos htime)
    rw [List.cons_append, admittedBy]
    by_cases hkey : q.key = key
    · subst hkey
      have hiff := admits_iff_level hb hs hfull ho'
      have hle := b.level_le s (more ++ past) q.key now
      rw [htime, hleft] at hiff
      rw [List.countP_cons_of_pos (by simp)]
      -- either a whole token is left and goes, or there is none
      rcases Nat.lt_or_ge (more.countP (·.key = q.key)) tokens with hroom | hnone
      · have hone : (more.countP (·.key = q.key) : Rat) + 1 ≤ b.level s past q.key now := by
          exact_mod_cast (hwhole _).1 hroom
        rw [Nat.min_eq_left (Nat.le_of_lt hroom)] at hiff hlength hleft
        have hadmits := hiff.2 (by linarith)
        have htokens : b.level s (q :: (more ++ past)) q.key now = _ := level_admitted hb hs hfull hadmits ho'
        rw [htime, refilled_now (by linarith), hleft] at htokens
        rw [if_pos ⟨rfl, hadmits⟩, List.length_cons, hlength, htokens, Nat.min_eq_left hroom]
        push_cast
        exact ⟨by omega, by ring⟩
      · have hless : ¬((tokens + 1 : Nat) : Rat) ≤ b.level s past q.key now :=
          fun h => absurd ((hwhole _).2 h) (by omega)
        rw [Nat.min_eq_right hnone] at hiff hlength hleft
        have hdenied : ¬admits (b.rule.decision s (more ++ past) q) := by
          intro hadmits
          have hone := hiff.1 hadmits
          push_cast at hless
          exact hless (by linarith)
        have hno : ¬(q.key = q.key ∧ admits (b.rule.decision s (more ++ past) q)) := fun h => hdenied h.2
        rw [if_neg hno, level_same hb hs hfull hno ho' hq, hlength, hleft, Nat.min_eq_right (by omega)]
        exact ⟨rfl, rfl⟩
    · have hno : ¬(q.key = key ∧ admits (b.rule.decision s (more ++ past) q)) := fun h => hkey h.1
      rw [if_neg hno, List.countP_cons_of_neg (by simpa using hkey), level_same hb hs hfull hno ho' hq]
      exact ⟨hlength, hleft⟩

/-- **On admission `remaining` is what is left in whole tokens.** -/
theorem remaining_eq {m : Nat} (ho : Ordered (⟨key, now⟩ :: past))
    (h : b.rule.decision s past ⟨key, now⟩ = .ok (.allowed m)) :
    m = Quantity.whole (b.level s (⟨key, now⟩ :: past) key now) := by
  have hadmits : admits (b.rule.decision s past ⟨key, now⟩) := by
    rw [h]
    rfl
  have hone := (admits_iff_level hb hs hfull ho).1 hadmits
  have hworked := refilled_worked hb hs hfull ho
  have hlevel : b.level s (⟨key, now⟩ :: past) key now = _ := level_admitted hb hs hfull hadmits ho
  have hle := b.level_le s past key now
  dsimp only at hone hworked hlevel
  rw [refilled_now (by linarith)] at hlevel
  rw [Rule.decision_eq, judge_allowed (by rw [hworked]; exact hone), hworked] at h
  cases h
  rw [hlevel]

end Instant

/-! ## Limiters -/

/-- **A bucket is fair** to a key after a run, now. Every bucket holds from nothing to the capacity. In an interval
no more is admitted than a full bucket and what flows in during it. Of the key's requests at the same instant, just
as many more are admitted as remain. And it does not matter if denied requests and requests for other keys are left
out of the run, however the store is swept then. -/
structure Fair (b : ExactBucket) (s : Store Rat) (past : List Query) (key : String) (now : Instant) : Prop where
  holds : ∀ other e, (b.rule.after s past).get? other = some e → 0 ≤ e.value ∧ e.value ≤ b.capacity
  bounded : ∀ first last : Instant,
    ((admittedBy (b.rule.decision s) key past).countP fun t => first ≤ t ∧ t ≤ last : Rat) ≤
      b.capacity + b.inflow (last.since first)
  remaining : ∀ m, b.rule.decision s past ⟨key, now⟩ = .ok (.allowed m) →
    ∀ more : List Query, (∀ q ∈ more, q.time = now) →
      (admittedBy (b.rule.decision s) key (more ++ ⟨key, now⟩ :: past)).length =
        (admittedBy (b.rule.decision s) key (⟨key, now⟩ :: past)).length + min (more.countP (·.key = key)) m
  thinned : ∀ start interval threshold, b.capacity ≤ b.inflow threshold →
    ∀ fewer, Thins (b.rule.decision s) key past fewer →
      b.rule.decision (.new start interval threshold) fewer ⟨key, now⟩ = b.rule.decision s past ⟨key, now⟩

/-- **Exact buckets are fair**, if no bucket is forgotten before it would be full. -/
theorem fair (b : ExactBucket) (start : Instant) (interval threshold : Span) (past : List Query) (key : String)
    (now : Instant) (ho : Ordered (⟨key, now⟩ :: past)) (hrate : 0 < b.rate) (hone : 1 ≤ b.capacity)
    (hword : b.capacity < 2 ^ 64) (hfull : b.capacity ≤ b.inflow threshold) :
    b.Fair (.new start interval threshold) past key now := by
  have hb : b.Sane := ⟨hrate, hone⟩
  have hs : (Store.new start interval threshold : Store Rat).entries = .empty := rfl
  constructor
  · intro other e he
    have hsound := (views hb hfull).sound_after (s := .new start interval threshold) hs ho.tail
      (fun _ _ => trivial) ho.le he
    exact ⟨hsound.nonneg, hsound.le_capacity⟩
  · intro first last
    exact countP_admitted_le hb hs hfull key ho.tail first last
  · intro m hm more hmore
    rw [remaining_eq hb hs hfull ho hm]
    exact (level_append hb hs hfull hword ho ho.le_last more hmore).1
  · intro start' interval' threshold' hfull' fewer hthin
    have hs' : (Store.new start' interval' threshold' : Store Rat).entries = .empty := rfl
    exact Rule.Views.decision_thin (views hb hfull) hs (views hb hfull') hs' hthin ho fun _ _ => trivial

/-- Two tokens at once, another request, one for another key after the time in which a bucket fills, and one
that gets a token of the bucket that was forgotten then. -/
def spell : List Query :=
  [⟨"a", ⟨250000000, by decide⟩⟩, ⟨"b", ⟨250000000, by decide⟩⟩, ⟨"a", .origin⟩, ⟨"a", .origin⟩, ⟨"a", .origin⟩]

theorem fair_spell :
    Fair ⟨10, 2⟩ (.new .origin .zero (.ofMillis 200)) spell "a" ⟨250000000, by decide⟩ ∧
      admits ((⟨10, 2⟩ : ExactBucket).rule.decision (.new .origin .zero (.ofMillis 200)) spell
        ⟨"a", ⟨250000000, by decide⟩⟩) := by
  have hnanos : (Span.ofMillis 200).nanos = 200000000 := rfl
  have hfull : (⟨10, 2⟩ : ExactBucket).capacity ≤ inflow ⟨10, 2⟩ (.ofMillis 200) := by
    rw [inflow_eq, hnanos]
    norm_num
  exact ⟨fair ⟨10, 2⟩ .origin .zero (.ofMillis 200) spell "a" ⟨250000000, by decide⟩ (by decide) (by norm_num)
    (by norm_num) (by norm_num) hfull, by decide +kernel⟩

end ExactBucket

end CallGuard
