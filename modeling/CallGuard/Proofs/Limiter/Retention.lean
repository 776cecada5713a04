import CallGuard.Proofs.Limiter.Eviction

/-!
# How long a key is retained

An idle key stays until a sweep finds it, and a sweep comes with a request, so the threshold
alone does not bound how long a key is kept. But a sweep is never longer ago than an interval
when a request is over, and what it left was used within the threshold before it: a key that
was not used for longer than the two together is gone after another key's request.

* `Rule.time_le_lastSweep`: after a request the last sweep is not longer ago than the interval.
* `Rule.lastSweep_le_lastUse`: what is kept was used within the threshold before the last sweep.
* `Rule.isSome_of_recent`: what was used within the threshold is kept.
* `Limiter.retains`: **what is kept was used within the interval and the threshold.**
-/

namespace CallGuard

theorem mem_of_lastCounted {counts : Except TimeError Decision → Bool}
    {decision : List Query → Query → Except TimeError Decision} {key : String} {t : Instant}
    {run : List Query} (h : lastCounted counts decision key run = some t) :
    ∃ p ∈ run, p.key = key ∧ p.time = t := by
  induction run with
  | nil => cases h
  | cons q past ih =>
    unfold lastCounted at h
    split at h
    · rename_i hq
      exact ⟨q, List.mem_cons_self, hq.1, Option.some.inj h⟩
    · obtain ⟨p, hp, hkey, htime⟩ := ih h
      exact ⟨p, List.mem_cons_of_mem _ hp, hkey, htime⟩

theorem Store.live_of_sweep {α : Type} {s : Store α} {key : String} {now : Instant} {e : Stamped α}
    (he : (s.sweep now).2.get? key = some e) (hdue : s.isSweepDue now = true) :
    now.since e.lastUse ≤ s.threshold := by
  rw [get?_sweep, if_pos hdue, Option.filter_eq_some_iff] at he
  exact of_decide_eq_true he.2

namespace Rule

variable {α : Type} {r : Rule α} {s : Store α} {past : List Query} {key : String} {e : Stamped α}

theorem after_lastSweep (q : Query) (past : List Query) :
    (r.after s (q :: past)).lastSweep =
      if (r.after s past).isSweepDue q.time then q.time else (r.after s past).lastSweep :=
  Store.sweep_lastSweep _ _

/-- **After a request the last sweep is not longer ago than the interval**, or it was due just now. -/
theorem time_le_lastSweep (q : Query) (past : List Query) :
    q.time.nanos ≤ (r.after s (q :: past)).lastSweep.nanos + s.interval.nanos := by
  have hdue : (r.after s (q :: past)).isSweepDue q.time = false :=
    Store.isSweepDue_sweep (r.after s past) q.time
  rw [Store.isSweepDue, after_interval, decide_eq_false_iff_not, Span.lt_iff, Instant.since_nanos] at hdue
  omega

theorem lastSweep_le_time (ho : Ordered past) (hstart : ∀ q ∈ past, s.lastSweep ≤ q.time) :
    ∀ now, s.lastSweep ≤ now → (∀ q ∈ past, q.time ≤ now) → (r.after s past).lastSweep ≤ now := by
  induction past with
  | nil =>
    intro now hnow _
    exact hnow
  | cons q past ih =>
    intro now hnow hpast
    have hq := hpast q List.mem_cons_self
    rw [after_lastSweep]
    split
    · exact hq
    · exact ih ho.tail (fun p hp => hstart p (List.mem_cons_of_mem _ hp)) now hnow
        fun p hp => hpast p (List.mem_cons_of_mem _ hp)

/-- An entry that a request finds was kept by its sweep. -/
theorem lastSweep_le_seen {q : Query} (he : r.seen s past key q.time = some e)
    (hpast : (r.after s past).lastSweep.nanos ≤ e.lastUse.nanos + s.threshold.nanos) :
    (r.after s (q :: past)).lastSweep.nanos ≤ e.lastUse.nanos + s.threshold.nanos := by
  rw [after_lastSweep]
  split
  · rename_i hdue
    have hlive := Store.live_of_sweep he hdue
    rw [after_threshold, Span.le_iff, Instant.since_nanos] at hlive
    omega
  · exact hpast

/-- **What is kept was used within the threshold before the last sweep**, or after it. -/
theorem lastSweep_le_lastUse (hr : r.Stamps) (hs : s.entries = .empty) (run : List Query) (ho : Ordered run)
    (hstart : ∀ q ∈ run, s.lastSweep ≤ q.time) (he : (r.after s run).get? key = some e) :
    (r.after s run).lastSweep.nanos ≤ e.lastUse.nanos + s.threshold.nanos := by
  refine entry_after (r := r) (P := fun run _ e => Ordered run → (∀ q ∈ run, s.lastSweep ≤ q.time) →
    (r.after s run).lastSweep.nanos ≤ e.lastUse.nanos + s.threshold.nanos) hs ?_ ?_ run he ho hstart
  · intro q past hfound ho hstart
    have hstart' : ∀ p ∈ past, s.lastSweep ≤ p.time := fun p hp => hstart p (List.mem_cons_of_mem _ hp)
    -- an entry that was used just now is not older than the sweep before it
    have hnow : (r.after s (q :: past)).lastSweep.nanos ≤ q.time.nanos :=
      lastSweep_le_time ho hstart q.time (hstart q List.mem_cons_self) ho.le_last
    rcases hr q.time (r.worked s past q) with huse | hsame
    · rw [huse]
      omega
    · rw [hsame, worked]
      cases hseen : r.seen s past q.key q.time with
      | none =>
        show _ ≤ q.time.nanos + _
        omega
      | some e => exact lastSweep_le_seen hseen (hfound e hseen ho.tail hstart')
  · intro q past key e _ hseen hpast ho hstart
    exact lastSweep_le_seen hseen (hpast ho.tail fun p hp => hstart p (List.mem_cons_of_mem _ hp))

/-- **What was used within the threshold is kept.** -/
theorem isSome_of_recent {counts : Except TimeError Decision → Bool} (hr : r.Uses counts)
    (hs : s.entries = .empty) {t : Instant} (run : List Query) :
    ∀ now : Instant, (∀ q ∈ run, q.time ≤ now) → lastCounted counts (r.decision s) key run = some t →
      now.nanos ≤ t.nanos + s.threshold.nanos → ((r.after s run).get? key).isSome := by
  induction run with
  | nil =>
    intro now _ ht _
    cases ht
  | cons q past ih =>
    intro now hnow ht hrecent
    rw [get?_after_cons]
    by_cases hkey : key = q.key
    · rw [if_pos hkey]
      rfl
    · rw [lastCounted, if_neg fun hq => hkey hq.1.symm] at ht
      have hkept := ih now (fun p hp => hnow p (List.mem_cons_of_mem _ hp)) ht hrecent
      obtain ⟨e, he⟩ := Option.isSome_iff_exists.1 hkept
      have huse : t = e.lastUse := Option.some.inj (ht.symm.trans (hr.lastUse_after hs past he))
      have hq := hnow q List.mem_cons_self
      rw [if_neg hkey]
      rcases seen_cases (r := r) (s := s) past key q.time with hsame | ⟨-, -, dropped, hdropped, hidle⟩
      · rw [hsame]
        exact hkept
      · obtain rfl : e = dropped := Option.some.inj (he.symm.trans hdropped)
        rw [Span.lt_iff, Instant.since_nanos] at hidle
        rw [Instant.le_iff] at hq
        rw [huse] at hrecent
        omega

/-- **What is kept had a request within the interval and the threshold.** -/
theorem exists_recent {counts : Except TimeError Decision → Bool} (hr : r.Stamps) (hcounts : r.Uses counts)
    (hs : s.entries = .empty) {q : Query} (ho : Ordered (q :: past))
    (hstart : ∀ p ∈ q :: past, s.lastSweep ≤ p.time) (hkept : ((r.after s (q :: past)).get? key).isSome) :
    ∃ p ∈ q :: past, p.key = key ∧ q.time.nanos - (s.interval.nanos + s.threshold.nanos) ≤ p.time.nanos := by
  obtain ⟨e, he⟩ := Option.isSome_iff_exists.1 hkept
  obtain ⟨p, hp, hkey, htime⟩ := mem_of_lastCounted (hcounts.lastUse_after hs _ he)
  have hsweep := time_le_lastSweep (r := r) (s := s) q past
  have huse := lastSweep_le_lastUse hr hs _ ho hstart he
  refine ⟨p, hp, hkey, ?_⟩
  rw [htime]
  omega

end Rule

namespace Limiter

/-- The time between two sweeps. -/
def interval : Limiter → Span
  | tokenBucket _ s => s.interval
  | slidingWindow _ s => s.interval
  | cellRate _ s => s.interval

/-- When the last sweep was, or when the limiter was made. -/
def lastSweep : Limiter → Instant
  | tokenBucket _ s => s.lastSweep
  | slidingWindow _ s => s.lastSweep
  | cellRate _ s => s.lastSweep

/-- **How long a key is retained**, seen after a request. A key that is kept had a request within the interval and
the threshold. One that had none for longer does not survive another key's request. One that was used within the
threshold is kept. -/
structure Retains (l : Limiter) (q : Query) (past : List Query) (key : String) : Prop where
  recent : (l.after (q :: past)).Holds key →
    ∃ p ∈ q :: past, p.key = key ∧ q.time.nanos - (l.interval.nanos + l.threshold.nanos) ≤ p.time.nanos
  gone : key ≠ q.key →
    (∀ p ∈ past, p.key = key → p.time.nanos < q.time.nanos - (l.interval.nanos + l.threshold.nanos)) →
    ¬(l.after (q :: past)).Holds key
  kept : ∀ t, l.lastUsed key (q :: past) = some t → q.time.nanos - l.threshold.nanos ≤ t.nanos →
    (l.after (q :: past)).Holds key

variable {l : Limiter} {q : Query} {past : List Query} {key : String}

theorem exists_recent (hnew : l.size = 0) (ho : Ordered (q :: past))
    (hstart : ∀ p ∈ q :: past, l.lastSweep ≤ p.time) (hkept : (l.after (q :: past)).Holds key) :
    ∃ p ∈ q :: past, p.key = key ∧ q.time.nanos - (l.interval.nanos + l.threshold.nanos) ≤ p.time.nanos := by
  cases l with
  | tokenBucket b s =>
    rw [after_tokenBucket, Holds, lastUse?, Option.isSome_map] at hkept
    exact Rule.exists_recent b.stamps b.uses (Store.entries_eq_empty hnew) ho hstart hkept
  | slidingWindow w s =>
    rw [after_slidingWindow, Holds, lastUse?, Option.isSome_map] at hkept
    exact Rule.exists_recent w.stamps w.uses (Store.entries_eq_empty hnew) ho hstart hkept
  | cellRate c s =>
    rw [after_cellRate, Holds, lastUse?, Option.isSome_map] at hkept
    exact Rule.exists_recent c.stamps c.uses (Store.entries_eq_empty hnew) ho hstart hkept

theorem holds_of_recent (hnew : l.size = 0) (ho : Ordered (q :: past)) {t : Instant}
    (ht : l.lastUsed key (q :: past) = some t) (hrecent : q.time.nanos - l.threshold.nanos ≤ t.nanos) :
    (l.after (q :: past)).Holds key := by
  have hthreshold : q.time.nanos ≤ t.nanos + l.threshold.nanos := by omega
  cases l with
  | tokenBucket b s =>
    rw [lastUsed, ← lastCounted_all (b.rule.decision s)] at ht
    rw [after_tokenBucket, Holds, lastUse?, Option.isSome_map]
    exact Rule.isSome_of_recent b.uses (Store.entries_eq_empty hnew) _ q.time ho.le_last ht hthreshold
  | slidingWindow w s =>
    rw [lastUsed, ← lastCounted_all (w.rule.decision s)] at ht
    rw [after_slidingWindow, Holds, lastUse?, Option.isSome_map]
    exact Rule.isSome_of_recent w.uses (Store.entries_eq_empty hnew) _ q.time ho.le_last ht hthreshold
  | cellRate c s =>
    rw [lastUsed, admitted, decision_cellRate, ← lastCounted_admits] at ht
    rw [after_cellRate, Holds, lastUse?, Option.isSome_map]
    exact Rule.isSome_of_recent c.uses (Store.entries_eq_empty hnew) _ q.time ho.le_last ht hthreshold

/-- **Every limiter retains a key while it is used within the threshold, and no longer than for the
interval and the threshold.** -/
theorem retains (hnew : l.size = 0) (ho : Ordered (q :: past))
    (hstart : ∀ p ∈ q :: past, l.lastSweep ≤ p.time) (key : String) : l.Retains q past key := by
  refine ⟨exists_recent hnew ho hstart, fun hother hidle hholds => ?_, fun t => holds_of_recent hnew ho⟩
  obtain ⟨p, hp, hkey, hlate⟩ := exists_recent hnew ho hstart hholds
  rcases List.mem_cons.1 hp with rfl | hp
  · exact hother hkey.symm
  · have hearly := hidle p hp hkey
    omega

/-- One request for a key every ten seconds; keys may be idle for three, and sweeps are five apart. -/
def tardy : Limiter := .ofCellRate ⟨.ofSeconds 10, 0⟩ .origin (.ofSeconds 5) (.ofSeconds 3)

/-- Another key is asked for after four and a half seconds, when no sweep is due. -/
def lull : List Query := [⟨"j", ⟨4500000000, by decide⟩⟩, ⟨"k", .origin⟩]

/-- It is asked for again after nine seconds, when one is due. -/
def reminder : Query := ⟨"j", ⟨9000000000, by decide⟩⟩

theorem retains_tardy : tardy.Retains reminder lull "k" ∧ (tardy.after lull).Holds "k" ∧
    ¬(tardy.after (reminder :: lull)).Holds "k" :=
  have hretains : tardy.Retains reminder lull "k" := retains rfl (by decide) (by decide) "k"
  ⟨hretains, rfl, hretains.gone (by decide) (by decide)⟩

end Limiter

end CallGuard
