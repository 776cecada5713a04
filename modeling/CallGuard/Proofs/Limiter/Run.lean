import CallGuard.Limiter.Config

/-!
# Runs of a limiter

A run is the list of its requests, latest first, so that a tail of it is what came
before. Everything a limiter decides in a run comes from the entry that a request
sees: the one that was kept for its key, or none after a sweep dropped it.

* `Limiter.after`, `Limiter.decision`, `Limiter.admitted`: a run and what it admits of a key.
* `Rule.seen_cases`: a request sees what was kept, or nothing where that was idle too long.
* `Rule.get?_after_cons`: a request changes the entry of its own key only, apart from its sweep.
* `Rule.entry_after`, `Rule.value_worked`: what holds of every entry after a run.
* `Rule.Tracks`: what an entry has to do with the admissions of its key; a run keeps it.
* `Limiter.decision_slidingWindow` and its like: a run of a limiter is a run of its rule.
-/

namespace CallGuard

/-- A request for a key at a time. -/
structure Query where
  key : String
  time : Instant
deriving DecidableEq

/-- **Time never decreases** along a run, which is latest first. -/
def Ordered (run : List Query) : Prop := run.Pairwise fun later earlier => earlier.time ≤ later.time

instance (run : List Query) : Decidable (Ordered run) :=
  inferInstanceAs (Decidable (run.Pairwise fun later earlier => earlier.time ≤ later.time))

theorem Ordered.tail {q : Query} {past : List Query} (h : Ordered (q :: past)) : Ordered past :=
  (List.pairwise_cons.1 h).2

theorem Ordered.le {q : Query} {past : List Query} (h : Ordered (q :: past)) :
    ∀ p ∈ past, p.time ≤ q.time :=
  (List.pairwise_cons.1 h).1

/-- No request of a run is later than its last one. -/
theorem Ordered.le_last {q : Query} {past : List Query} (h : Ordered (q :: past)) :
    ∀ p ∈ q :: past, p.time ≤ q.time := by
  intro p hp
  rcases List.mem_cons.1 hp with rfl | hp
  · exact Int.le_refl _
  · exact h.le p hp

/-- Requests of one time may follow what is not later. -/
theorem Ordered.append {now : Instant} {more past : List Query} (h : Ordered past)
    (hmore : ∀ q ∈ more, q.time = now) (hpast : ∀ q ∈ past, q.time ≤ now) : Ordered (more ++ past) := by
  refine List.pairwise_append.2 ⟨?_, h, fun q hq p hp => ?_⟩
  · refine List.pairwise_of_forall_mem_list fun q hq p hp => ?_
    rw [hmore q hq, hmore p hp]
    exact Int.le_refl _
  · rw [hmore q hq]
    exact hpast p hp

/-- True if a decision was made and lets the request proceed. -/
def admits : Except TimeError Decision → Bool
  | .ok d => d.isAllowed
  | .error _ => false

/-- **The times at which a run admits a key**, latest first, by what is decided after each past. -/
def admittedBy (decision : List Query → Query → Except TimeError Decision) (key : String) :
    List Query → List Instant
  | [] => []
  | q :: past =>
    if q.key = key ∧ admits (decision past q) then q.time :: admittedBy decision key past
    else admittedBy decision key past

theorem mem_admittedBy {decision : List Query → Query → Except TimeError Decision} {key : String}
    {past : List Query} {t : Instant} (h : t ∈ admittedBy decision key past) :
    ∃ q ∈ past, q.time = t := by
  induction past with
  | nil => cases h
  | cons q past ih =>
    rw [admittedBy] at h
    split at h
    · rcases List.mem_cons.1 h with rfl | h
      · exact ⟨q, List.mem_cons_self, rfl⟩
      · obtain ⟨p, hp, ht⟩ := ih h
        exact ⟨p, List.mem_cons_of_mem _ hp, ht⟩
    · obtain ⟨p, hp, ht⟩ := ih h
      exact ⟨p, List.mem_cons_of_mem _ hp, ht⟩

/-- Admissions are in order, latest first, as the run is. -/
theorem pairwise_admittedBy {decision : List Query → Query → Except TimeError Decision} {key : String}
    {past : List Query} (ho : Ordered past) :
    (admittedBy decision key past).Pairwise fun later earlier => earlier ≤ later := by
  induction past with
  | nil => exact .nil
  | cons q past ih =>
    rw [admittedBy]
    split
    · refine List.pairwise_cons.2 ⟨fun t ht => ?_, ih ho.tail⟩
      obtain ⟨p, hp, rfl⟩ := mem_admittedBy ht
      exact ho.le p hp
    · exact ih ho.tail

/-- **The run of a key's admitted requests alone** is in order too. -/
theorem Ordered.alone {decision : List Query → Query → Except TimeError Decision} {q : Query}
    {past : List Query} (ho : Ordered (q :: past)) :
    Ordered (q :: (admittedBy decision q.key past).map fun t => ⟨q.key, t⟩) := by
  refine List.pairwise_cons.2 ⟨fun p hp => ?_, List.pairwise_map.2 (pairwise_admittedBy ho.tail)⟩
  obtain ⟨t, ht, rfl⟩ := List.mem_map.1 hp
  obtain ⟨earlier, he, rfl⟩ := mem_admittedBy ht
  exact ho.le earlier he

/-! ## Runs of a rule -/

namespace Rule

variable {α : Type} (r : Rule α) (s : Store α)

/-- The store after a run. -/
def after : List Query → Store α
  | [] => s
  | q :: past => (r.request (after past) q.key q.time).store

/-- The decision about a request after a run. -/
def decision (past : List Query) (q : Query) : Except TimeError Decision :=
  (r.request (r.after s past) q.key q.time).result

/-- The entry that a request for a key finds at a time: a due sweep comes first. -/
def seen (past : List Query) (key : String) (now : Instant) : Option (Stamped α) :=
  ((r.after s past).sweep now).2.get? key

/-- The entry that a request works on: a missing one is made. -/
def worked (past : List Query) (q : Query) : Stamped α :=
  (r.seen s past q.key q.time).getD ⟨r.fresh q.time, q.time⟩

variable {r s} {past : List Query}

theorem decision_eq (q : Query) : r.decision s past q = (r.judge q.time (r.worked s past q)).1 := rfl

theorem after_interval (past : List Query) : (r.after s past).interval = s.interval := by
  induction past with
  | nil => rfl
  | cons q past ih => exact (Store.sweep_interval _ _).trans ih

theorem after_threshold (past : List Query) : (r.after s past).threshold = s.threshold := by
  induction past with
  | nil => rfl
  | cons q past ih => exact (Store.sweep_threshold _ _).trans ih

/-- **A request changes the entry of its own key only**; others are as it saw them. -/
theorem get?_after_cons (q : Query) (key : String) :
    (r.after s (q :: past)).get? key =
      if key = q.key then some (r.judge q.time (r.worked s past q)).2 else r.seen s past key q.time :=
  Store.get?_access _ _ _ _ _ _

/-- **A sweep drops idle entries only**, and comes only when it is due. -/
theorem seen_cases (past : List Query) (key : String) (now : Instant) :
    r.seen s past key now = (r.after s past).get? key ∨
      r.seen s past key now = none ∧ s.interval < now.since (r.after s past).lastSweep ∧
        ∃ e, (r.after s past).get? key = some e ∧ s.threshold < now.since e.lastUse := by
  rw [seen, Store.get?_sweep]
  split
  · rename_i hdue
    cases he : (r.after s past).get? key with
    | none => exact .inl rfl
    | some e =>
      by_cases hlive : now.since e.lastUse ≤ s.threshold
      · exact .inl (by simp [Option.filter, Store.isLive, after_threshold, hlive])
      · have hidle : s.threshold < now.since e.lastUse := by
          rw [Span.le_iff] at hlive
          rw [Span.lt_iff]
          omega
        rw [Store.isSweepDue, after_interval] at hdue
        exact .inr ⟨by simp [Option.filter, Store.isLive, after_threshold, hlive],
          of_decide_eq_true hdue, e, rfl, hidle⟩
  · exact .inl rfl

/-- No sweep is ever due in a store with the longest interval. -/
theorem seen_longest (h : s.interval = .longest) (past : List Query) (key : String) (now : Instant) :
    r.seen s past key now = (r.after s past).get? key := by
  have hdue : (r.after s past).isSweepDue now = false := by
    have := (now.since (r.after s past).lastSweep).nanos_le
    simp only [Store.isSweepDue, after_interval, h, decide_eq_false_iff_not, Span.lt_iff, Span.longest]
    omega
  rw [seen, Store.get?_sweep, hdue]
  rfl

/-! ## What a run keeps -/

/-- **What holds of every entry after a run**: a request leaves it so, and so are the entries of other keys
that it finds. -/
theorem entry_after {P : List Query → String → Stamped α → Prop} (hs : s.entries = .empty)
    (hjudge : ∀ q past, (∀ e, r.seen s past q.key q.time = some e → P past q.key e) →
      P (q :: past) q.key (r.judge q.time (r.worked s past q)).2)
    (hother : ∀ q past key e, key ≠ q.key → r.seen s past key q.time = some e → P past key e →
      P (q :: past) key e)
    (run : List Query) {key : String} {e : Stamped α} (he : (r.after s run).get? key = some e) :
    P run key e := by
  induction run generalizing key e with
  | nil =>
    rw [after, Store.get?, hs] at he
    cases he
  | cons q past ih =>
    -- what a request finds was there before
    have hfound : ∀ key e, r.seen s past key q.time = some e → P past key e := by
      intro key e he
      rcases seen_cases (r := r) (s := s) past key q.time with hsame | ⟨hnone, -⟩
      · exact ih (hsame ▸ he)
      · rw [hnone] at he
        cases he
    rw [get?_after_cons] at he
    by_cases hkey : key = q.key
    · subst hkey
      rw [if_pos rfl] at he
      obtain rfl := Option.some.inj he
      exact hjudge q past (hfound q.key)
    · rw [if_neg hkey] at he
      exact hother q past key e hkey he (hfound key e he)

/-- **What holds of every value that a request works on**: of new ones, and of those that requests leave. -/
theorem value_worked {P : List Query → String → α → Prop} (hs : s.entries = .empty)
    (hfresh : ∀ past key now, P past key (r.fresh now))
    (hjudge : ∀ q past, P past q.key (r.worked s past q).value →
      P (q :: past) q.key (r.judge q.time (r.worked s past q)).2.value)
    (hother : ∀ q past key v, key ≠ q.key → P past key v → P (q :: past) key v)
    (past : List Query) (q : Query) : P past q.key (r.worked s past q).value := by
  have hworked : ∀ past q, (∀ e, r.seen s past q.key q.time = some e → P past q.key e.value) →
      P past q.key (r.worked s past q).value := by
    intro past q hseen
    unfold worked
    cases h : r.seen s past q.key q.time with
    | none => exact hfresh past q.key q.time
    | some e => exact hseen e h
  refine hworked past q fun e he => ?_
  have hkept : (r.after s past).get? q.key = some e := by
    rcases seen_cases (r := r) (s := s) past q.key q.time with hsame | ⟨hnone, -⟩
    · exact hsame ▸ he
    · rw [hnone] at he
      cases he
  refine entry_after (P := fun past key e => P past key e.value) hs ?_ ?_ past hkept
  · intro q past hseen
    exact hjudge q past (hworked past q hseen)
  · intro q past key e hkey _ hpast
    exact hother q past key e.value hkey hpast

/-- **A condition on the entries that the requests of a run work on.** -/
def Along (r : Rule α) (s : Store α) (good : Instant → Stamped α → Prop) : List Query → Prop
  | [] => True
  | q :: past => Along r s good past ∧ good q.time (r.worked s past q)

theorem along_of {good : Instant → Stamped α → Prop} (h : ∀ q ∈ past, ∀ e, good q.time e) :
    r.Along s good past := by
  induction past with
  | nil => trivial
  | cons q past ih => exact ⟨ih fun p hp => h p (List.mem_cons_of_mem _ hp), h q List.mem_cons_self _⟩

/-- **What the entry of a key has to do with its admissions** (latest first), and with the time. It holds of a new
key, and goes on to hold when time passes, when a sweep drops the entry, and when a request is decided. -/
structure Tracks (r : Rule α) (threshold : Span) (good : Instant → Stamped α → Prop)
    (keeps : Option (Stamped α) → List Instant → Instant → Prop) : Prop where
  fresh : ∀ now, keeps none [] now
  later : ∀ {now later entry admitted}, now ≤ later → keeps entry admitted now → keeps entry admitted later
  drop : ∀ {now e admitted}, threshold < now.since e.lastUse → keeps (some e) admitted now →
    keeps none admitted now
  judge : ∀ {now entry admitted e}, e = entry.getD ⟨r.fresh now, now⟩ → good now e →
    (∀ t ∈ admitted, t ≤ now) → keeps entry admitted now →
    keeps (some (r.judge now e).2) (if admits (r.judge now e).1 then now :: admitted else admitted) now

section Tracks

variable {good : Instant → Stamped α → Prop} {keeps : Option (Stamped α) → List Instant → Instant → Prop}
  {key : String} {now : Instant} (h : r.Tracks s.threshold good keeps)
include h

/-- What a request finds is tracked, if what is in the store is. -/
theorem Tracks.found {admitted : List Instant} (hkept : keeps ((r.after s past).get? key) admitted now) :
    keeps (r.seen s past key now) admitted now := by
  rcases seen_cases (r := r) (s := s) past key now with hsame | ⟨hnone, -, e, he, hidle⟩
  · rw [hsame]
    exact hkept
  · rw [hnone]
    rw [he] at hkept
    exact h.drop hidle hkept

/-- **A run keeps track of a key**, through denials, other keys and sweeps. -/
theorem Tracks.after (hs : s.entries = .empty) (key : String) (ho : Ordered past)
    (hgood : r.Along s good past) :
    ∀ now, (∀ q ∈ past, q.time ≤ now) →
      keeps ((r.after s past).get? key) (admittedBy (r.decision s) key past) now := by
  induction past with
  | nil =>
    intro now _
    show keeps (s.entries.get? key) [] now
    rw [hs]
    exact h.fresh now
  | cons q past ih =>
    intro now hnow
    -- the request finds what was kept at its own time, and what it leaves is kept until now
    have hfound := h.found (ih ho.tail hgood.1 q.time ho.le)
    refine h.later (hnow q List.mem_cons_self) ?_
    rw [get?_after_cons, admittedBy]
    by_cases hkey : key = q.key
    · subst hkey
      have hpast : ∀ t ∈ admittedBy (r.decision s) q.key past, t ≤ q.time := by
        intro t ht
        obtain ⟨p, hp, rfl⟩ := mem_admittedBy ht
        exact ho.le p hp
      simp only [true_and, if_true]
      exact h.judge rfl hgood.2 hpast hfound
    · rw [if_neg hkey, if_neg fun h => hkey h.1.symm]
      exact hfound

theorem Tracks.seen (hs : s.entries = .empty) (key : String) (ho : Ordered past)
    (hgood : r.Along s good past) (hnow : ∀ q ∈ past, q.time ≤ now) :
    keeps (r.seen s past key now) (admittedBy (r.decision s) key past) now :=
  h.found (h.after hs key ho hgood now hnow)

end Tracks

end Rule

/-! ## Runs of a limiter -/

namespace Limiter

/-- **The limiter after a run.** -/
def after (l : Limiter) : List Query → Limiter
  | [] => l
  | q :: past => ((after l past).allow q.key q.time).limiter

/-- **The decision about a request** after a run. -/
def decision (l : Limiter) (past : List Query) (q : Query) : Except TimeError Decision :=
  ((l.after past).allow q.key q.time).decision

/-- **The times at which a run admits a key**, latest first. -/
def admitted (l : Limiter) (key : String) (run : List Query) : List Instant :=
  admittedBy l.decision key run

theorem after_slidingWindow (w : SlidingWindow) (s : Store (List Instant)) (past : List Query) :
    (slidingWindow w s).after past = slidingWindow w (w.rule.after s past) := by
  induction past with
  | nil => rfl
  | cons q past ih => rw [after, ih]; rfl

theorem after_cellRate (c : CellRate) (s : Store Instant) (past : List Query) :
    (cellRate c s).after past = cellRate c (c.rule.after s past) := by
  induction past with
  | nil => rfl
  | cons q past ih => rw [after, ih]; rfl

theorem after_tokenBucket (b : TokenBucket Float) (s : Store Float) (past : List Query) :
    (tokenBucket b s).after past = tokenBucket b (b.rule.after s past) := by
  induction past with
  | nil => rfl
  | cons q past ih => rw [after, ih]; rfl

theorem decision_slidingWindow (w : SlidingWindow) (s : Store (List Instant)) :
    (slidingWindow w s).decision = w.rule.decision s := by
  funext past q
  rw [decision, after_slidingWindow]
  rfl

theorem decision_cellRate (c : CellRate) (s : Store Instant) :
    (cellRate c s).decision = c.rule.decision s := by
  funext past q
  rw [decision, after_cellRate]
  rfl

theorem decision_tokenBucket (b : TokenBucket Float) (s : Store Float) :
    (tokenBucket b s).decision = b.rule.decision s := by
  funext past q
  rw [decision, after_tokenBucket]
  rfl

end Limiter

end CallGuard
