import CallGuard.Limiter.Store
import Mathlib.Data.Finset.Card
import Mathlib.Data.Finset.Dedup

/-!
# A store against a plain map

A store is what its accesses left, one entry for each key, less what a sweep has dropped
since. All of it is told from the accesses alone, whatever they compute and whatever times
they come at: also at times that go back, when no sweep is due.

* `Store.left`: what the latest access to a key left, with sweeps or without.
* `Store.held`, `Store.given`: what is left of it after the sweeps since.
* `Store.get?_afterTouches`: that is what the store holds.
* `Store.follows`: **a store does what a plain map does**, and when its sweeps are.
-/

namespace CallGuard

/-- A use of a store: for a key, at a time, by a computation on an entry that is made if it is missing. -/
structure Touch (α β : Type) where
  key : String
  time : Instant
  create : Stamped α
  work : Stamped α → β × Stamped α

namespace Store

variable {α β : Type}

/-- The access of a touch. -/
def touch (s : Store α) (v : Touch α β) : Access α β := s.access v.key v.time v.create v.work

/-- The store after touches, latest first. -/
def afterTouches (s : Store α) : List (Touch α β) → Store α
  | [] => s
  | v :: past => ((afterTouches s past).touch v).store

/-- True of a touch after others that comes with a sweep. -/
def sweepsAt (s : Store α) (past : List (Touch α β)) (v : Touch α β) : Bool :=
  ((s.afterTouches past).touch v).sweep.isSome

/-- **When there was a sweep**, latest first. -/
def sweepTimes (s : Store α) : List (Touch α β) → List Instant
  | [] => []
  | v :: past => if s.sweepsAt past v then v.time :: sweepTimes s past else sweepTimes s past

/-- The later of a start and the latest of some times. -/
def latest (start : Instant) : List Instant → Instant
  | [] => start
  | t :: _ => max start t

/-- **The sweeps since the latest touch of a key.** -/
def sweepsSince (s : Store α) (key : String) : List (Touch α β) → List Instant
  | [] => []
  | v :: past =>
    if v.key = key then []
    else if s.sweepsAt past v then v.time :: sweepsSince s key past
    else sweepsSince s key past

/-- The sweeps since the latest touch of a key, the one that comes with a new touch included. -/
def sweepsUntil (s : Store α) (key : String) (past : List (Touch α β)) (v : Touch α β) : List Instant :=
  if s.sweepsAt past v then v.time :: s.sweepsSince key past else s.sweepsSince key past

/-- True of an entry that was used no longer than the threshold before any of the sweeps. -/
def spares (threshold : Span) (sweeps : List Instant) (e : Stamped α) : Bool :=
  sweeps.all fun t => t.nanos ≤ e.lastUse.nanos + threshold.nanos

/-- **What the latest touch of a key left**: it worked on what the one before had left, unless a sweep
had dropped that. -/
def left (s : Store α) (key : String) : List (Touch α β) → Option (Stamped α)
  | [] => none
  | v :: past =>
    if v.key = key then
      some (v.work (((left s key past).filter (spares s.threshold (s.sweepsUntil key past v))).getD v.create)).2
    else left s key past

/-- What a key holds: what its latest touch left, unless a sweep since then has dropped it. -/
def held (s : Store α) (key : String) (touches : List (Touch α β)) : Option (Stamped α) :=
  (s.left key touches).filter (spares s.threshold (s.sweepsSince key touches))

/-- **What a touch works on**: what the latest touch of its key left, or a new entry if there was none or a
sweep since then has dropped it. -/
def given (s : Store α) (past : List (Touch α β)) (v : Touch α β) : Stamped α :=
  ((s.left v.key past).filter (spares s.threshold (s.sweepsUntil v.key past v))).getD v.create

/-- **A store that is made without entries does what a plain map does**, shown for a touch after others. There is a
sweep exactly if the time is more than the interval after the last one, or the start, so that sweeps are more than
the interval apart. A sweep drops exactly the entries that were used more than the threshold before it. The touch
works on what the latest one of its key left, or on a new entry, and changes no other key, but by the sweep. Every
key holds what its latest touch left, unless a sweep since has dropped it, and the size is the number of such keys.
-/
structure Follows (s : Store α) (past : List (Touch α β)) (v : Touch α β) : Prop where
  sweeps : ((s.afterTouches past).touch v).sweep.isSome ↔
    (latest s.lastSweep (s.sweepTimes past)).nanos + s.interval.nanos < v.time.nanos
  apart : (s.sweepTimes (v :: past)).Pairwise
    fun later earlier : Instant => earlier.nanos + s.interval.nanos < later.nanos
  drops : ∀ key, ((s.afterTouches past).sweep v.time).2.get? key =
    if s.sweepsAt past v then
      ((s.afterTouches past).get? key).filter fun e => v.time.nanos ≤ e.lastUse.nanos + s.threshold.nanos
    else (s.afterTouches past).get? key
  sees : ((s.afterTouches past).touch v).result = (v.work (s.given past v)).1
  others : ∀ key, key ≠ v.key →
    ((s.afterTouches past).touch v).store.get? key = ((s.afterTouches past).sweep v.time).2.get? key
  holds : ∀ key, ((s.afterTouches past).touch v).store.get? key = s.held key (v :: past)
  size : ((s.afterTouches past).touch v).store.size =
    (((v :: past).map Touch.key).toFinset.filter fun key => (s.held key (v :: past)).isSome).card

/-! ## When there is a sweep -/

variable {s : Store α} {past : List (Touch α β)} {v : Touch α β}

theorem isSweepDue_iff {now : Instant} :
    s.isSweepDue now = true ↔ s.lastSweep.nanos + s.interval.nanos < now.nanos := by
  rw [isSweepDue, decide_eq_true_iff, Span.lt_iff, Instant.since_nanos]
  omega

theorem isLive_iff {now : Instant} {e : Stamped α} :
    s.isLive now e = true ↔ now.nanos ≤ e.lastUse.nanos + s.threshold.nanos := by
  rw [isLive, decide_eq_true_iff, Span.le_iff, Instant.since_nanos]
  omega

theorem sweepsAt_eq (s : Store α) (past : List (Touch α β)) (v : Touch α β) :
    s.sweepsAt past v = (s.afterTouches past).isSweepDue v.time :=
  isSome_sweep _ _

theorem interval_afterTouches (s : Store α) (past : List (Touch α β)) :
    (s.afterTouches past).interval = s.interval := by
  induction past with
  | nil => rfl
  | cons v past ih => exact (sweep_interval _ _).trans ih

theorem threshold_afterTouches (s : Store α) (past : List (Touch α β)) :
    (s.afterTouches past).threshold = s.threshold := by
  induction past with
  | nil => rfl
  | cons v past ih => exact (sweep_threshold _ _).trans ih

theorem sweepsAt_iff : s.sweepsAt past v = true ↔
    (s.afterTouches past).lastSweep.nanos + s.interval.nanos < v.time.nanos := by
  rw [sweepsAt_eq, isSweepDue_iff, interval_afterTouches]

theorem lastSweep_afterTouches (s : Store α) (past : List (Touch α β)) (v : Touch α β) :
    (s.afterTouches (v :: past)).lastSweep =
      if s.sweepsAt past v then v.time else (s.afterTouches past).lastSweep := by
  rw [sweepsAt_eq]
  exact sweep_lastSweep _ _

/-- **Sweeps follow each other** at more than the interval, after the start, and the store knows the last. -/
theorem sweepTimes_apart (s : Store α) (touches : List (Touch α β)) :
    s.lastSweep ≤ (s.afterTouches touches).lastSweep ∧
      latest s.lastSweep (s.sweepTimes touches) = (s.afterTouches touches).lastSweep ∧
      (∀ t ∈ s.sweepTimes touches, t ≤ (s.afterTouches touches).lastSweep) ∧
      (s.sweepTimes touches).Pairwise
        fun later earlier : Instant => earlier.nanos + s.interval.nanos < later.nanos := by
  induction touches with
  | nil => exact ⟨Int.le_refl _, rfl, List.forall_mem_nil _, .nil⟩
  | cons v past ih =>
    obtain ⟨hstart, hlatest, hpast, hapart⟩ := ih
    rw [sweepTimes, lastSweep_afterTouches]
    by_cases hsweep : s.sweepsAt past v = true
    · rw [if_pos hsweep, if_pos hsweep]
      have hlate := sweepsAt_iff.1 hsweep
      rw [Instant.le_iff] at hstart
      have hnow : s.lastSweep ≤ v.time := by
        rw [Instant.le_iff]
        omega
      have hafter : ∀ t ∈ s.sweepTimes past, t.nanos + s.interval.nanos < v.time.nanos := by
        intro t ht
        have hle := hpast t ht
        rw [Instant.le_iff] at hle
        omega
      refine ⟨hnow, if_pos hnow, fun t ht => ?_, List.pairwise_cons.2 ⟨hafter, hapart⟩⟩
      rcases List.mem_cons.1 ht with rfl | ht
      · exact Int.le_refl _
      · have hless := hafter t ht
        rw [Instant.le_iff]
        omega
    · rw [if_neg hsweep, if_neg hsweep]
      exact ⟨hstart, hlatest, hpast, hapart⟩

/-! ## What is held -/

theorem get?_sweep_touch (s : Store α) (past : List (Touch α β)) (v : Touch α β) (key : String) :
    ((s.afterTouches past).sweep v.time).2.get? key =
      if s.sweepsAt past v then
        ((s.afterTouches past).get? key).filter fun e => v.time.nanos ≤ e.lastUse.nanos + s.threshold.nanos
      else (s.afterTouches past).get? key := by
  have hlive : (s.afterTouches past).isLive v.time =
      fun e => decide (v.time.nanos ≤ e.lastUse.nanos + s.threshold.nanos) := by
    funext e
    rw [Bool.eq_iff_iff, isLive_iff, threshold_afterTouches, decide_eq_true_iff]
  rw [get?_sweep, sweepsAt_eq, hlive]

/-- A sweep spares what all sweeps until then do. -/
theorem filter_spares (s : Store α) (key : String) (past : List (Touch α β)) (v : Touch α β)
    (o : Option (Stamped α)) :
    o.filter (spares s.threshold (s.sweepsUntil key past v)) =
      if s.sweepsAt past v then
        (o.filter (spares s.threshold (s.sweepsSince key past))).filter
          fun e => v.time.nanos ≤ e.lastUse.nanos + s.threshold.nanos
      else o.filter (spares s.threshold (s.sweepsSince key past)) := by
  unfold sweepsUntil
  split
  · rw [Option.filter_filter]
    refine congrArg (fun p => o.filter p) (funext fun e => ?_)
    unfold spares
    rw [List.all_cons, Bool.and_comm]
  · rfl

/-- What a touch finds is what was held before, less what its own sweep drops. -/
theorem get?_found {key : String} (hheld : (s.afterTouches past).get? key = s.held key past) :
    ((s.afterTouches past).sweep v.time).2.get? key =
      (s.left key past).filter (spares s.threshold (s.sweepsUntil key past v)) := by
  rw [get?_sweep_touch, filter_spares, hheld, held]

/-- **A store holds what the latest touch of a key left**, unless a sweep since has dropped it. -/
theorem get?_afterTouches (hs : s.entries = .empty) (touches : List (Touch α β)) (key : String) :
    (s.afterTouches touches).get? key = s.held key touches := by
  induction touches generalizing key with
  | nil =>
    show s.entries.get? key = none
    rw [hs]
    rfl
  | cons v past ih =>
    show ((s.afterTouches past).access v.key v.time v.create v.work).store.get? key = _
    rw [get?_access, get?_found (ih key), get?_found (ih v.key), held, left, sweepsSince]
    by_cases hkey : v.key = key
    · subst hkey
      rw [if_pos rfl, if_pos rfl, if_pos rfl]
      rfl
    · rw [if_neg fun h => hkey h.symm, if_neg hkey, if_neg hkey]
      rfl

theorem result_touch (hs : s.entries = .empty) (past : List (Touch α β)) (v : Touch α β) :
    ((s.afterTouches past).touch v).result = (v.work (s.given past v)).1 := by
  show (v.work ((((s.afterTouches past).sweep v.time).2.get? v.key).getD v.create)).1 = _
  rw [get?_found (get?_afterTouches hs past v.key), given]

theorem mem_of_left {key : String} {touches : List (Touch α β)} (h : (s.left key touches).isSome) :
    key ∈ touches.map Touch.key := by
  induction touches with
  | nil => cases h
  | cons v past ih =>
    rw [List.map_cons, List.mem_cons]
    by_cases hkey : v.key = key
    · exact .inl hkey.symm
    · rw [left, if_neg hkey] at h
      exact .inr (ih h)

/-- **The size counts the keys that hold something.** -/
theorem size_afterTouches (hs : s.entries = .empty) (touches : List (Touch α β)) :
    (s.afterTouches touches).size =
      ((touches.map Touch.key).toFinset.filter fun key => (s.held key touches).isSome).card := by
  have hkeys : (s.afterTouches touches).entries.keys.toFinset =
      (touches.map Touch.key).toFinset.filter fun key => (s.held key touches).isSome := by
    ext key
    rw [List.mem_toFinset, KeyMap.mem_keys_iff, Finset.mem_filter, List.mem_toFinset]
    rw [← get?_afterTouches hs touches key]
    refine ⟨fun hsome => ⟨?_, hsome⟩, fun h => h.2⟩
    have hheld : (s.held key touches).isSome := by
      rw [← get?_afterTouches hs touches key]
      exact hsome
    unfold held at hheld
    exact mem_of_left (Option.isSome_of_isSome_filter _ _ hheld)
  have hcard : (s.afterTouches touches).entries.keys.toFinset.card =
      (s.afterTouches touches).entries.keys.length :=
    List.toFinset_card_of_nodup (s.afterTouches touches).entries.nodup
  rw [← hkeys, hcard, KeyMap.keys, List.length_map]
  rfl

/-- **A store does what a plain map does**: after any touches, with any computations and at any times. -/
theorem follows (start : Instant) (interval threshold : Span) (past : List (Touch α β)) (v : Touch α β) :
    (new start interval threshold : Store α).Follows past v := by
  obtain ⟨-, hlatest, -, -⟩ := sweepTimes_apart (new start interval threshold : Store α) past
  refine ⟨?_, (sweepTimes_apart _ _).2.2.2, get?_sweep_touch _ _ _, result_touch rfl _ _, ?_, ?_, ?_⟩
  · rw [hlatest]
    exact sweepsAt_iff
  · intro key hkey
    show ((afterTouches _ past).access v.key v.time v.create v.work).store.get? key = _
    rw [get?_access, if_neg hkey]
  · exact get?_afterTouches rfl (v :: past)
  · exact size_afterTouches rfl (v :: past)

end Store

end CallGuard
