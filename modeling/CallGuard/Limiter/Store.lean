import CallGuard.KeyMap
import CallGuard.Time.Instant

/-!
# State by key, with eviction

A limiter keeps an entry for every key. Entries of idle keys are dropped by a
**sweep**, which has no clock of its own: an access performs it first, if the last
one is long enough ago.

* `Store.get?_access`: an access changes the entry of its own key only, apart from a sweep.
* `Store.get?_sweep`: a sweep drops exactly the entries that are idle too long.
-/

namespace CallGuard

/-- A value and the time of its last use. -/
structure Stamped (α : Type) where
  value : α
  lastUse : Instant

/-- What a sweep did: how many entries it dropped and kept. -/
structure Sweep where
  evicted : Nat
  live : Nat
deriving DecidableEq, Repr

/-- Entries by key. Sweeps are further apart than the interval, and drop entries that were idle for longer than the
threshold. Before the first one, `lastSweep` is when the store was made. -/
structure Store (α : Type) where
  interval : Span
  threshold : Span
  lastSweep : Instant
  entries : KeyMap (Stamped α)

/-- The result of an access, the sweep it performed first, if it did, and the store afterwards. -/
structure Access (α β : Type) where
  result : β
  sweep : Option Sweep
  store : Store α

namespace Store

variable {α β : Type}

/-- How often a limiter sweeps if nothing else is said. -/
def defaultInterval : Span := .ofSeconds 600

/-- How long an entry may be idle if nothing else is said. -/
def defaultThreshold : Span := .ofSeconds 1800

/-- A store without entries. -/
def new (now : Instant) (interval threshold : Span) : Store α := ⟨interval, threshold, now, .empty⟩

/-- The number of keys that have an entry. -/
def size (s : Store α) : Nat := s.entries.size

/-- The entry of a key. -/
def get? (s : Store α) (key : String) : Option (Stamped α) := s.entries.get? key

/-- True if the last sweep is long enough ago. -/
def isSweepDue (s : Store α) (now : Instant) : Bool := s.interval < now.since s.lastSweep

/-- True if an entry stays in a sweep. -/
def isLive (s : Store α) (now : Instant) (e : Stamped α) : Bool := now.since e.lastUse ≤ s.threshold

/-- The store after a sweep. -/
def swept (s : Store α) (now : Instant) : Store α :=
  { s with lastSweep := now, entries := s.entries.filter fun e => s.isLive now e.2 }

/-- A sweep, if it is due. -/
def sweep (s : Store α) (now : Instant) : Option Sweep × Store α :=
  if s.isSweepDue now then
    let after := s.swept now
    (some ⟨s.size - after.size, after.size⟩, after)
  else (none, s)

/-- **An access**: a due sweep, then a computation on the key's entry, which is created if it is missing. -/
def access (s : Store α) (key : String) (now : Instant) (create : Stamped α)
    (f : Stamped α → β × Stamped α) : Access α β :=
  let (sweep, s) := s.sweep now
  let (result, entry) := f ((s.get? key).getD create)
  ⟨result, sweep, { s with entries := s.entries.set key entry }⟩

theorem get?_swept (s : Store α) (now : Instant) (key : String) :
    (s.swept now).get? key = (s.get? key).filter (s.isLive now) :=
  KeyMap.get?_filter _ _ _

theorem get?_sweep (s : Store α) (now : Instant) (key : String) :
    (s.sweep now).2.get? key =
      if s.isSweepDue now then (s.get? key).filter (s.isLive now) else s.get? key := by
  unfold sweep
  split
  · exact get?_swept s now key
  · rfl

theorem sweep_interval (s : Store α) (now : Instant) : (s.sweep now).2.interval = s.interval := by
  unfold sweep
  split <;> rfl

theorem sweep_threshold (s : Store α) (now : Instant) : (s.sweep now).2.threshold = s.threshold := by
  unfold sweep
  split <;> rfl

/-- The time of the last sweep is kept, or it is now. -/
theorem sweep_lastSweep (s : Store α) (now : Instant) :
    (s.sweep now).2.lastSweep = if s.isSweepDue now then now else s.lastSweep := by
  unfold sweep
  split <;> rfl

theorem isSome_sweep (s : Store α) (now : Instant) : (s.sweep now).1.isSome = s.isSweepDue now := by
  unfold sweep
  split
  · rename_i hdue
    exact hdue.symm
  · rename_i hdue
    exact (Bool.eq_false_iff.2 hdue).symm

/-- No sweep follows another one at once. -/
theorem isSweepDue_sweep (s : Store α) (now : Instant) : (s.sweep now).2.isSweepDue now = false := by
  rw [isSweepDue, sweep_interval, sweep_lastSweep]
  split
  · have hnone : (now.since now).nanos = 0 := by rw [Instant.since_nanos]; omega
    simp [Span.lt_iff, hnone]
  · rename_i hdue
    simpa [isSweepDue] using hdue

/-- **Keys do not share entries**: an access writes the entry of its key and no other. -/
theorem get?_access (s : Store α) (key : String) (now : Instant) (create : Stamped α)
    (f : Stamped α → β × Stamped α) (other : String) :
    (s.access key now create f).store.get? other =
      if other = key then some (f (((s.sweep now).2.get? key).getD create)).2
      else (s.sweep now).2.get? other :=
  KeyMap.get?_set _ _ _ _

end Store

end CallGuard
