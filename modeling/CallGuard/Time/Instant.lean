import CallGuard.Time.Span

/-!
# Instants

An instant is a point of a monotonic clock, in nanoseconds from the clock's
origin. Its whole seconds fit a signed 64-bit number, so moving an instant can
fail; the distance of two instants never does.

* `Instant.add?_eq_some_iff`: a sum is an instant exactly when it is in range.
* `Instant.exists_add`: in particular a sum that is not too late.
* `Instant.since_nanos`: the distance is exact, or zero against the clock's direction.
-/

namespace CallGuard

/-- The earliest instant in nanoseconds: `-2^63` seconds. -/
def Instant.minNanos : Int := -9223372036854775808000000000

/-- The latest instant in nanoseconds: one short of `2^63` seconds. -/
def Instant.maxNanos : Int := 9223372036854775807999999999

/-- A point of a monotonic clock, in nanoseconds from the origin, negative before it. Its whole seconds fit 64 bits.
-/
structure Instant where
  nanos : Int
  inRange : Instant.minNanos ≤ nanos ∧ nanos ≤ Instant.maxNanos
deriving DecidableEq

/-- A time computation failed: the sum of an instant and a span is no instant. -/
inductive TimeError where
  | overflow
deriving DecidableEq, Repr

/-- What is reported for a failed time computation. -/
def TimeError.message : TimeError → String
  | .overflow => "overflow when adding duration to instant"

namespace Instant

/-- Where every clock starts. -/
def origin : Instant := ⟨0, by decide⟩

instance : Inhabited Instant := ⟨origin⟩

/-- The instant `n` nanoseconds from the origin, if there is one. -/
def ofNanos? (n : Int) : Option Instant :=
  if h : minNanos ≤ n ∧ n ≤ maxNanos then some ⟨n, h⟩ else none

/-- The instant a span later, if there is one. -/
def add? (t : Instant) (s : Span) : Option Instant := ofNanos? (t.nanos + s.nanos)

/-- The instant a span earlier, if there is one. -/
def sub? (t : Instant) (s : Span) : Option Instant := ofNanos? (t.nanos - s.nanos)

/-- The instant a span later, or an overflow. -/
def add (t : Instant) (s : Span) : Except TimeError Instant :=
  match t.add? s with
  | some u => .ok u
  | none => .error .overflow

/-- The time from `earlier` to `t`, and zero if `t` comes first. -/
def since (t earlier : Instant) : Span := Span.ofNanos (t.nanos - earlier.nanos).toNat

instance : LE Instant := ⟨fun a b => a.nanos ≤ b.nanos⟩

instance : LT Instant := ⟨fun a b => a.nanos < b.nanos⟩

theorem le_iff {a b : Instant} : a ≤ b ↔ a.nanos ≤ b.nanos := Iff.rfl

theorem lt_iff {a b : Instant} : a < b ↔ a.nanos < b.nanos := Iff.rfl

instance (a b : Instant) : Decidable (a ≤ b) := inferInstanceAs (Decidable (a.nanos ≤ b.nanos))

instance (a b : Instant) : Decidable (a < b) := inferInstanceAs (Decidable (a.nanos < b.nanos))

/-- The later of two instants. -/
instance : Max Instant := ⟨fun a b => if a ≤ b then b else a⟩

@[ext] theorem ext {a b : Instant} (h : a.nanos = b.nanos) : a = b := by
  cases a; cases b; simp_all

theorem ofNanos?_eq_some_iff {n : Int} {t : Instant} : ofNanos? n = some t ↔ t.nanos = n := by
  unfold ofNanos?
  constructor
  · intro h
    split at h
    · cases h; rfl
    · simp at h
  · intro h
    subst h
    simp [t.inRange]

theorem add?_eq_some_iff {t u : Instant} {s : Span} :
    t.add? s = some u ↔ u.nanos = t.nanos + s.nanos := ofNanos?_eq_some_iff

theorem sub?_eq_some_iff {t u : Instant} {s : Span} :
    t.sub? s = some u ↔ u.nanos = t.nanos - s.nanos := ofNanos?_eq_some_iff

/-- **A sum within the range is an instant.** -/
theorem exists_add {t : Instant} {s : Span} (h : t.nanos + s.nanos ≤ maxNanos) :
    ∃ u, t.add s = .ok u ∧ u.nanos = t.nanos + s.nanos := by
  have hmin := t.inRange.1
  have hsum : t.add? s = some ⟨t.nanos + s.nanos, by omega, h⟩ := add?_eq_some_iff.2 rfl
  exact ⟨_, by rw [add, hsum], rfl⟩

/-- **Distances are exact.** No two instants are further apart than the longest span. -/
theorem since_nanos (t u : Instant) : (t.since u).nanos = (t.nanos - u.nanos).toNat := by
  refine Span.nanos_ofNanos ?_
  have h1 := t.inRange
  have h2 := u.inRange
  simp only [minNanos, maxNanos, Span.maxNanos] at h1 h2 ⊢
  omega

end Instant

end CallGuard
