import CallGuard.Decimal.Positional

/-!
# Spans of time

A span is a length of time in whole nanoseconds, shorter than `2^64` seconds.
Arithmetic saturates: a span that would be longer is cut to `Span.longest`.
A large constant is the left operand of a sum or product throughout the library, because
`Nat.mul` and `Nat.add` recurse on the right one, and proofs evaluate them.

* `Span.nanos_ofNanos`: cutting leaves a span in range as it is.
* `Span.scale_nanos`, `Span.half_nanos`: growth and halving in nanoseconds.
* `Span.le_iff`, `Span.lt_iff`: spans are ordered by their nanoseconds.
-/

namespace CallGuard

/-- One millisecond in nanoseconds. -/
def nanosPerMilli : Nat := 1000000

/-- One second in nanoseconds. -/
def nanosPerSecond : Nat := 1000000000

/-- The largest unsigned 64-bit number, which caps every count of milliseconds. -/
def maxWord : Nat := 18446744073709551615

/-- The longest span in nanoseconds: one short of `2^64` seconds. -/
def Span.maxNanos : Nat := 18446744073709551615999999999

/-- A length of time in nanoseconds. No span reaches `2^64` seconds. -/
structure Span where
  nanos : Nat
  nanos_le : nanos ≤ Span.maxNanos
deriving DecidableEq

namespace Span

/-- The span of `n` nanoseconds, cut to the longest one. -/
def ofNanos (n : Nat) : Span := ⟨min n maxNanos, Nat.min_le_right _ _⟩

/-- The empty span. -/
def zero : Span := ⟨0, Nat.zero_le _⟩

/-- The longest span. -/
def longest : Span := ⟨maxNanos, Nat.le_refl _⟩

instance : Inhabited Span := ⟨zero⟩

/-- The span of `n` milliseconds. -/
def ofMillis (n : Nat) : Span := ofNanos (nanosPerMilli * n)

/-- The span of `n` seconds. -/
def ofSeconds (n : Nat) : Span := ofNanos (nanosPerSecond * n)

@[ext] theorem ext {a b : Span} (h : a.nanos = b.nanos) : a = b := by
  cases a; cases b; simp_all

theorem nanos_ofNanos {n : Nat} (h : n ≤ maxNanos) : (ofNanos n).nanos = n := Nat.min_eq_left h

instance : LE Span := ⟨fun a b => a.nanos ≤ b.nanos⟩

instance : LT Span := ⟨fun a b => a.nanos < b.nanos⟩

theorem le_iff {a b : Span} : a ≤ b ↔ a.nanos ≤ b.nanos := Iff.rfl

theorem lt_iff {a b : Span} : a < b ↔ a.nanos < b.nanos := Iff.rfl

instance (a b : Span) : Decidable (a ≤ b) := inferInstanceAs (Decidable (a.nanos ≤ b.nanos))

instance (a b : Span) : Decidable (a < b) := inferInstanceAs (Decidable (a.nanos < b.nanos))

/-- The shorter of two spans. -/
instance : Min Span := ⟨fun a b => if a ≤ b then a else b⟩

/-- The span `k` times as long, cut to the longest one. -/
def scale (s : Span) (k : Nat) : Span := ofNanos (s.nanos * k)

theorem scale_nanos (s : Span) (k : Nat) : (s.scale k).nanos = min (s.nanos * k) maxNanos := rfl

/-- Half the span, rounded down to a nanosecond. -/
def half (s : Span) : Span := ⟨s.nanos / 2, Nat.le_trans (Nat.div_le_self _ _) s.nanos_le⟩

@[simp] theorem half_nanos (s : Span) : s.half.nanos = s.nanos / 2 := rfl

/-- Whole seconds in the span. -/
def seconds (s : Span) : Nat := s.nanos / nanosPerSecond

/-- Nanoseconds beyond the whole seconds. -/
def subsecond (s : Span) : Nat := s.nanos % nanosPerSecond

/-- Whole milliseconds in the span, at most `maxWord`. -/
def millis (s : Span) : Nat := min (s.nanos / nanosPerMilli) maxWord

/-- **Milliseconds to wait**: rounded up, so that the span is over, never zero, at most `maxWord`. -/
def waitMillis (s : Span) : Nat :=
  max 1 (min (((nanosPerMilli - 1) + s.nanos) / nanosPerMilli) maxWord)

theorem waitMillis_pos (s : Span) : 0 < s.waitMillis := Nat.le_max_left _ _

/-- **The wait is not shorter than the span**, unless it is cut. -/
theorem le_waitMillis {s : Span} (h : s.waitMillis < maxWord) : s.nanos ≤ nanosPerMilli * s.waitMillis := by
  rw [waitMillis, nanosPerMilli] at h ⊢
  omega

/-- **Text of a span**: in the largest of seconds, milliseconds, microseconds and nanoseconds that it
fills once, with the exact fraction. -/
def text (s : Span) : String :=
  if nanosPerSecond ≤ s.nanos then Decimal.positional s.nanos 9 ++ "s"
  else if nanosPerMilli ≤ s.nanos then Decimal.positional s.nanos 6 ++ "ms"
  else if 1000 ≤ s.nanos then Decimal.positional s.nanos 3 ++ "µs"
  else Decimal.positional s.nanos 0 ++ "ns"

end Span

end CallGuard
