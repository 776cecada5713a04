import CallGuard.Error
import CallGuard.Time.Span

/-!
# The plan of a retry

A call is tried a number of times with waits in between. The first wait is the
base delay; with backoff every later one is half as long again, up to a cap.

* `Retry.Config.length_delays`: there is one wait less than tries.
-/

namespace CallGuard

/-- The settings of a retry: the tries including the first, the wait before the first retry, whether later waits
grow, and the cap on waits that have grown. -/
structure Retry.Config where
  attempts : UInt32
  baseDelay : Span
  backoff : Bool
  maxDelay : Span
deriving DecidableEq

namespace Retry.Config

/-- The default settings. -/
def standard : Retry.Config := ⟨3, .ofMillis 100, true, .ofSeconds 2⟩

instance : Inhabited Retry.Config := ⟨standard⟩

/-- A retry that never tries is refused. -/
def validate (c : Retry.Config) : Except CallError Unit :=
  if c.attempts = 0 then .error (.invalidConfig "retry.attempts" "must be at least 1") else .ok ()

/-- The number of tries: at least one, whatever the settings say. -/
def tries (c : Retry.Config) : Nat := max c.attempts.toNat 1

/-- A retry is accepted exactly when it tries at all. -/
theorem validate_ok_iff (c : Retry.Config) : c.validate = .ok () ↔ 0 < c.attempts.toNat := by
  rw [Nat.pos_iff_ne_zero, ne_eq, ← UInt32.toNat_zero, UInt32.toNat_inj]
  unfold validate
  split <;> simp_all

/-- An accepted retry has as many tries as its settings say. -/
theorem tries_eq {c : Retry.Config} (h : c.validate = .ok ()) : c.tries = c.attempts.toNat :=
  Nat.max_eq_left ((validate_ok_iff c).1 h)

/-- The wait before retry number `retry`, counted from zero, after a previous wait. -/
def nextDelay (c : Retry.Config) (previous : Span) (retry : Nat) : Span :=
  if c.backoff && retry != 0 then min (previous.scale 3).half c.maxDelay else previous

/-- The next `n` waits before retry number `retry` and later ones. -/
def delaysFrom (c : Retry.Config) (previous : Span) (retry : Nat) : Nat → List Span
  | 0 => []
  | n + 1 =>
    let delay := c.nextDelay previous retry
    delay :: delaysFrom c delay (retry + 1) n

/-- **The waits of a call that keeps failing**, in order. -/
def delays (c : Retry.Config) : List Span := c.delaysFrom c.baseDelay 0 (c.attempts.toNat - 1)

theorem length_delaysFrom (c : Retry.Config) (n : Nat) :
    ∀ previous retry, (c.delaysFrom previous retry n).length = n := by
  induction n with
  | zero => intros; rfl
  | succ n ih => intro previous retry; simp [delaysFrom, ih]

theorem length_delays (c : Retry.Config) : c.delays.length = c.attempts.toNat - 1 :=
  length_delaysFrom ..

end Retry.Config

end CallGuard
