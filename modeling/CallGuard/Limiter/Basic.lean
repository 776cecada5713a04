import CallGuard.Limiter.CellRate
import CallGuard.Limiter.SlidingWindow
import CallGuard.Limiter.TokenBucket

/-!
# Limiters

A limiter is one of the three rules with a store of its entries. All three answer
the same request: may one call for a key proceed now?
-/

namespace CallGuard

/-- A rule with the entries of its keys. -/
inductive Limiter where
  | tokenBucket (b : TokenBucket Float) (store : Store Float)
  | slidingWindow (w : SlidingWindow) (store : Store (List Instant))
  | cellRate (c : CellRate) (store : Store Instant)

/-- The answer to a request, or the time computation that failed, the sweep performed first, if there was one, and
the limiter afterwards. -/
structure Verdict where
  decision : Except TimeError Decision
  sweep : Option Sweep
  limiter : Limiter

namespace Limiter

/-- A token bucket limiter without keys. -/
def ofTokenBucket (b : TokenBucket Float) (now : Instant) (interval threshold : Span) : Limiter :=
  tokenBucket b (.new now interval threshold)

/-- A sliding window limiter without keys. -/
def ofSlidingWindow (w : SlidingWindow) (now : Instant) (interval threshold : Span) : Limiter :=
  slidingWindow w (.new now interval threshold)

/-- A cell rate limiter without keys. -/
def ofCellRate (c : CellRate) (now : Instant) (interval threshold : Span) : Limiter :=
  cellRate c (.new now interval threshold)

/-- The number of keys that have an entry. -/
def size : Limiter → Nat
  | tokenBucket _ store => store.size
  | slidingWindow _ store => store.size
  | cellRate _ store => store.size

/-- **May one request for a key proceed now?** -/
def allow (l : Limiter) (key : String) (now : Instant) : Verdict :=
  match l with
  | tokenBucket b store =>
    let a := b.rule.request store key now
    ⟨a.result, a.sweep, tokenBucket b a.store⟩
  | slidingWindow w store =>
    let a := w.rule.request store key now
    ⟨a.result, a.sweep, slidingWindow w a.store⟩
  | cellRate c store =>
    let a := c.rule.request store key now
    ⟨a.result, a.sweep, cellRate c a.store⟩

end Limiter

end CallGuard
