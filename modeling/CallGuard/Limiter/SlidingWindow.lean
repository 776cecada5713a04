import CallGuard.Limiter.Rule

/-!
# The sliding window

Every key keeps the times of its admissions in the last window, oldest first. A
request is admitted while fewer than the allowed number remain.

* `SlidingWindow.mem_current`: what remains was there before.
-/

namespace CallGuard

/-- The number of requests allowed in any window, and the length of a window. -/
structure SlidingWindow where
  rate : UInt32
  window : Span
deriving DecidableEq

namespace SlidingWindow

/-- The admissions that are still in the window at a time. They are oldest first, so that the others are
at the front. -/
def current (w : SlidingWindow) (now : Instant) (times : List Instant) : List Instant :=
  times.dropWhile fun t => w.window < now.since t

/-- How long to wait until the oldest admission leaves the window. -/
def wait (w : SlidingWindow) (now : Instant) : List Instant → Except TimeError Span
  | [] => .ok w.window
  | oldest :: _ => do
    let leaves ← oldest.add w.window
    return leaves.since now

/-- **One request**: admitted while there is room in the window. -/
def judge (w : SlidingWindow) (now : Instant) (e : Stamped (List Instant)) :
    Except TimeError Decision × Stamped (List Instant) :=
  let times := w.current now e.value
  let rate := w.rate.toNat
  if times.length < rate then
    let times := times ++ [now]
    -- this admission counts already
    (.ok (.allowed (rate - times.length)), ⟨times, now⟩)
  else
    (do return .limited (← w.wait now times).waitMillis, ⟨times, now⟩)

/-- The window as a rule: it starts empty. -/
def rule (w : SlidingWindow) : Rule (List Instant) where
  fresh _ := []
  judge := w.judge

theorem mem_current {w : SlidingWindow} {now t : Instant} {times : List Instant}
    (h : t ∈ w.current now times) : t ∈ times := (List.dropWhile_sublist _).subset h

end SlidingWindow

end CallGuard
