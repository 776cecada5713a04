import CallGuard.Limiter.Quantity
import CallGuard.Limiter.Rule

/-!
# The token bucket

Every key owns a bucket of tokens, full at first. Tokens flow in at a steady rate
up to the capacity; a request takes one. What has flowed in is computed on access,
from the time since the last one.
-/

namespace CallGuard

/-- The tokens that flow in per second, and those that a bucket holds. -/
structure TokenBucket (α : Type) where
  rate : α
  capacity : α
deriving DecidableEq

namespace TokenBucket

variable {α : Type} [Quantity α]

/-- The tokens of a bucket at a time. -/
def refilled (b : TokenBucket α) (now : Instant) (e : Stamped α) : α :=
  Quantity.least b.capacity (e.value + Quantity.seconds (now.since e.lastUse) * b.rate)

/-- **One request**: a bucket with a whole token gives it away, another one tells when it will have one. -/
def judge (b : TokenBucket α) (now : Instant) (e : Stamped α) : Decision × Stamped α :=
  let tokens := b.refilled now e
  -- what has flowed in is kept in either case
  if Quantity.reaches tokens Quantity.one then
    let left := tokens - Quantity.one
    (.allowed (Quantity.whole left), ⟨left, now⟩)
  else
    let wait : Span := Quantity.wait ((Quantity.one - tokens) / b.rate)
    (.limited wait.waitMillis, ⟨tokens, now⟩)

/-- The bucket as a rule: it starts full. -/
def rule (b : TokenBucket α) : Rule α where
  fresh _ := b.capacity
  judge now e :=
    let (d, e) := b.judge now e
    (.ok d, e)

end TokenBucket

end CallGuard
