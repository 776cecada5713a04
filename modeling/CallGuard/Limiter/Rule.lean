import CallGuard.Limiter.Decision
import CallGuard.Limiter.Store

/-!
# Admission rules

A rule says how the entry of one key admits requests. A limiter is a rule together
with a store of entries.

* `Rule.request_store`: a request changes the entry of its own key only.
-/

namespace CallGuard

/-- How the entry of a key admits requests: the state of a key that was not seen before, and the decision at a time
with the entry afterwards. A failed time computation decides nothing, but may leave a changed entry. -/
structure Rule (α : Type) where
  fresh : Instant → α
  judge : Instant → Stamped α → Except TimeError Decision × Stamped α

namespace Rule

variable {α : Type}

/-- **One request** for a key. -/
def request (r : Rule α) (s : Store α) (key : String) (now : Instant) :
    Access α (Except TimeError Decision) :=
  s.access key now ⟨r.fresh now, now⟩ (r.judge now)

theorem request_store (r : Rule α) (s : Store α) (key : String) (now : Instant) {other : String}
    (h : other ≠ key) : (r.request s key now).store.get? other = (s.sweep now).2.get? other := by
  rw [request, Store.get?_access, if_neg h]

end Rule

end CallGuard
