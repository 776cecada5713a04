/-!
# Why a call ends early
-/

namespace CallGuard

/-- The reason for which a call was given up. -/
inductive CancelReason where
  | clientDisconnected
  | deadlineExceeded
  | serverShutdown
  | userRequested
  | superseded
deriving DecidableEq, Repr

namespace CancelReason

/-- Without a better reason, somebody asked for it. -/
instance : Inhabited CancelReason := ⟨userRequested⟩

/-- All reasons. -/
def all : List CancelReason :=
  [clientDisconnected, deadlineExceeded, serverShutdown, userRequested, superseded]

/-- The name of a reason. -/
def name : CancelReason → String
  | clientDisconnected => "ClientDisconnected"
  | deadlineExceeded => "DeadlineExceeded"
  | serverShutdown => "ServerShutdown"
  | userRequested => "UserRequested"
  | superseded => "Superseded"

/-- The reason of a name. -/
def ofName? (name : String) : Option CancelReason := all.find? fun r => r.name == name

/-- Names tell reasons apart. -/
theorem ofName?_name (r : CancelReason) : ofName? r.name = some r := by
  cases r <;> rfl

end CancelReason

end CallGuard
