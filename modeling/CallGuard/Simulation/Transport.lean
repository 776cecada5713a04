import CallGuard.Decimal.Shortest
import CallGuard.Handler
import CallGuard.Node
import CallGuard.Random.Generator

/-!
# A simulated network

The transport echoes every request, unless a fault is active for the node it goes
to. Faults are injected under a number and healed by it. A dispatch visits the
active faults one by one: of several that fail the call or delay it, the last one
visited counts.
-/

namespace CallGuard

/-- What can be wrong with a node: it refuses every connection, it delays every call by some milliseconds, it
answers with a status, it loses calls with a probability, or it fails the next calls and then recovers. -/
inductive Fault where
  | crash
  | latency (ms : Nat)
  | status (code : UInt16)
  | loss (rate : Float)
  | failNext (count : Nat)
deriving DecidableEq

/-- A fault in words. -/
def Fault.description : Fault → String
  | .crash => "node crash"
  | .latency ms => "latency spike: " ++ toString ms ++ "ms"
  | .status code => "status " ++ toString code.toNat
  | .loss rate => "packet loss: " ++ Decimal.floatText (rate * 100.0) ++ "%"
  | .failNext count => "fail next " ++ toString count ++ " calls"

/-- What the network reports. -/
inductive NetworkError where
  | unknownNode (node : String)
  | connectionRefused (node : String)
  | packetLost (node : String)
deriving DecidableEq

namespace NetworkError

/-- The text of a report. -/
def message : NetworkError → String
  | unknownNode node => "unknown node: " ++ node
  | connectionRefused node => "connection refused by " ++ node
  | packetLost node => "request to " ++ node ++ " lost"

/-- The report as the failure of a call. -/
def toCallError (e : NetworkError) : CallError := .call e.message

end NetworkError

/-- A request to a node. -/
structure Request where
  node : Node
  body : String
deriving DecidableEq

/-- The answer of a node. -/
structure Response where
  node : String
  body : String
deriving DecidableEq

/-- A fault that is active for a node, and the number that identifies it. -/
structure ActiveFault where
  number : Nat
  node : String
  fault : Fault
deriving DecidableEq

/-- What visiting the faults has led to so far: how long the call is delayed and how it fails, if it does, the
faults that stay active, and the generator. -/
structure Assessment where
  delay : Option Span
  failure : Option CallError
  kept : List ActiveFault
  generator : Generator
deriving DecidableEq

namespace Assessment

/-- Before the first fault. -/
def start (g : Generator) : Assessment := ⟨none, none, [], g⟩

/-- One fault is visited on a call to a node. Only the node's own faults count. -/
def visit (node : String) (a : Assessment) (f : ActiveFault) : Assessment :=
  let a' := { a with kept := a.kept ++ [f] }
  if f.node = node then
    match f.fault with
    | .crash => { a' with failure := some (NetworkError.connectionRefused node).toCallError }
    | .latency ms => { a' with delay := some (.ofMillis ms) }
    | .status code =>
      { a' with failure := some (.status (.new code "INJECTED" (toString code.toNat ++ " injected"))) }
    | .loss rate =>
      let (x, generator) := a.generator.unit
      let failure := if x < rate then some (NetworkError.packetLost node).toCallError else a.failure
      { a' with failure, generator }
    -- a fault with nothing left to fail goes without failing this call
    | .failNext 0 => a
    | .failNext (count + 1) =>
      let failure := some (NetworkError.connectionRefused node).toCallError
      if count = 0 then { a with failure }
      else { a with failure, kept := a.kept ++ [{ f with fault := .failNext count }] }
  else a'

end Assessment

/-- **What the active faults do to a call**, visited in the order given. -/
def assess (node : String) (faults : List ActiveFault) (g : Generator) : Assessment :=
  faults.foldl (Assessment.visit node) (.start g)

/-- How a request is replied to. -/
def Assessment.reply (a : Assessment) (req : Request) : Reply Response :=
  match a.failure with
  | some e => .error e
  | none => .ok ⟨req.node.id, req.body⟩

/-- The simulated network: the nodes that can have faults, the active faults in the order of their numbers, the
number of the next one, the generator that decides about lost calls, and the calls by node. -/
structure Transport where
  known : List String
  faults : List ActiveFault
  nextNumber : Nat
  generator : Generator
  calls : KeyMap Nat

namespace Transport

/-- A network without faults. -/
def new (nodes : List Node) (seed : UInt64) : Transport :=
  ⟨nodes.map Node.id, [], 0, .ofSeed seed, .empty⟩

/-- A fault is injected for a known node. -/
def inject (t : Transport) (node : String) (fault : Fault) : Except NetworkError (Nat × Transport) :=
  if t.known.contains node then
    .ok (t.nextNumber, { t with
      faults := t.faults ++ [⟨t.nextNumber, node, fault⟩]
      nextNumber := t.nextNumber + 1 })
  else .error (.unknownNode node)

/-- A fault is healed; the answer is false if it was not active. -/
def heal (t : Transport) (number : Nat) : Bool × Transport :=
  (t.faults.any fun f => f.number == number,
    { t with faults := t.faults.filter fun f => f.number != number })

/-- All faults are healed. -/
def healAll (t : Transport) : Transport := { t with faults := [] }

/-- The active faults in words, sorted. -/
def descriptions (t : Transport) : List String :=
  (t.faults.map fun f => f.fault.description).mergeSort fun a b => a ≤ b

/-- Calls made to a node. -/
def callsTo (t : Transport) (node : String) : Nat := (t.calls.get? node).getD 0

/-- Calls made to all nodes. -/
def totalCalls (t : Transport) : Nat := t.calls.entries.foldr (fun e sum => e.2 + sum) 0

/-- One more call to a node. -/
def countCall (t : Transport) (node : String) : Transport :=
  { t with calls := t.calls.set node (t.callsTo node + 1) }

/-- What comes of a dispatch. -/
structure Dispatch where
  delay : Option Span
  reply : Reply Response
  network : Transport

/-- **A dispatch**: the call is counted, and the faults of its node are visited in the order given. -/
def dispatch (t : Transport) (order : List ActiveFault) (req : Request) : Dispatch :=
  let a := assess req.node.id order t.generator
  ⟨a.delay, a.reply req, { t.countCall req.node.id with faults := a.kept, generator := a.generator }⟩

variable {σ : Type}

/-- **A call to a node**: a dispatch that visits the faults as they are listed, and comes back after its delay. -/
def handler (env : Cell σ Env) (cell : Cell σ Transport) : Handler σ Request Response := fun _ req => do
  let t ← Run.read cell
  let d := t.dispatch t.faults req
  Run.write cell d.network
  match d.delay with
  | some delay => Env.sleep env delay
  | none => pure ()
  return d.reply

end Transport

end CallGuard
