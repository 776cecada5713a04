import CallGuard.Context.Basic
import CallGuard.Node

/-!
# A simulated cluster

Instances of one service on one machine, as discovery would report them, spread
over two zones.
-/

namespace CallGuard

/-- An instance of the cluster: its number, from zero, and its weight in node selection. -/
structure Cluster.Member where
  number : Nat
  weight : Int64
deriving DecidableEq

/-- Instances of a service. -/
structure Cluster where
  service : String
  members : List Cluster.Member
deriving DecidableEq

namespace Cluster

/-- The machine of all instances. -/
def host : String := "127.0.0.1"

/-- The number on which the first instance listens; the others take the next ones. -/
def firstPort : UInt16 := 7000

namespace Member

/-- The identifier of an instance. -/
def id (m : Member) : String := "node-" ++ toString m.number

/-- Where an instance listens. -/
def address (m : Member) : String :=
  host ++ ":" ++ toString (firstPort + m.number.toUInt16).toNat

/-- The zone of an instance: the two zones take turns. -/
def zone (m : Member) : String := if m.number % 2 = 0 then "a" else "b"

/-- An instance as discovery reports it, with zone and weight as labels. -/
def toInstance (m : Member) (service : String) : ServiceInstance where
  id := m.id
  name := service
  version := "v1"
  metadata := .ofList [("zone", m.zone), ("weight", toString m.weight.toInt)]
  endpoints := ["tcp://" ++ m.address]

end Member

/-- Instances with the given weights. -/
def weighted (service : String) (weights : List Int64) : Cluster :=
  ⟨service, weights.zipIdx.map fun (weight, number) => ⟨number, weight⟩⟩

/-- Instances with the default weight. -/
def uniform (service : String) (count : Nat) : Cluster :=
  weighted service (List.replicate count Node.defaultWeight)

/-- The service of the ready-made clusters. -/
def defaultService : String := "echo"

/-- The number of instances. -/
def size (c : Cluster) : Nat := c.members.length

/-- The identifiers of the instances. -/
def ids (c : Cluster) : List String := c.members.map Member.id

/-- The addresses of the instances. -/
def addresses (c : Cluster) : List String := c.members.map Member.address

/-- What discovery reports, an endpoint for each instance. -/
def instances (c : Cluster) : List ServiceInstance := c.members.map fun m => m.toInstance c.service

/-- The weight that a label gives, if it is a signed 64-bit number. -/
def weightOfLabel? (text : String) : Option Int64 := do
  let n ← text.toInt?
  if -9223372036854775808 ≤ n ∧ n ≤ 9223372036854775807 then some n.toInt64 else none

/-- A node with the weight of its label, if it has one. -/
def weigh (n : Node) : Node :=
  n.withWeight (((n.metadata.get? "weight").bind weightOfLabel?).getD n.weight)

/-- The nodes of the reported instances, with the weights of their labels. -/
def nodes (c : Cluster) : Except CallError (List Node) :=
  return (← nodesOfInstances defaultNodeBuilder c.instances).map weigh

/-- The context of a request to a path from a caller's address. -/
def requestContext (path clientIp : String) : Context :=
  (Context.background.withValue Context.pathKey path).withValue Context.clientIpKey clientIp

end Cluster

end CallGuard
