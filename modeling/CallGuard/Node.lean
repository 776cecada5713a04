import CallGuard.Error

/-!
# Nodes and service instances

Discovery reports service instances; each endpoint of an instance becomes a node
that a call can be sent to.
-/

namespace CallGuard

/-- A service instance that can be called, where to reach it, and its labels. A weight of zero or less excludes it
from weighted picks. -/
structure Node where
  id : String
  address : String
  metadata : Labels
  weight : Int64
deriving DecidableEq

namespace Node

/-- The weight of a node that is given none. -/
def defaultWeight : Int64 := 100

/-- A node with the default weight and no labels. -/
def new (id address : String) : Node := ⟨id, address, .empty, defaultWeight⟩

instance : Inhabited Node := ⟨new "" ""⟩

/-- The node with another weight. -/
def withWeight (n : Node) (weight : Int64) : Node := { n with weight }

/-- The node with one more label. -/
def withMetadata (n : Node) (name value : String) : Node :=
  { n with metadata := n.metadata.insert name value }

end Node

/-- A service instance as discovery reports it. Each of its endpoints becomes a node. -/
structure ServiceInstance where
  id : String
  name : String
  version : String
  metadata : Labels
  endpoints : List String
deriving DecidableEq

/-- Makes a node of an instance and one of its endpoints. -/
abbrev NodeBuilder := String → String → Labels → Except CallError Node

/-- The builder that copies what it is given. -/
def defaultNodeBuilder : NodeBuilder :=
  fun id address metadata => .ok ⟨id, address, metadata, Node.defaultWeight⟩

/-- A builder that refuses addresses by their start. -/
def rejectingNodeBuilder (start : String) (e : CallError) : NodeBuilder :=
  fun id address metadata =>
    if start.toList.isPrefixOf address.toList then .error e
    else defaultNodeBuilder id address metadata

/-- **Nodes of instances**: a node for every endpoint, in order. The first builder error stops it. -/
def nodesOfInstances (builder : NodeBuilder) (instances : List ServiceInstance) :
    Except CallError (List Node) :=
  (instances.flatMap fun i => i.endpoints.map fun e => (i, e)).mapM fun (i, e) =>
    builder i.id e i.metadata

end CallGuard
