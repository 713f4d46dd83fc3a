/-
FlowPlanner.Graph — a job laid out as nodes and connections.

A node's number is its position, and a connection belongs to the node that it
enters, so a connection is known to its consumer by construction; what leaves a
node is read off the connections of all nodes (`Graph.outgoing`). Nodes are
numbered producers first.
-/
import FlowPlanner.Job.Hint
import FlowPlanner.Plan.Strategy

namespace FlowPlanner

/-- The position of a node in its graph. -/
abbrev NodeId := Nat

/-- The number of a connection, counted over the whole graph. -/
abbrev ConnectionId := Nat

/-- What a node does: an operator's job, or tying two sinks together. -/
inductive NodeKind where
  | operator (kind : Kind)
  | sinkJoiner
deriving Inhabited

namespace NodeKind

/-- The name in descriptions. -/
def name : NodeKind → String
  | operator kind => kind.name
  | sinkJoiner => "sink_joiner"

/-- The node ties sinks together. -/
def isJoiner : NodeKind → Bool
  | sinkJoiner => true
  | _ => false

/-- The node is a sink. -/
def isSink : NodeKind → Bool
  | operator kind => kind.isSink
  | _ => false

end NodeKind

/-- Data flowing from one node into an input position of another. -/
structure Connection where
  id : ConnectionId
  source : NodeId
  target : NodeId
  /-- The input position at the target. -/
  position : Nat
  pin : Pin
  /-- The target's key columns for this input. -/
  keys : List Nat
deriving DecidableEq, Inhabited

/-- The ship strategy that a hint forces. -/
def Connection.forcedShip (c : Connection) : Option Ship :=
  match c.pin with
  | .unset => none
  | .forward => some .forward
  | .broadcast => some .broadcast
  | .partitionHash => some (.partitionHash (.ofList c.keys))

/-- One node: an operator, or one that layout put in. -/
structure Node where
  id : NodeId
  name : String
  /-- The operator that the node stands for. -/
  op : Option OpId := none
  kind : NodeKind
  /-- The connections that enter, by input position. -/
  inputs : List Connection := []
  /-- Key columns per input position. -/
  keys : List (List Nat) := []
  contract : Contract := .none
  sizes : SizeHints := {}
  parallelism : Nat
  memoryBytes : Nat
  driver : Option DriverHint := none
deriving Inhabited

namespace Node

/-- The key columns of an input position, in their declared order. -/
def keyList (n : Node) (input : Nat) : List Nat := n.keys.getD input []

/-- The key columns of an input position as a set. -/
def keyFields (n : Node) (input : Nat) : FieldSet := .ofList (n.keyList input)

end Node

/-- A job laid out: its nodes, producers first, its sinks, and the node everything flows into. -/
structure Graph where
  nodes : Array Node
  sinks : List NodeId
  root : NodeId

namespace Graph

/-- The number of nodes. -/
def size (g : Graph) : Nat := g.nodes.size

/-- The node at a position. -/
def node (g : Graph) (id : NodeId) : Node := g.nodes.getD id default

/-- All connections in the order of their numbers. -/
def connections (g : Graph) : List Connection := g.nodes.toList.flatMap (·.inputs)

/-- The connections that leave a node. -/
def outgoing (g : Graph) (id : NodeId) : List Connection := g.connections.filter (·.source == id)

/-- More than one connection leaves the node. -/
def isFork (g : Graph) (id : NodeId) : Bool := 1 < (g.outgoing id).length

/-- The first node with a name. -/
def find? (g : Graph) (name : String) : Option Node := g.nodes.toList.find? (·.name == name)

/-- The first node that stands for an operator. -/
def findOp? (g : Graph) (op : OpId) : Option Node := g.nodes.toList.find? (·.op == some op)

/-- The producer of each input. -/
def predecessors (g : Graph) (id : NodeId) : List NodeId := (g.node id).inputs.map (·.source)

end Graph

end FlowPlanner
