/-
FlowPlanner.Analysis.Requests — what consumers ask of the data on each connection.

Consumers come before producers here. A node gathers what its consumers ask of
its output, and asks of each input what its own driver likes together with what
the output contract lets through. Every request carries the price of
establishing it from nothing on its connection.
-/
import FlowPlanner.Cost.Model

namespace FlowPlanner

variable {α : Type} [Quantity α]

namespace Node

/-- What a node's own drivers would like of an input. -/
def ownRequests (n : Node) (input : Nat) : List (Request α) :=
  let keys := n.keyFields input
  match n.kind with
  | .operator .reduce | .operator .coGroup => [.partitionedAndGrouped keys]
  | .operator .equiJoin =>
    [.partitioned keys, .free (.hashed keys) (.sorted (n.keyList input)), .copied]
  | _ => []

/-- All that is asked of an input: the node's own requests, and those on its output that its
contract lets through. A union passes on what it is asked; a joiner asks nothing. -/
def inputRequests (n : Node) (input : Nat) (requested : List (Request α)) : List (Request α) :=
  match n.kind with
  | .operator .union => requested
  | .sinkJoiner => []
  | _ =>
    let own := n.ownRequests input
    if n.contract.preservesKeys && n.contract.input == input then
      Request.mergeAll own (requested.filterMap (·.through? n.contract (n.keyFields input)))
    else own

end Node

/-- The requests on every connection, by number. -/
abbrev Demand (α : Type) := Array (List (Request α))

namespace Graph

/-- What the consumers of a node ask of its output, the first of each request kept. -/
def requestedOf (g : Graph) (demand : Demand α) (id : NodeId) : List (Request α) :=
  (g.outgoing id).foldl (fun rs c => Request.mergeAll rs (demand.getD c.id [])) []

/-- What a node asks over one of its connections, with prices. -/
def priced (model : CostModel α) (sizes : Array (Estimates α)) (node : Node)
    (requested : List (Request α)) (c : Connection) : List (Request α) :=
  (node.inputRequests c.position requested).map fun r =>
    { r with
      price :=
        model.realization r (sizes.getD c.source .unknown) node.parallelism node.memoryBytes }

/-- Write down what one node asks of its inputs. -/
def ask (g : Graph) (model : CostModel α) (sizes : Array (Estimates α)) (node : Node)
    (demand : Demand α) : Demand α :=
  let requested := g.requestedOf demand node.id
  node.inputs.foldl (fun d c => d.setIfInBounds c.id (priced model sizes node requested c)) demand

/-- The requests on all connections, consumers first. -/
def demand (g : Graph) (model : CostModel α) (sizes : Array (Estimates α)) : Demand α :=
  g.nodes.toList.foldr (g.ask model sizes) (Array.replicate g.connections.length [])

end Graph

end FlowPlanner
