/-
FlowPlanner.Analysis — what is known of a graph before plans are searched.

Three passes fill the three parts: output sizes, fork states, requests. Each
pass can be run at any time; requests take their prices from the sizes known at
that moment.
-/
import FlowPlanner.Analysis.Forks
import FlowPlanner.Analysis.Requests

namespace FlowPlanner

/-- What the passes found out about a graph. -/
structure Analysis (α : Type) where
  /-- By node. -/
  sizes : Array (Estimates α) := #[]
  /-- By node. -/
  forks : Array ForkState := #[]
  /-- By node: what all consumers ask of its output. -/
  requested : Array (List (Request α)) := #[]
  /-- By connection. -/
  demand : Demand α := #[]

namespace Analysis

variable {α : Type}

/-- The output sizes of a node. -/
def estimates (a : Analysis α) (id : NodeId) : Estimates α := a.sizes.getD id .unknown

/-- The fork state of a node. -/
def forkState (a : Analysis α) (id : NodeId) : ForkState := a.forks.getD id {}

/-- What is asked of a node's output. -/
def requestsOn (a : Analysis α) (id : NodeId) : List (Request α) := a.requested.getD id []

/-- What is asked over a connection. -/
def requestsOver (a : Analysis α) (id : ConnectionId) : List (Request α) := a.demand.getD id []

/-- Find out where forks are open. -/
def track (a : Analysis α) (g : Graph) : Analysis α := { a with forks := g.forkStates }

variable [Quantity α]

/-- Estimate all output sizes. -/
def estimate (a : Analysis α) (g : Graph) : Analysis α := { a with sizes := g.estimates }

/-- Pass requests up to all connections. -/
def propagate (a : Analysis α) (g : Graph) (model : CostModel α) : Analysis α :=
  let demand := g.demand model a.sizes
  { a with
    demand
    requested := (g.nodes.toList.map fun node => g.requestedOf demand node.id).toArray }

/-- All three passes. -/
def complete (g : Graph) (model : CostModel α) : Analysis α :=
  ((({} : Analysis α).estimate g).track g).propagate g model

end Analysis

end FlowPlanner
