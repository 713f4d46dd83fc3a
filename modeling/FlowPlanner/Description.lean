/-
FlowPlanner.Description — a chosen plan as a list of nodes.

Nodes are listed producers first and name their inputs by position in the list,
so a part that several consumers share is listed once. Joiners are left out:
they do nothing. The numbers of plans are left out too, so a description depends
on what was chosen and not on how it was found.
-/
import FlowPlanner.Optimizer

namespace FlowPlanner

/-- One input of a described node. -/
structure InputDescription where
  /-- The position of the producer in the list. -/
  source : Nat
  ship : Ship
  work : LocalStrategy
deriving DecidableEq

/-- One node of a described plan. -/
structure NodeDescription (α : Type) where
  name : String
  kind : NodeKind
  driver : Driver
  parallelism : Nat
  inputs : List InputDescription
  placement : Placement
  arrangement : Arrangement
  estimates : Estimates α
  cumulative : Cost α

/-- A described plan. -/
structure Description (α : Type) where
  nodes : List (NodeDescription α)
  /-- The positions of the sinks, ascending. -/
  sinks : List Nat
  /-- The weighted total, unknown if a price was. -/
  total : Option α

namespace Description

variable {α : Type}

/-- The plans that are listed: all that the plan needs, producers first, without joiners. -/
def listed (g : Graph) (root : Plan α) : List (Plan α) :=
  root.topological.filter fun p => !(g.node p.node).kind.isJoiner

/-- The input that a channel is, if its source is listed. -/
def input? (plans : List (Plan α)) (c : Channel (Plan α)) : Option InputDescription :=
  (plans.findIdx? (·.id == c.source.id)).map fun source =>
    { source, ship := c.ship, work := c.work }

/-- The entry of a plan. -/
def entry (g : Graph) (a : Analysis α) (plans : List (Plan α)) (p : Plan α) : NodeDescription α :=
  let node := g.node p.node
  { name := p.name
    kind := node.kind
    driver := p.driver
    parallelism := node.parallelism
    inputs := p.inputs.filterMap (input? plans)
    placement := p.placement
    arrangement := p.arrangement
    estimates := a.estimates p.node
    cumulative := p.cumulative }

/-- The positions of the entries that are sinks. -/
def sinkPositions (entries : List (NodeDescription α)) : List Nat :=
  (entries.zipIdx.filter fun e => e.1.kind.isSink).map (·.2)

/-- The description of a root plan. -/
def ofPlan [Quantity α] (g : Graph) (a : Analysis α) (weights : Weights α) (root : Plan α) :
    Description α :=
  let plans := listed g root
  let nodes := plans.map (entry g a plans)
  { nodes, sinks := sinkPositions nodes, total := root.cumulative.total weights }

end Description

/-- The description of the best plan; totals count by the settings' weights. -/
def Outcome.description {α : Type} [Quantity α] (o : Outcome α) : Description α :=
  .ofPlan o.problem.graph o.problem.analysis (o.problem.config.weights.map Quantity.ofFloat) o.best

end FlowPlanner
