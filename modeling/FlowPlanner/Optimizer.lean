/-
FlowPlanner.Optimizer — from a job to its ranked plans.

A run lays out the job, analyses the graph, searches from the root, and ranks
the root's candidates: known totals ascending, unknown ones last, and equal ones
in the order they were found.
-/
import FlowPlanner.Graph.Build
import FlowPlanner.Search

namespace FlowPlanner

variable {α : Type} [Quantity α]

/-- Settings that passed their check, and prices. -/
structure Optimizer (α : Type) where
  config : Config
  model : CostModel α
  valid : config.validate = .ok ()

/-- A root plan with its weighted total, unknown if a price was. -/
structure Ranked (α : Type) where
  plan : Plan α
  total : Option α

/-- What a run found. -/
structure Outcome (α : Type) where
  problem : Problem α
  best : Plan α
  ranked : List (Ranked α)
  search : Search α

namespace Ranked

/-- Known totals ascending, unknown ones last. -/
def compareTotals : Option α → Option α → Ordering
  | some x, some y => Quantity.rank x y
  | some _, none => .lt
  | none, some _ => .gt
  | none, none => .eq

/-- Plans by total; equal ones keep their order. -/
def sort (rs : List (Ranked α)) : List (Ranked α) :=
  rs.mergeSort fun a b => (compareTotals a.total b.total).isLE

end Ranked

namespace Optimizer

/-- An optimizer, if the settings pass their check. -/
def create (config : Config) (model : CostModel α) : Except Failure (Optimizer α) :=
  match h : config.validate with
  | .ok () => .ok ⟨config, model, h⟩
  | .error e => .error e

/-- The standard optimizer with the weights of the settings. -/
def standard (config : Config) : Except Failure (Optimizer α) :=
  create config (.standard (config.weights.map Quantity.ofFloat))

/-- Lay out and analyse a job. -/
def prepare (o : Optimizer α) (job : Job) : Except Failure (Problem α) := do
  let graph ← Graph.build o.config job
  return { graph, analysis := .complete graph o.model, config := o.config, model := o.model }

/-- Find the ranked plans of a job, on a clock that tells the milliseconds passed when so many
candidates have been made. -/
def run (o : Optimizer α) (job : Job) (clock : Nat → Nat := fun _ => 0) :
    Except Failure (Outcome α) := do
  let prepared ← o.prepare job
  let problem := { prepared with clock }
  let root := problem.graph.root
  match problem.candidates root {} with
  | (.error e, _) => .error e
  | (.ok plans, search) =>
    let all := Ranked.sort (plans.map fun plan => ⟨plan, o.model.total plan.cumulative⟩)
    match all with
    | [] => .error (.noFeasiblePlan (problem.graph.node root).name)
    | first :: _ =>
      .ok { problem, best := first.plan, ranked := all.take o.config.maxRanked, search }

end Optimizer

namespace Outcome

/-- The total of the best plan. -/
def total (o : Outcome α) : Option α := o.ranked.head?.bind (·.total)

/-- The estimates of the first node with a name. -/
def estimates? (o : Outcome α) (name : String) : Option (Estimates α) :=
  (o.problem.graph.find? name).map fun node => o.problem.analysis.estimates node.id

end Outcome

end FlowPlanner
