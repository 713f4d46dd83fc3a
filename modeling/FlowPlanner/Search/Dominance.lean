/-
FlowPlanner.Search.Dominance — dropping candidates that another one makes useless.

Only candidates that agree on every open fork above their node are compared,
for otherwise a cheaper one could displace the only one that another branch
fits. Within such a group a candidate dominates another one if both totals are
known, its total is no larger, and for every request it meets the placement
wherever the other does and the arrangement wherever the other does.
-/
import FlowPlanner.Analysis.Requests
import FlowPlanner.Plan

namespace FlowPlanner

variable {α : Type} [Quantity α]

/-- A candidate with what decides its worth. -/
structure Scored (α : Type) where
  plan : Plan α
  /-- The choices at forks above the node. -/
  above : List (NodeId × PlanId)
  /-- Per request: the placement is met, the arrangement is met. -/
  met : List (Bool × Bool)
  total : Option α

namespace Plan

/-- The choices at forks other than the plan's own node. -/
def choicesAbove (p : Plan α) (node : NodeId) : List (NodeId × PlanId) :=
  p.choices.entries.filter (·.1 != node)

/-- Work out what decides a candidate's worth. -/
def score (model : CostModel α) (requests : List (Request α)) (node : NodeId) (p : Plan α) :
    Scored α :=
  { plan := p
    above := p.choicesAbove node
    met := requests.map fun r =>
      (r.placement.isMetBy p.placement, r.arrangement.isMetBy p.arrangement)
    total := model.total p.cumulative }

end Plan

namespace Scored

/-- Wherever the second meets a part of a request, the first does. -/
def coversMet (a b : List (Bool × Bool)) : Bool :=
  (a.zip b).all fun e => (e.1.1 || !e.2.1) && (e.1.2 || !e.2.2)

/-- The first candidate makes the second one useless. -/
def dominates (a b : Scored α) : Bool :=
  match a.total, b.total with
  | some x, some y => Quantity.le x y && a.above == b.above && coversMet a.met b.met
  | _, _ => false

/-- The survivors after one more candidate: it is dropped if a survivor dominates it, else it
replaces those that it dominates. -/
def receive (kept : List (Scored α)) (s : Scored α) : List (Scored α) :=
  if kept.any (dominates · s) then kept
  else kept.filter (fun k => !dominates s k) ++ [s]

end Scored

/-- The survivors among a node's candidates, in order, and the number of those dropped. -/
def prune (model : CostModel α) (requests : List (Request α)) (node : NodeId)
    (candidates : List (Plan α)) : List (Plan α) × Nat :=
  let kept := (candidates.map (Plan.score model requests node)).foldl Scored.receive []
  (kept.map (·.plan), candidates.length - kept.length)

end FlowPlanner
