/-
FlowPlanner.Plan — candidate plans and the channels that feed them.

A plan fixes how one node runs and which channels feed it; a channel fixes a
producer's plan and how its output travels. Plans are values; a plan that two
consumers share is the same value under both, and is told apart from others by
its number. The walks at the end visit every plan once, by number.
-/
import FlowPlanner.Cost
import FlowPlanner.Plan.Choices
import FlowPlanner.Plan.Strategy
import FlowPlanner.Property.Arrangement
import FlowPlanner.Property.Placement

namespace FlowPlanner

/-- One way of realizing a connection, from a source of type `σ`. -/
structure Channel (σ : Type) where
  source : σ
  connection : ConnectionId
  ship : Ship := .forward
  /-- A hint forced the ship strategy; the data is never shipped otherwise. -/
  forced : Bool := false
  /-- Producer and consumer differ in parallelism, so forwarded data keeps no property. -/
  rescaled : Bool := false
  work : LocalStrategy := .none
  /-- The placement of the data as the consumer sees it. -/
  placement : Placement
  /-- The arrangement of the data as the consumer sees it. -/
  arrangement : Arrangement

/-- A candidate plan of one node. -/
structure Plan (α : Type) where
  id : PlanId
  node : NodeId
  name : String
  driver : Driver
  inputs : List (Channel (Plan α))
  placement : Placement
  arrangement : Arrangement
  /-- The cost of the driver and of the channels that enter. -/
  own : Cost α
  /-- The cost of everything the plan needs, each distinct plan counted once. -/
  cumulative : Cost α
  choices : Choices

variable {α : Type}

/-! ## §1 Channels -/

namespace Channel

/-- The producer's output as it is. -/
def forward (source : Plan α) (connection : ConnectionId) : Channel (Plan α) :=
  { source, connection, placement := source.placement, arrangement := source.arrangement }

/-- Where data lies after a ship strategy, given whether the parallelism changes. -/
def shippedPlacement (source : Plan α) (rescaled : Bool) : Ship → Placement
  | .forward => if rescaled then .any else source.placement
  | .broadcast => .replicated
  | .partitionHash fields => .hashed fields

/-- How data stands after a ship strategy: only data that stays in place keeps its order. -/
def shippedArrangement (source : Plan α) (rescaled : Bool) : Ship → Arrangement
  | .forward => if rescaled then .unordered else source.arrangement
  | _ => .unordered

/-- Ship in another way; local work done so far is lost. -/
def withShip (c : Channel (Plan α)) (ship : Ship) : Channel (Plan α) :=
  { c with
    ship
    work := .none
    placement := shippedPlacement c.source c.rescaled ship
    arrangement := shippedArrangement c.source c.rescaled ship }

/-- The connection crosses a change of parallelism. -/
def rescale (c : Channel (Plan α)) : Channel (Plan α) :=
  { c with rescaled := true }.withShip c.ship

/-- Ship as a hint demands. -/
def force (c : Channel (Plan α)) (ship : Ship) : Channel (Plan α) :=
  { c.withShip ship with forced := true }

/-- Do local work on arrival; a sort sets the arrangement. -/
def withLocal (c : Channel (Plan α)) (work : LocalStrategy) : Channel (Plan α) :=
  { c with
    work
    arrangement := match work with
      | .none => c.arrangement
      | .sort fields => .sorted fields }

/-- Sort on the keys, unless the data arrives grouped on them. -/
def groupedOn (c : Channel (Plan α)) (keys : List Nat) : Channel (Plan α) :=
  if c.arrangement.isGroupedOn (.ofList keys) then c else c.withLocal (.sort keys)

/-- Sort on the keys, unless the data arrives sorted with them in front. -/
def sortedOn (c : Channel (Plan α)) (keys : List Nat) : Channel (Plan α) :=
  if c.arrangement.isSortedOn keys then c else c.withLocal (.sort keys)

/-- The connection is realized in the same way from the same plan. -/
def isSame (c d : Channel (Plan α)) : Bool :=
  c.source.id == d.source.id && c.connection == d.connection && c.ship == d.ship && c.work == d.work

/-- The choices of the plan that a channel reads. -/
def choices (c : Channel (Plan α)) : Choices := c.source.choices

end Channel

/-! ## §2 Walks -/

/-- A walk over plans: the numbers met so far, and the plans visited, the latest first. -/
structure Walk (α : Type) where
  seen : List PlanId := []
  visited : List (Plan α) := []

namespace Walk

/-- A plan is met for the first time. -/
def meet (w : Walk α) (id : PlanId) : Walk α := { w with seen := id :: w.seen }

/-- A plan is visited. -/
def visit (w : Walk α) (p : Plan α) : Walk α := { w with visited := p :: w.visited }

end Walk

mutual

/-- Visit a plan after all that it reads, inputs left to right. -/
def Plan.walkUp (w : Walk α) : Plan α → Walk α
  | ⟨id, node, name, driver, inputs, placement, arrangement, own, cumulative, choices⟩ =>
    if id ∈ w.seen then w
    else (walkUpAll (w.meet id) inputs).visit
      ⟨id, node, name, driver, inputs, placement, arrangement, own, cumulative, choices⟩
termination_by structural p => p

/-- Visit the sources of some channels, left to right. -/
def walkUpAll (w : Walk α) : List (Channel (Plan α)) → Walk α
  | [] => w
  | c :: cs => walkUpAll (walkUpChannel w c) cs
termination_by structural cs => cs

/-- Visit the source of a channel. -/
def walkUpChannel (w : Walk α) : Channel (Plan α) → Walk α
  | ⟨source, _, _, _, _, _, _, _⟩ => source.walkUp w
termination_by structural c => c

end

mutual

/-- Visit a plan before all that it reads, inputs right to left. -/
def Plan.walkDown (w : Walk α) : Plan α → Walk α
  | ⟨id, node, name, driver, inputs, placement, arrangement, own, cumulative, choices⟩ =>
    if id ∈ w.seen then w
    else walkDownAll ((w.meet id).visit
      ⟨id, node, name, driver, inputs, placement, arrangement, own, cumulative, choices⟩) inputs
termination_by structural p => p

/-- Visit the sources of some channels, right to left. -/
def walkDownAll (w : Walk α) : List (Channel (Plan α)) → Walk α
  | [] => w
  | c :: cs => walkDownChannel (walkDownAll w cs) c
termination_by structural cs => cs

/-- Visit the source of a channel. -/
def walkDownChannel (w : Walk α) : Channel (Plan α) → Walk α
  | ⟨source, _, _, _, _, _, _, _⟩ => source.walkDown w
termination_by structural c => c

end

namespace Plan

/-- All distinct plans that a plan needs and the plan itself, producers first. -/
def topological (p : Plan α) : List (Plan α) := (p.walkUp {}).visited.reverse

/-- The plans that a plan reads, by input. -/
def predecessors (p : Plan α) : List (Plan α) := p.inputs.map (·.source)

/-- A plan's own cost and that of every distinct plan reached through its inputs. -/
def cumulativeCost [Quantity α] (own : Cost α) (inputs : List (Channel (Plan α))) : Cost α :=
  (walkDownAll {} inputs).visited.foldr (fun p total => total + p.own) own

end Plan

end FlowPlanner
