/-
FlowPlanner.Cost.Model — the prices of physical strategies.

A model prices shipping, local work and drivers, tells the total of a cost, and
what it takes to establish a request. The last two follow from the prices and the
weights unless a model has its own (`ofPrices`). `standard` is dominated by the
network: shipping a byte weighs far more than spilling or touching it.
-/
import FlowPlanner.Analysis.Sizes
import FlowPlanner.Cost
import FlowPlanner.Property.Request

namespace FlowPlanner

/-- The prices of physical strategies, and the weights of their dimensions. The estimates are those
of the data that enters; parallelism and memory are those of the consumer. -/
structure Prices (α : Type) where
  shipPrice : Ship → Estimates α → (parallelism : Nat) → Cost α
  localPrice : LocalStrategy → Estimates α → (memoryBytes : Nat) → Cost α
  driverPrice : Driver → List (Estimates α) → (memoryBytes : Nat) → Cost α
  weights : Weights α

/-- Prices, and what is made of them. -/
structure CostModel (α : Type) extends Prices α where
  /-- The total of a cost, by which plans are compared and ranked. -/
  total : Cost α → Option α
  /-- The price of establishing a request from nothing. -/
  realization : Request α → Estimates α → (parallelism memoryBytes : Nat) → Cost α

variable {α : Type}

namespace Prices

/-- A request is established by shipping for its placement and sorting for its arrangement. -/
def realization [Quantity α] (prices : Prices α) (r : Request α) (input : Estimates α)
    (parallelism memoryBytes : Nat) : Cost α :=
  let ship : Ship := match r.placement with
    | .any => .forward
    | .hashed fields => .partitionHash fields
    | .replicated => .broadcast
  let work : LocalStrategy :=
    if r.arrangement.isTrivial then .none else .sort r.arrangement.sortFields
  prices.shipPrice ship input parallelism + prices.localPrice work input memoryBytes

end Prices

namespace CostModel

variable [Quantity α]

open Quantity

/-- The model of some prices: totals are weighted sums. -/
def ofPrices (prices : Prices α) : CostModel α where
  toPrices := prices
  total c := c.total prices.weights
  realization := prices.realization

/-- A model that knows no price. -/
def blind (weights : Weights α) : CostModel α :=
  .ofPrices
    { shipPrice := fun _ _ _ => .unknown
      localPrice := fun _ _ _ => .unknown
      driverPrice := fun _ _ _ => .unknown
      weights }

/-! ## The standard model -/

/-- Bytes written and read back when data does not fit into memory. -/
def spill (size : Option α) (memoryBytes : Nat) : Option α :=
  size.map fun s => if lt (ofNat memoryBytes) s then mul (ofNat 2) s else ofNat 0

/-- Forwarding is free, partitioning ships the data once, a broadcast once per instance. -/
def standardShip (ship : Ship) (input : Estimates α) (parallelism : Nat) : Cost α :=
  match ship with
  | .forward => .zero
  | .partitionHash _ => .ofNetwork input.size
  | .broadcast => .ofNetwork (input.size.map (mul · (ofNat parallelism)))

/-- Comparisons of a sort. -/
def sortCpu (records : Option α) : Option α :=
  records.map fun n => if lt (ofNat 1) n then mul n (Quantity.log2 n) else ofNat 0

/-- A sort compares and may spill. -/
def standardLocal (work : LocalStrategy) (input : Estimates α) (memoryBytes : Nat) : Cost α :=
  match work with
  | .none => .zero
  | .sort _ => ⟨some (ofNat 0), spill input.size memoryBytes, sortCpu input.records⟩

/-- Drivers read their inputs; hash joins and nested loops hold one side in memory. -/
def standardDriver (driver : Driver) (inputs : List (Estimates α)) (memoryBytes : Nat) : Cost α :=
  let first := inputs.getD 0 .unknown
  let second := inputs.getD 1 .unknown
  let both := add? first.records second.records
  let pairs := mul? first.records second.records
  let holding := fun (side : Estimates α) (cpu : Option α) =>
    (⟨some (ofNat 0), spill side.size memoryBytes, cpu⟩ : Cost α)
  match driver with
  | .dataSource | .map | .dataSink | .union | .sinkJoiner => .zero
  | .sortedGroupReduce => .ofCpu first.records
  | .sortedCoGroup | .sortMerge => .ofCpu both
  | .hybridHashBuildFirst => holding first both
  | .hybridHashBuildSecond => holding second both
  | .nestedLoopBlockedOuterFirst => holding second pairs
  | .nestedLoopBlockedOuterSecond => holding first pairs

/-- The standard prices. -/
def standard (weights : Weights α) : CostModel α :=
  .ofPrices
    { shipPrice := standardShip
      localPrice := standardLocal
      driverPrice := standardDriver
      weights }

end CostModel

end FlowPlanner
