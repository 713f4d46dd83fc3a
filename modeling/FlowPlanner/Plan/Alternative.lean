/-
FlowPlanner.Plan.Alternative — how an operator can run on given channels.

For one channel per input, `Node.alternatives` lists the drivers that can run on
them, with the channels adjusted where the driver needs it. `Node.output` says
what holds of the output.
-/
import FlowPlanner.Plan
import FlowPlanner.Property.Request

namespace FlowPlanner

variable {α : Type}

/-- A driver with the channels that it runs on. -/
structure Alternative (α : Type) where
  driver : Driver
  inputs : List (Channel (Plan α))

/-! ## §1 Two inputs partitioned alike -/

/-- The column of the second key list that corresponds to a column of the first. -/
def correspondingKey? (firstKeys secondKeys : List Nat) (field : Nat) : Option Nat :=
  (firstKeys.findIdx? (· == field)).bind fun position => secondKeys[position]?

/-- Both sides are hashed on corresponding key columns, on one at least. -/
def isCoPartitioned (a b : Placement) (firstKeys secondKeys : List Nat) : Bool :=
  match a.fields?, b.fields? with
  | some fa, some fb =>
    !fa.isEmpty &&
      match fa.toList.mapM (correspondingKey? firstKeys secondKeys) with
      | some mapped => FieldSet.ofList mapped == fb
      | none => false
  | _, _ => false

/-- Hash on the keys, unless a hint decides or the data lies so already. -/
def Channel.repartition (c : Channel (Plan α)) (keys : List Nat) : Channel (Plan α) :=
  if c.forced || c.placement == .hashed (.ofList keys) then c
  else c.withShip (.partitionHash (.ofList keys))

/-- Two channels partitioned alike: as they are if they are so, else each hashed on its keys. -/
def coPartition (a b : Channel (Plan α)) (firstKeys secondKeys : List Nat) :
    Channel (Plan α) × Channel (Plan α) :=
  if isCoPartitioned a.placement b.placement firstKeys secondKeys then (a, b)
  else (a.repartition firstKeys, b.repartition secondKeys)

/-! ## §2 Alternatives by kind -/

namespace Node

/-- A reduce runs on one grouped channel that is hashed on key columns, or forced. -/
def reduceAlternatives (n : Node) (c : Channel (Plan α)) : List (Alternative α) :=
  let keys := n.keyList 0
  if !c.forced && !(Placement.hashed (.ofList keys)).isMetBy c.placement then []
  else [⟨.sortedGroupReduce, [c.groupedOn keys]⟩]

/-- The drivers of a join: the hinted one, or all three. -/
def joinDrivers (n : Node) : List Driver :=
  match n.driver with
  | some .hashBuildFirst => [.hybridHashBuildFirst]
  | some .hashBuildSecond => [.hybridHashBuildSecond]
  | some .sortMerge => [.sortMerge]
  | _ => [.hybridHashBuildFirst, .hybridHashBuildSecond, .sortMerge]

/-- A join runs with one side replicated or with both partitioned alike; two replicated sides are
used only if a hint forces one. -/
def joinAlternatives (n : Node) (a b : Channel (Plan α)) : List (Alternative α) :=
  let firstKeys := n.keyList 0
  let secondKeys := n.keyList 1
  let ra := a.placement.isReplicated
  let rb := b.placement.isReplicated
  if ra && rb && !(a.forced || b.forced) then []
  else
    let (a, b) := if ra != rb then (a, b) else coPartition a b firstKeys secondKeys
    n.joinDrivers.map fun driver =>
      if driver == .sortMerge then ⟨driver, [a.sortedOn firstKeys, b.sortedOn secondKeys]⟩
      else ⟨driver, [a, b]⟩

/-- The second side is known to be strictly smaller; ties and unknown sizes favour the first. -/
def isSecondSmaller [Quantity α] (sizeOf : NodeId → Option α) (a b : Channel (Plan α)) : Bool :=
  match sizeOf a.source.node, sizeOf b.source.node with
  | some sa, some sb => Quantity.lt sb sa
  | _, _ => false

/-- The second input of a cross is the one to copy to every instance. -/
def copiesSecond [Quantity α] (n : Node) (sizeOf : NodeId → Option α) (a b : Channel (Plan α)) :
    Bool :=
  if a.forced then true
  else if b.forced then false
  else match n.driver with
    | some .nestedLoopFirst => false
    | some .nestedLoopSecond => true
    | _ => isSecondSmaller sizeOf a b

/-- A cross holds a replicated side as the outer one; if there is none, one side is replicated,
unless hints force both. -/
def crossAlternative [Quantity α] (n : Node) (sizeOf : NodeId → Option α)
    (a b : Channel (Plan α)) : Alternative α :=
  if a.placement.isReplicated then ⟨.nestedLoopBlockedOuterFirst, [a, b]⟩
  else if b.placement.isReplicated then ⟨.nestedLoopBlockedOuterSecond, [a, b]⟩
  else if a.forced && b.forced then
    match n.driver with
    | some .nestedLoopSecond => ⟨.nestedLoopBlockedOuterSecond, [a, b]⟩
    | _ => ⟨.nestedLoopBlockedOuterFirst, [a, b]⟩
  else if n.copiesSecond sizeOf a b then
    ⟨.nestedLoopBlockedOuterSecond, [a, b.withShip .broadcast]⟩
  else ⟨.nestedLoopBlockedOuterFirst, [a.withShip .broadcast, b]⟩

/-- A co-group runs on two grouped channels partitioned alike. -/
def coGroupAlternative (n : Node) (a b : Channel (Plan α)) : Alternative α :=
  let (a, b) := coPartition a b (n.keyList 0) (n.keyList 1)
  ⟨.sortedCoGroup, [a.groupedOn (n.keyList 0), b.groupedOn (n.keyList 1)]⟩

/-- The ways in which a node can run on one channel per input; `sizeOf` is the estimated size of a
node's output. -/
def alternatives [Quantity α] (n : Node) (sizeOf : NodeId → Option α)
    (channels : List (Channel (Plan α))) : List (Alternative α) :=
  match n.kind, channels with
  | .operator (.source _), _ => [⟨.dataSource, []⟩]
  | .operator .map, cs => [⟨.map, cs⟩]
  | .operator .sink, cs => [⟨.dataSink, cs⟩]
  | .operator .union, cs => [⟨.union, cs⟩]
  | .sinkJoiner, cs => [⟨.sinkJoiner, cs⟩]
  | .operator .reduce, c :: _ => n.reduceAlternatives c
  | .operator .equiJoin, a :: b :: _ => n.joinAlternatives a b
  | .operator .cross, a :: b :: _ => [n.crossAlternative sizeOf a b]
  | .operator .coGroup, a :: b :: _ => [n.coGroupAlternative a b]
  | _, _ => []

/-! ## §3 The output -/

/-- What an output contract keeps of its input. Data joined with a replicated side lies as the other
side does, so a replicated input survives only if all inputs are replicated. -/
def contractOutput (n : Node) (inputs : List (Channel (Plan α))) (keepOrder : Bool) :
    Placement × Arrangement :=
  match inputs[n.contract.input]? with
  | none => (.any, .unordered)
  | some c =>
    let (placement, arrangement) :=
      outputThrough c.placement c.arrangement n.contract (n.keyFields n.contract.input)
    (if placement.isReplicated && inputs.any (fun i => !i.placement.isReplicated) then .any
      else placement,
      if keepOrder then arrangement else .unordered)

/-- Inputs placed alike keep their placement in a union. -/
def unionPlacement (inputs : List (Channel (Plan α))) : Placement :=
  match inputs with
  | [] => .any
  | first :: rest => if rest.all (·.placement == first.placement) then first.placement else .any

/-- What holds of the output of a node that runs in a given way. -/
def output (n : Node) (alt : Alternative α) : Placement × Arrangement :=
  match n.kind with
  | .operator (.source spec) =>
    match spec.partitionedOn with
    | some (f :: fs) => (.hashed (.ofList (f :: fs)), .unordered)
    | _ => (.any, .unordered)
  | .operator .sink =>
    match alt.inputs with
    | c :: _ => (c.placement, c.arrangement)
    | [] => (.any, .unordered)
  | .operator .equiJoin => n.contractOutput alt.inputs (alt.driver == .sortMerge)
  | .operator .cross => n.contractOutput alt.inputs false
  | .operator .union => (unionPlacement alt.inputs, .unordered)
  | .sinkJoiner => (.any, .unordered)
  | _ => n.contractOutput alt.inputs true

end Node

end FlowPlanner
