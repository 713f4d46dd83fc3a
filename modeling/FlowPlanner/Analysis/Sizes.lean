/-
FlowPlanner.Analysis.Sizes — how much data each node puts out.

Four numbers per node, each of which may be unknown. A number that would have
to be computed from an unknown one stays unknown, unless a hint gives it. The
rule of one node (`Node.estimate`) reads the estimates of its producers only, and
producers come first in a graph, so one sweep settles all nodes.
-/
import FlowPlanner.Graph
import FlowPlanner.Quantity

namespace FlowPlanner

/-- What is known about a node's output. -/
structure Estimates (α : Type) where
  records : Option α := none
  keys : Option α := none
  /-- Bytes. -/
  size : Option α := none
  /-- Bytes per record. -/
  width : Option α := none
deriving DecidableEq, Repr, Inhabited

namespace Estimates

variable {α : Type}

/-- Nothing is known. -/
def unknown : Estimates α := {}

variable [Quantity α]

open Quantity

/-- A width is at least one byte, and there are no more keys than records. -/
def clamp (e : Estimates α) : Estimates α :=
  { e with
    width := e.width.map fun w => Quantity.max w (ofNat 1)
    keys := match e.keys, e.records with
      | some k, some n => some (Quantity.min k n)
      | keys, _ => keys }

/-! ## §1 Sources and unions -/

/-- The records of a source: keys times values per key, else what was counted, else bytes over
width. -/
def sourceRecords (stats : SourceStatistics) (sizes : SizeHints) : Option α :=
  match sizes.keyCardinality, sizes.valuesPerKey with
  | some k, some v => some (mul (ofNat k) (ofFloat v))
  | _, _ =>
    match stats.records with
    | some n => some (ofNat n)
    | none => ratio? (stats.bytes.map ofNat) (stats.recordWidth.map ofFloat)

/-- The output of a source. -/
def ofSource (spec : SourceSpec) (sizes : SizeHints) (contract : Contract) : Estimates α :=
  let stats := spec.statistics
  let records : Option α := sourceRecords stats sizes
  let hintedWidth : Option α := sizes.bytesPerRecord.map ofFloat
  let measuredWidth : Option α := stats.recordWidth.map ofFloat
  let size :=
    ((stats.bytes.map ofNat).or (mul? records hintedWidth)).or (mul? records measuredWidth)
  { records
    size
    width := (hintedWidth.or measuredWidth).or (ratio? size records)
    keys := match sizes.keyCardinality with
      | some k => some (ofNat k)
      | none => if contract == .uniqueKey then records else none }

/-- Several outputs taken together. -/
def ofUnion (inputs : List (Estimates α)) : Estimates α :=
  let records := sum? (inputs.map (·.records))
  let size := sum? (inputs.map (·.size))
  { records, size, keys := sum? (inputs.map (·.keys)), width := ratio? size records }

/-! ## §2 Operators with user code -/

/-- How often the user code is called. -/
def calls (kind : NodeKind) (inputs : List (Estimates α)) : Option α :=
  let first := inputs.getD 0 unknown
  let second := inputs.getD 1 unknown
  match kind with
  | .operator .reduce => first.keys
  | .operator .equiJoin =>
    match max? first.keys second.keys, mul? first.records second.records with
    | some k, some pairs => some (div pairs (Quantity.max k (ofNat 1)))
    | _, _ => none
  | .operator .cross => mul? first.records second.records
  | .operator .coGroup => max? first.keys second.keys
  | _ => first.records

/-- The records put out when nothing is said about the user code. -/
def defaultRecords (kind : NodeKind) (inputs : List (Estimates α)) (calls : Option α) : Option α :=
  match kind with
  | .operator .equiJoin | .operator .cross => calls
  | .operator .coGroup => sum? (inputs.map (·.records))
  | _ => (inputs.getD 0 unknown).records

/-- The keys left when key-preserving code puts out `perCall` records per call: below one, a key
stays if one of its calls puts something out. -/
def survivingKeys (processed calls perCall : Option α) : Option α :=
  match processed, perCall with
  | some keys, some a =>
    if Quantity.lt a (ofNat 1) then
      let callsPerKey :=
        if Quantity.lt (ofNat 0) keys then calls.map (div · keys) else some (ofNat 1)
      callsPerKey.map fun c =>
        let p := sub (ofNat 1) (Quantity.pow (sub (ofNat 1) a) c)
        Quantity.max (Quantity.round (mul keys p)) (ofNat 1)
    else some keys
  | processed, _ => processed

/-- The keys in the output of user code, before its records are counted. -/
def derivedKeys (contract : Contract) (sizes : SizeHints) (processed calls : Option α) : Option α :=
  match sizes.keyCardinality with
  | some k => some (ofNat k)
  | none =>
    if contract.isSameKey then survivingKeys processed calls (sizes.recordsPerCall.map ofFloat)
    else if contract.isSuperKey then processed
    else none

/-- The records in the output of user code. -/
def derivedRecords (kind : NodeKind) (sizes : SizeHints) (inputs : List (Estimates α))
    (keys calls : Option α) : Option α :=
  match keys, sizes.valuesPerKey with
  | some k, some v => some (mul k (ofFloat v))
  | _, _ =>
    match sizes.recordsPerCall with
    | some perCall => calls.map (mul · (ofFloat perCall))
    | none => defaultRecords kind inputs calls

/-- The output of an operator with user code. -/
def derived (node : Node) (inputs : List (Estimates α)) : Estimates α :=
  let sizes := node.sizes
  let calls := calls node.kind inputs
  let processed := (inputs.getD node.contract.input unknown).keys
  let keys := derivedKeys node.contract sizes processed calls
  let records := derivedRecords node.kind sizes inputs keys calls
  let width := (sizes.bytesPerRecord.map ofFloat).or
    (ratio? (sum? (inputs.map (·.size))) (sum? (inputs.map (·.records))))
  { records
    width
    keys := if sizes.keyCardinality.isNone && node.contract == .uniqueKey then records else keys
    size := match records, width with
      | some n, some w => some (mul n (Quantity.max w (ofNat 1)))
      | _, _ => none }

end Estimates

/-! ## §3 The sweep -/

variable {α : Type} [Quantity α]

/-- The output of a node, given the outputs of its producers. -/
def Node.estimate (node : Node) (inputs : List (Estimates α)) : Estimates α :=
  (match node.kind with
    | .operator (.source spec) => Estimates.ofSource spec node.sizes node.contract
    | .operator .union | .sinkJoiner => Estimates.ofUnion inputs
    | _ => Estimates.derived node inputs).clamp

/-- The outputs of all nodes, producers first. -/
def Graph.estimates (g : Graph) : Array (Estimates α) :=
  g.nodes.foldl (fun sizes node =>
    sizes.push (node.estimate (node.inputs.map fun c => sizes.getD c.source .unknown))) #[]

end FlowPlanner
