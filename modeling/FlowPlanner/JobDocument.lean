/-
FlowPlanner.JobDocument — the records of a job document, written in YAML.

A document lists operators and may override settings. Settings that it leaves out
are those of the caller. Hints are kept as the data that was written.
-/
import FlowPlanner.Config
import FlowPlanner.Job.Hint
import FlowPlanner.Yaml.Decode

namespace FlowPlanner

open Yaml

/-- Settings that a document overrides. -/
structure ConfigOverrides where
  parallelism : Option Nat := none
  memoryBytes : Option Nat := none
  weights : Option (Weights Float) := none
  prune : Option Bool := none
  budget : Option Nat := none
  deadlineMs : Option Nat := none
  maxRanked : Option Nat := none

/-- The settings of the caller with those of the document on top. -/
def ConfigOverrides.over (o : ConfigOverrides) (base : Config) : Config :=
  { parallelism := o.parallelism.getD base.parallelism
    memoryBytes := o.memoryBytes.getD base.memoryBytes
    weights := o.weights.getD base.weights
    prune := o.prune.getD base.prune
    budget := o.budget.or base.budget
    deadlineMs := o.deadlineMs.or base.deadlineMs
    maxRanked := o.maxRanked.getD base.maxRanked }

/-- An operator as a document writes it: its kind and its source apart, its hints as data. -/
structure OperatorEntry where
  id : OpId
  name : String
  kind : Kind
  inputs : List (List OpId)
  keys : List (List Nat)
  parallelism : Option Nat
  hints : Table String Value
  contract : Contract
  sizes : SizeHints
  source : Option SourceSpec

/-! ## §1 Words -/

/-- The kind that a word names; a source is filled in later. -/
def Kind.ofText? : String → Option Kind
  | "source" => some (.source {})
  | "map" => some .map
  | "reduce" => some .reduce
  | "sink" => some .sink
  | "match" => some .equiJoin
  | "cross" => some .cross
  | "co_group" => some .coGroup
  | "cogroup" => some .coGroup
  | "union" => some .union
  | _ => none

/-! ## §2 Records -/

/-- Column numbers and sizes are of 64 bits. -/
def decodeColumn : Yaml.Node → Decode Nat := decodeNat Text.limit64

/-- Lists of numbers per input position. -/
def decodePositions : Yaml.Node → Decode (List (List Nat)) := decodeList (decodeList decodeColumn)

/-- The weights of a cost. -/
def decodeWeights (n : Yaml.Node) : Decode (Weights Float) := do
  let fields ← decodeFields ["network", "disk", "cpu"] false n
  return {
    network := ← fields.withDefault "network" defaultWeights.network decodeFloat
    disk := ← fields.withDefault "disk" defaultWeights.disk decodeFloat
    cpu := ← fields.withDefault "cpu" defaultWeights.cpu decodeFloat }

/-- The settings of a document. -/
def decodeOverrides (n : Yaml.Node) : Decode ConfigOverrides := do
  let fields ← decodeFields ["default_parallelism", "default_memory_bytes", "cost_weights",
    "prune_dominated", "enumeration_budget", "deadline_ms", "max_ranked_plans"] true n
  return {
    parallelism := ← fields.optional "default_parallelism" (decodeNat Text.limit32)
    memoryBytes := ← fields.optional "default_memory_bytes" (decodeNat Text.limit64)
    weights := ← fields.optional "cost_weights" decodeWeights
    prune := ← fields.optional "prune_dominated" decodeBool
    budget := ← fields.optional "enumeration_budget" (decodeNat Text.limit64)
    deadlineMs := ← fields.optional "deadline_ms" (decodeNat Text.limit64)
    maxRanked := ← fields.optional "max_ranked_plans" (decodeNat Text.limit64) }

/-- What the user knows about an operator's output. -/
def decodeSizes (n : Yaml.Node) : Decode SizeHints := do
  let fields ← decodeFields ["key_cardinality", "avg_values_per_key",
    "avg_records_emitted_per_stub_call", "avg_bytes_per_record"] false n
  return {
    keyCardinality := ← fields.optional "key_cardinality" (decodeNat Text.limit64)
    valuesPerKey := ← fields.optional "avg_values_per_key" decodeFloat
    recordsPerCall := ← fields.optional "avg_records_emitted_per_stub_call" decodeFloat
    bytesPerRecord := ← fields.optional "avg_bytes_per_record" decodeFloat }

/-- What was measured about a source. -/
def decodeStatistics (n : Yaml.Node) : Decode SourceStatistics := do
  let fields ← decodeFields ["num_records", "total_size_bytes", "avg_record_width"] false n
  return {
    records := ← fields.optional "num_records" (decodeNat Text.limit64)
    bytes := ← fields.optional "total_size_bytes" (decodeNat Text.limit64)
    recordWidth := ← fields.optional "avg_record_width" decodeFloat }

/-- A source. -/
def decodeSource (n : Yaml.Node) : Decode SourceSpec := do
  let fields ← decodeFields ["statistics", "partitioned_on"] false n
  return {
    statistics := ← fields.withDefault "statistics" {} decodeStatistics
    partitionedOn := ← fields.optional "partitioned_on" (decodeList decodeColumn) }

/-- How many collections may be nested in a hint: 128 in all, four of them around every hint. -/
def hintDepth : Nat := 124

/-- The hints of an operator as data; the last value of a key stays. -/
def decodeHints (n : Yaml.Node) : Decode (Table String Value) := do
  let entries ← (← decodeMapping n).mapM fun e => do
    return (← decodeText e.1, ← decodeValue hintDepth e.2)
  return Table.ofList entries

/-- One operator. -/
def decodeOperator (n : Yaml.Node) : Decode OperatorEntry := do
  let fields ← decodeFields ["id", "name", "kind", "inputs", "keys", "parallelism", "hints",
    "contract", "compiler_hints", "source"] true n
  return {
    id := ← fields.require "id" (decodeNat Text.limit64)
    name := ← fields.require "name" decodeText
    kind := ← fields.require "kind" (decodeWord Kind.ofText?)
    inputs := ← fields.withDefault "inputs" [] decodePositions
    keys := ← fields.withDefault "keys" [] decodePositions
    parallelism := ← fields.optional "parallelism" (decodeNat Text.limit32)
    hints := ← fields.withDefault "hints" Table.empty decodeHints
    contract := ← fields.withDefault "contract" .none (decodeWord Contract.ofName?)
    sizes := ← fields.withDefault "compiler_hints" {} decodeSizes
    source := ← fields.optional "source" decodeSource }

/-- The whole document: settings, if there are any, and operators. -/
def decodeDocument (n : Yaml.Node) : Decode (ConfigOverrides × List OperatorEntry) := do
  let fields ← decodeFields ["config", "operators"] true n
  let overrides ← fields.optional "config" decodeOverrides
  let operators ← fields.require "operators" (decodeList decodeOperator)
  return (overrides.getD {}, operators)

end FlowPlanner
