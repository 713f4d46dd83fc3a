/-
FlowPlanner.Job.Operator — the operators of a job, as a front end declares them.

An operator has a kind, the producers of each input position, key columns per
position, text hints and an output contract. Several producers at one position
mean that the position reads the union of them.
-/
import FlowPlanner.Table

namespace FlowPlanner

/-- The front end's number for an operator. -/
abbrev OpId := Nat

/-- What an operator's user code promises about the keys of its output. -/
inductive Contract where
  | none
  /-- Every output record keeps the key of the record it came from. -/
  | sameKey
  /-- Output keys contain the input keys. -/
  | superKey
  /-- Every output record has a key of its own. -/
  | uniqueKey
  | sameKeyFirst
  | sameKeySecond
  | superKeyFirst
  | superKeySecond
deriving DecidableEq, Repr, Inhabited

namespace Contract

/-- The contract promises unchanged keys. -/
def isSameKey : Contract → Bool
  | sameKey | sameKeyFirst | sameKeySecond => true
  | _ => false

/-- The contract promises extended keys. -/
def isSuperKey : Contract → Bool
  | superKey | superKeyFirst | superKeySecond => true
  | _ => false

/-- Physical properties may survive the operator. -/
def preservesKeys (c : Contract) : Bool := c.isSameKey || c.isSuperKey

/-- The input position that the contract speaks of; the first unless it says the second. -/
def input : Contract → Nat
  | sameKeySecond | superKeySecond => 1
  | _ => 0

/-- The word for a contract. -/
def name : Contract → String
  | none => "none"
  | sameKey => "same_key"
  | superKey => "super_key"
  | uniqueKey => "unique_key"
  | sameKeyFirst => "same_key_first"
  | sameKeySecond => "same_key_second"
  | superKeyFirst => "super_key_first"
  | superKeySecond => "super_key_second"

/-- The contract that a word names. -/
def ofName? : String → Option Contract
  | "none" => some none
  | "same_key" => some sameKey
  | "super_key" => some superKey
  | "unique_key" => some uniqueKey
  | "same_key_first" => some sameKeyFirst
  | "same_key_second" => some sameKeySecond
  | "super_key_first" => some superKeyFirst
  | "super_key_second" => some superKeySecond
  | _ => Option.none

@[simp] theorem ofName?_name (c : Contract) : ofName? c.name = some c := by cases c <;> rfl

end Contract

/-- What the user knows about an operator's output, each part optional. -/
structure SizeHints where
  keyCardinality : Option Nat := none
  valuesPerKey : Option Float := none
  recordsPerCall : Option Float := none
  bytesPerRecord : Option Float := none
deriving Inhabited

/-- What was measured about a source's data. -/
structure SourceStatistics where
  records : Option Nat := none
  bytes : Option Nat := none
  recordWidth : Option Float := none
deriving Inhabited

/-- A source: its statistics, and the columns its data is already partitioned on. -/
structure SourceSpec where
  statistics : SourceStatistics := {}
  partitionedOn : Option (List Nat) := none
deriving Inhabited

/-- The kinds of operators. -/
inductive Kind where
  | source (spec : SourceSpec)
  | map
  | reduce
  | sink
  /-- Records of both inputs with equal keys are paired. -/
  | equiJoin
  | cross
  | coGroup
  | union
deriving Inhabited

namespace Kind

/-- The number of input positions. -/
def arity : Kind → Nat
  | source _ => 0
  | map | reduce | sink | union => 1
  | equiJoin | cross | coGroup => 2

/-- The kind is defined over key columns. -/
def requiresKeys : Kind → Bool
  | reduce | equiJoin | coGroup => true
  | _ => false

/-- The name in messages and descriptions. -/
def name : Kind → String
  | source _ => "source"
  | map => "map"
  | reduce => "reduce"
  | sink => "sink"
  | equiJoin => "match"
  | cross => "cross"
  | coGroup => "cogroup"
  | union => "union"

/-- The kind ends a job. -/
def isSink : Kind → Bool
  | sink => true
  | _ => false

/-- The kind is a declared union. -/
def isUnion : Kind → Bool
  | union => true
  | _ => false

end Kind

/-- One operator of a job. -/
structure Operator where
  id : OpId
  name : String
  kind : Kind
  /-- The producers of each input position. -/
  inputs : List (List OpId) := []
  /-- The key columns of each input position. -/
  keys : List (List Nat) := []
  parallelism : Option Nat := none
  hints : Table String String := Table.empty
  contract : Contract := .none
  sizes : SizeHints := {}

namespace Operator

/-- The key columns of an input position; none where none are declared. -/
def keysOf (op : Operator) (position : Nat) : List Nat := op.keys.getD position []

end Operator

/-- A job: its operators in any order. -/
structure Job where
  operators : List Operator

namespace Job

/-- The first operator with a number. -/
def find? (job : Job) (id : OpId) : Option Operator := job.operators.find? (·.id == id)

/-- The number of operators. -/
def size (job : Job) : Nat := job.operators.length

end Job

end FlowPlanner
