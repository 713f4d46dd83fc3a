/-
FlowPlanner.Plan.Strategy — the choices that make a plan physical.

How data travels to its consumer (`Ship`), what is done to it on arrival
(`LocalStrategy`), and how the consumer runs (`Driver`).
-/
import FlowPlanner.FieldSet
import FlowPlanner.Text.Numeral

namespace FlowPlanner

/-- How data travels from a producer to a consumer. -/
inductive Ship where
  /-- It stays where it is. -/
  | forward
  /-- Every instance receives all of it. -/
  | broadcast
  /-- Each record goes to the instance that the hash of these columns names. -/
  | partitionHash (fields : FieldSet)
deriving DecidableEq, Inhabited

/-- What is done to data on arrival, within one instance. -/
inductive LocalStrategy where
  | none
  | sort (fields : List Nat)
deriving DecidableEq, Inhabited

/-- How an operator runs. -/
inductive Driver where
  | dataSource
  | map
  | sortedGroupReduce
  | dataSink
  | hybridHashBuildFirst
  | hybridHashBuildSecond
  | sortMerge
  /-- The first input is the outer side, held in memory block by block. -/
  | nestedLoopBlockedOuterFirst
  | nestedLoopBlockedOuterSecond
  | sortedCoGroup
  | union
  | sinkJoiner
deriving DecidableEq, Repr, Inhabited

/-- The text of a ship strategy, columns ascending. -/
def Ship.text : Ship → String
  | forward => "forward"
  | broadcast => "broadcast"
  | partitionHash fields => "partition_hash" ++ Text.bracketed ", " fields.toList

/-- The text of a local strategy. -/
def LocalStrategy.text : LocalStrategy → String
  | none => "none"
  | sort fields => "sort" ++ Text.bracketed ", " fields

/-- The text of a driver. -/
def Driver.name : Driver → String
  | dataSource => "data_source"
  | map => "map"
  | sortedGroupReduce => "sorted_group_reduce"
  | dataSink => "data_sink"
  | hybridHashBuildFirst => "hybrid_hash_build_first"
  | hybridHashBuildSecond => "hybrid_hash_build_second"
  | sortMerge => "sort_merge"
  | nestedLoopBlockedOuterFirst => "nested_loop_blocked_outer_first"
  | nestedLoopBlockedOuterSecond => "nested_loop_blocked_outer_second"
  | sortedCoGroup => "sorted_cogroup"
  | union => "union"
  | sinkJoiner => "sink_joiner"

/-- All drivers. -/
def Driver.all : List Driver :=
  [dataSource, map, sortedGroupReduce, dataSink, hybridHashBuildFirst, hybridHashBuildSecond,
    sortMerge, nestedLoopBlockedOuterFirst, nestedLoopBlockedOuterSecond, sortedCoGroup, union,
    sinkJoiner]

/-- The driver that a text names. -/
def Driver.ofName? (s : String) : Option Driver := all.find? (·.name == s)

end FlowPlanner
