/-
FlowPlanner.Job.Hint — the text hints of an operator, read once.

Hints force a ship strategy (for all inputs or for one), a parallelism, a
working memory or a driver. A hint for one input wins over the hint for all.
Values are trimmed; a value that is not understood, or a hint that cannot apply,
is a fault. Hints with other keys are ignored.
-/
import FlowPlanner.Failure
import FlowPlanner.Text.Blank
import FlowPlanner.Text.Numeral

namespace FlowPlanner

/-- What a hint forces on the channel of an input. -/
inductive Pin where
  | unset
  | forward
  | broadcast
  | partitionHash
deriving DecidableEq, Repr, Inhabited

/-- A driver forced by a hint. -/
inductive DriverHint where
  | sort
  | hashBuildFirst
  | hashBuildSecond
  | sortMerge
  | nestedLoopFirst
  | nestedLoopSecond
deriving DecidableEq, Repr

/-- The hints of one operator, understood. -/
structure ResolvedHints where
  parallelism : Option Nat
  memoryBytes : Option Nat
  driver : Option DriverHint
  /-- One pin per input position. -/
  pins : List Pin
deriving DecidableEq, Repr

namespace Pin

/-- The word for a pin. -/
def name : Pin → String
  | unset => "unset"
  | forward => "forward"
  | broadcast => "broadcast"
  | partitionHash => "partition_hash"

/-- The pin that a hint's value names; partitioning is called repartitioning there. -/
def ofText? : String → Option Pin
  | "forward" => some forward
  | "broadcast" => some broadcast
  | "repartition" => some partitionHash
  | _ => none

end Pin

namespace DriverHint

/-- The word for a driver. -/
def name : DriverHint → String
  | sort => "sort"
  | hashBuildFirst => "hash_build_first"
  | hashBuildSecond => "hash_build_second"
  | sortMerge => "sort_merge"
  | nestedLoopFirst => "nested_loop_first"
  | nestedLoopSecond => "nested_loop_second"

/-- The driver that a word names. -/
def ofName? : String → Option DriverHint
  | "sort" => some sort
  | "hash_build_first" => some hashBuildFirst
  | "hash_build_second" => some hashBuildSecond
  | "sort_merge" => some sortMerge
  | "nested_loop_first" => some nestedLoopFirst
  | "nested_loop_second" => some nestedLoopSecond
  | _ => none

@[simp] theorem ofName?_name (d : DriverHint) : ofName? d.name = some d := by cases d <;> rfl

/-- The kinds of operators that have this driver. -/
def appliesTo : DriverHint → Kind → Bool
  | sort, .reduce | sort, .coGroup => true
  | hashBuildFirst, .equiJoin | hashBuildSecond, .equiJoin | sortMerge, .equiJoin => true
  | nestedLoopFirst, .cross | nestedLoopSecond, .cross => true
  | _, _ => false

end DriverHint

namespace Operator

/-- The ship hint under a key, if there is one. -/
def shipHint (op : Operator) (key : String) : Except Failure (Option Pin) :=
  match op.hints.find? key with
  | none => .ok none
  | some value =>
    match Pin.ofText? (Text.trim value) with
    | some pin => .ok (some pin)
    | none => .error (.hint op.name (.unknownShip (Text.trim value) key))

/-- The positive number under a key, if there is one. -/
def positiveHint (op : Operator) (key : String) (limit : Nat) : Except Failure (Option Nat) :=
  match op.hints.find? key with
  | none => .ok none
  | some value =>
    match Text.unsigned? limit (Text.trim value) with
    | some (n + 1) => .ok (some (n + 1))
    | _ => .error (.hint op.name (.notPositive key value))

/-- The pin of one position: its own hint, else the hint for all, else none. -/
def pinAt (both first second : Option Pin) (position : Nat) : Pin :=
  ((if position == 0 then first else second).or both).getD .unset

/-- The pins of all positions; partitioning needs key columns. -/
def pins (op : Operator) (both first second : Option Pin) : Except Failure (List Pin) :=
  (List.range op.kind.arity).mapM fun position =>
    let pin := pinAt both first second position
    if pin == .partitionHash && (op.keysOf position).isEmpty then
      .error (.hint op.name (.partitionWithoutKeys position))
    else .ok pin

/-- The parallelism: the hint, else what the operator declares. -/
def chosenParallelism (op : Operator) : Except Failure (Option Nat) := do
  let chosen := (← op.positiveHint "parallelism" Text.limit32).or op.parallelism
  if chosen == some 0 then .error (.hint op.name .zeroParallelism) else .ok chosen

/-- The driver hint, if there is one; it has to fit the kind of the operator. -/
def driverHint (op : Operator) : Except Failure (Option DriverHint) :=
  match op.hints.find? "local_strategy" with
  | none => .ok none
  | some value =>
    match DriverHint.ofName? (Text.trim value) with
    | none => .error (.hint op.name (.unknownStrategy (Text.trim value)))
    | some hint =>
      if hint.appliesTo op.kind then .ok (some hint)
      else .error (.hint op.name (.strategyMismatch (Text.trim value) op.kind.name))

/-- All hints of an operator; the first fault is reported. -/
def resolveHints (op : Operator) : Except Failure ResolvedHints := do
  let both ← op.shipHint "ship_strategy"
  let first ← op.shipHint "ship_strategy.first"
  let second ← op.shipHint "ship_strategy.second"
  if op.kind.arity == 0 && (both.isSome || first.isSome || second.isSome) then
    .error (.hint op.name .shipWithoutInputs)
  else if op.kind.arity < 2 && second.isSome then
    .error (.hint op.name .secondInputMissing)
  else do
    let pins ← op.pins both first second
    let parallelism ← op.chosenParallelism
    let memoryBytes ← op.positiveHint "memory" Text.limit64
    let driver ← op.driverHint
    return { parallelism, memoryBytes, driver, pins }

end Operator

end FlowPlanner
