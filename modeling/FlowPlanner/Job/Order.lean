/-
FlowPlanner.Job.Order — the check of a job's shape, and an order of its operators.

`Job.order` either reports the first fault or lists the positions of all
operators, producers first; among the operators that could come next the one
declared first is taken. Every operator counts down the producers it waits for;
what is left on a cycle never comes to be ready.
-/
import FlowPlanner.Failure
import FlowPlanner.FieldSet

namespace FlowPlanner

/-! ## §1 The shape of one operator -/

namespace Operator

/-- The producers of all positions, in order. -/
def producers (op : Operator) : List OpId := op.inputs.flatten

/-- Input positions, producers and key columns are as the kind wants them. -/
def checkShape (op : Operator) : Except TopologyFault Unit :=
  if op.inputs.length != op.kind.arity then
    .error (.arity op.kind.name op.name op.kind.arity op.inputs.length)
  else match op.inputs.findIdx? (·.isEmpty) with
    | some position => .error (.emptyInput position op.name)
    | none =>
      if op.kind.requiresKeys &&
          (List.range op.kind.arity).any (fun i => (op.keysOf i).isEmpty) then
        .error (.missingKeys op.kind.name op.name)
      else if op.kind.arity == 2 && (op.keysOf 0).length != (op.keysOf 1).length then
        .error (.keyWidths op.name)
      else .ok ()

end Operator

/-! ## §2 The operators together -/

namespace Job

/-- The first operator number that an earlier operator has already. -/
def repeated? : List OpId → List Operator → Option OpId
  | _, [] => none
  | seen, op :: ops => if op.id ∈ seen then some op.id else repeated? (op.id :: seen) ops

/-- A producer exists and is no sink. -/
def checkProducer (job : Job) (consumer : Operator) (id : OpId) : Except TopologyFault Unit :=
  match job.find? id with
  | none => .error (.unknownProducer consumer.name id)
  | some producer =>
    if producer.kind.isSink then .error (.sinkConsumed producer.name consumer.name) else .ok ()

/-- The shape and the producers of one operator. -/
def checkOperator (job : Job) (op : Operator) : Except TopologyFault Unit := do
  op.checkShape
  op.producers.forM (job.checkProducer op)

/-- Some operator reads from this one. -/
def isConsumed (job : Job) (id : OpId) : Bool := job.operators.any fun op => id ∈ op.producers

/-- The first operator that is no sink and that nothing reads from. -/
def unconsumed? (job : Job) : Option Operator :=
  job.operators.find? fun op => !op.kind.isSink && !job.isConsumed op.id

/-! ## §3 The order -/

/-- The operators with their positions. -/
def indexed (job : Job) : List (Nat × Operator) := (List.range job.size).zip job.operators

/-- The position of the operator with a number. -/
def position? (job : Job) (id : OpId) : Option Nat := job.operators.findIdx? (·.id == id)

/-- The positions of the operators that read from the one at `producer`, as often as they list
it. -/
def readersOf (job : Job) (producer : Nat) : List Nat :=
  job.indexed.flatMap fun w =>
    (w.2.producers.filter fun id => job.position? id == some producer).map fun _ => w.1

/-- The operators still to be placed. -/
structure Countdown where
  /-- By position: how many producers are still to be placed, repeats counted. -/
  missing : List Nat
  /-- The positions at which none is missing any more, ascending. -/
  ready : List Nat

namespace Countdown

/-- Nothing is placed yet. -/
def start (job : Job) : Countdown :=
  let missing := job.operators.map (·.producers.length)
  { missing, ready := (List.range job.size).filter fun i => missing[i]? == some 0 }

/-- One producer of a reader was placed; the last one makes the reader ready. A reader that misses
none has no count to lower. -/
def lower (s : Countdown) (reader : Nat) : Option Countdown :=
  match s.missing[reader]? with
  | some (n + 1) =>
    some { missing := s.missing.set reader n
           ready := if n == 0 then FieldSet.insertSorted reader s.ready else s.ready }
  | _ => none

/-- Place ready operators one after the other, always the one declared first, and lower the counts
of its readers. Nothing comes of it if some count could not be lowered, or if `rounds`, which
bounds the number of placements, was too small. -/
def run (job : Job) : Nat → Countdown → Option (List Nat)
  | 0, s => if s.ready.isEmpty then some [] else none
  | rounds + 1, s =>
    match s.ready with
    | [] => some []
    | next :: rest => do
      let s ← (job.readersOf next).foldlM lower { s with ready := rest }
      let placed ← run job rounds s
      return next :: placed

end Countdown

/-- The positions of all operators that come to be ready, in the order in which they are placed. -/
def countdown (job : Job) : Option (List Nat) := Countdown.run job job.size (.start job)

/-- The positions of all operators, producers first, or the first fault. -/
def order (job : Job) : Except TopologyFault (List Nat) :=
  match repeated? [] job.operators with
  | some id => .error (.duplicateId id)
  | none => do
    job.operators.forM job.checkOperator
    match job.unconsumed? with
    | some op => .error (.noConsumer op.name)
    | none =>
      if !job.operators.any (·.kind.isSink) then .error .noSink
      else match job.countdown with
        | some positions =>
          if positions.length == job.size then .ok positions else .error .cycle
        | none => .error .cycle

end Job

end FlowPlanner
