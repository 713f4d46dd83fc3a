/-
FlowPlanner.Failure — why a job has no plan.

Failures are causes: each constructor names what is wrong and with what.
`Failure.message` is the only place where a cause becomes text.
-/
import FlowPlanner.Decimal.Layout
import FlowPlanner.Job.Operator

namespace FlowPlanner

/-- What is wrong with the shape of a job. -/
inductive TopologyFault where
  | duplicateId (id : OpId)
  | arity (kind name : String) (expected got : Nat)
  | emptyInput (position : Nat) (name : String)
  | missingKeys (kind name : String)
  | keyWidths (name : String)
  | unknownProducer (name : String) (id : OpId)
  | sinkConsumed (sink consumer : String)
  | noConsumer (name : String)
  | noSink
  | cycle
deriving DecidableEq, Repr

/-- What is wrong with an operator's hints. -/
inductive HintFault where
  | unknownShip (value key : String)
  | shipWithoutInputs
  | secondInputMissing
  | partitionWithoutKeys (position : Nat)
  | zeroParallelism
  | notPositive (key value : String)
  | unknownStrategy (value : String)
  | strategyMismatch (value kind : String)
deriving DecidableEq, Repr

/-- What is wrong with a configuration. -/
inductive ConfigFault where
  | zeroParallelism
  | zeroMemory
  | badWeight (name : String) (value : Float)
  | zeroRankedPlans

/-- What is wrong with a job document. -/
inductive DocumentFault where
  /-- The text is not a document of the right form. -/
  | unreadable
  | straySource (name : String)
  | hintNotScalar (hint name got : String)
deriving DecidableEq, Repr

/-- Why no plan was made. -/
inductive Failure where
  | topology (fault : TopologyFault)
  | hint (operator : String) (fault : HintFault)
  | noFeasiblePlan (node : String)
  | config (fault : ConfigFault)
  | document (fault : DocumentFault)

/-- Operator numbers in messages. -/
def opText (id : OpId) : String := s!"OpId({id})"

def TopologyFault.message : TopologyFault → String
  | duplicateId id => s!"duplicate operator id {opText id}"
  | arity kind name expected got =>
    s!"{kind} '{name}' expects {expected} input position(s), got {got}"
  | emptyInput position name => s!"input {position} of '{name}' has no producer"
  | missingKeys kind name => s!"{kind} '{name}' requires key fields on every input"
  | keyWidths name => s!"'{name}' declares key selectors of different width"
  | unknownProducer name id => s!"operator '{name}' reads from unknown operator {opText id}"
  | sinkConsumed sink consumer => s!"sink '{sink}' has a consumer '{consumer}'"
  | noConsumer name => s!"operator '{name}' has no consumer and is not a sink"
  | noSink => "the DAG has no sink"
  | cycle => "the DAG contains a cycle"

def HintFault.message : HintFault → String
  | unknownShip value key => s!"unrecognized value '{value}' for hint '{key}'"
  | shipWithoutInputs => "ship strategy hints do not apply to an operator without inputs"
  | secondInputMissing => "'ship_strategy.second' given for a single-input operator"
  | partitionWithoutKeys position => s!"repartitioning input {position} requires key fields"
  | zeroParallelism => "parallelism must be at least 1"
  | notPositive key value => s!"hint '{key}' expects a positive integer, got '{value}'"
  | unknownStrategy value => s!"unrecognized local strategy '{value}'"
  | strategyMismatch value kind => s!"local strategy '{value}' does not apply to a {kind}"

/-- Weights in messages: all digits written out, never an exponent. -/
def weightLayout : Decimal.Layout where
  positional := none
  wholePoint := false
  signedExponent := false
  tie := .up
  notANumber := "NaN"
  infinity := "inf"
  negativeInfinity := "-inf"

def ConfigFault.message : ConfigFault → String
  | zeroParallelism => "default_parallelism must be at least 1"
  | zeroMemory => "default_memory_bytes must be positive"
  | badWeight name value =>
    s!"cost weight '{name}' must be a finite non-negative number, got " ++ weightLayout.render value
  | zeroRankedPlans => "max_ranked_plans must be at least 1"

def DocumentFault.message : DocumentFault → String
  | unreadable => "unreadable document"
  | straySource name => s!"operator '{name}' is not a source but declares 'source'"
  | hintNotScalar hint name got => s!"hint '{hint}' on '{name}' must be a scalar, got {got}"

/-- The text of a failure. -/
def Failure.message : Failure → String
  | topology fault => s!"unsupported topology: {fault.message}"
  | hint operator fault => s!"conflicting configuration on '{operator}': {fault.message}"
  | noFeasiblePlan node => s!"no feasible plan for node '{node}'"
  | config fault => s!"invalid optimizer configuration: {fault.message}"
  | document fault => s!"DAG document error: {fault.message}"

end FlowPlanner
