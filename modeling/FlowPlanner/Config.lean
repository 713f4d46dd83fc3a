/-
FlowPlanner.Config — the settings of a run, their defaults and their check.
-/
import FlowPlanner.Failure

namespace FlowPlanner

/-- How the three dimensions of a cost count in its total. -/
structure Weights (α : Type) where
  network : α
  disk : α
  cpu : α

/-- Apply a function to the three weights. -/
def Weights.map {α β : Type} (f : α → β) (w : Weights α) : Weights β :=
  ⟨f w.network, f w.disk, f w.cpu⟩

/-- The default weights: a byte shipped counts ten times a byte spilled. -/
def defaultWeights : Weights Float := ⟨10.0, 1.0, 0.01⟩

/-- The settings of a run. -/
structure Config where
  /-- Parallelism of operators that declare none and carry no hint. -/
  parallelism : Nat := 4
  /-- Working memory of a node without a `memory` hint. -/
  memoryBytes : Nat := 67108864
  weights : Weights Float := defaultWeights
  /-- Drop dominated candidates. -/
  prune : Bool := true
  /-- Upper limit on candidates, beyond which every node keeps its first. -/
  budget : Option Nat := none
  /-- Upper limit on elapsed milliseconds, with the same effect. -/
  deadlineMs : Option Nat := none
  /-- How many root plans are reported. -/
  maxRanked : Nat := 8

namespace Config

/-- A weight is finite and not negative. -/
def isGoodWeight (x : Float) : Bool := x.isFinite && !(x < 0.0)

/-- The first weight that is not good, by name. -/
def badWeight? (w : Weights Float) : Option (String × Float) :=
  [("network", w.network), ("disk", w.disk), ("cpu", w.cpu)].find? fun e => !isGoodWeight e.2

/-- Refuse settings that no run can work with; the first fault is reported. -/
def validate (c : Config) : Except Failure Unit :=
  if c.parallelism == 0 then .error (.config .zeroParallelism)
  else if c.memoryBytes == 0 then .error (.config .zeroMemory)
  else match badWeight? c.weights with
    | some (name, value) => .error (.config (.badWeight name value))
    | none => if c.maxRanked == 0 then .error (.config .zeroRankedPlans) else .ok ()

end Config

end FlowPlanner
