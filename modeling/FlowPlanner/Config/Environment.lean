/-
FlowPlanner.Config.Environment — settings taken from environment variables.

Each variable sets one field; a value that does not read as the field's type is
ignored.
-/
import FlowPlanner.Config
import FlowPlanner.Decimal.Numeral

namespace FlowPlanner.Config

/-- `true` or `false`, spelled exactly so. -/
def boolean? (s : String) : Option Bool :=
  if s == "true" then some true else if s == "false" then some false else none

/-- The defaults, overlaid with the variables that are set; `lookup` gives a variable's value. -/
def ofEnvironment (lookup : String → Option String) : Config :=
  let base : Config := {}
  let number := fun (limit : Nat) (name : String) => (lookup name).bind (Text.unsigned? limit)
  let weight := fun (name : String) => (lookup name).bind Decimal.float?
  { parallelism := (number Text.limit32 "DAGOPT_DEFAULT_PARALLELISM").getD base.parallelism
    memoryBytes := (number Text.limit64 "DAGOPT_DEFAULT_MEMORY_BYTES").getD base.memoryBytes
    weights :=
      { network := (weight "DAGOPT_NETWORK_WEIGHT").getD base.weights.network
        disk := (weight "DAGOPT_DISK_WEIGHT").getD base.weights.disk
        cpu := (weight "DAGOPT_CPU_WEIGHT").getD base.weights.cpu }
    prune := ((lookup "DAGOPT_PRUNE_DOMINATED").bind boolean?).getD base.prune
    budget := (number Text.limit64 "DAGOPT_ENUMERATION_BUDGET").or base.budget
    deadlineMs := (number Text.limit64 "DAGOPT_DEADLINE_MS").or base.deadlineMs
    maxRanked := (number Text.limit64 "DAGOPT_MAX_RANKED_PLANS").getD base.maxRanked }

end FlowPlanner.Config
