/-
FlowPlanner.Search — all plans of a node, from the plans of its producers.

Every connection is realized as channels: the producer's plan as it is, and one
channel per request. Of the inputs' channels every combination that agrees on
the forks above is handed to the node's alternatives, and what comes out is
pruned. The candidates of a fork are kept, so that all its consumers read the
same ones. When a limit is reached, every node that has a candidate stops
combining.

A search remembers every plan it made: a plan's number is its place in that
list, so numbers tell plans apart.
-/
import FlowPlanner.Analysis
import FlowPlanner.Plan.Alternative
import FlowPlanner.Search.Dominance

namespace FlowPlanner

/-- How many candidates a node had before and after pruning. -/
structure NodeCount where
  created : Nat := 0
  retained : Nat := 0
deriving DecidableEq, Repr

/-- What a search is about: an analysed graph, the settings, the prices, and the clock, which tells
the milliseconds passed when so many candidates have been made. -/
structure Problem (α : Type) where
  graph : Graph
  analysis : Analysis α
  config : Config
  model : CostModel α
  clock : Nat → Nat := fun _ => 0

/-- The state of a search. -/
structure Search (α : Type) where
  /-- All candidates, in the order they were made. -/
  made : Array (Plan α) := #[]
  /-- How many of them were pruned. -/
  pruned : Nat := 0
  /-- How many combinations disagreed on a fork. -/
  conflicts : Nat := 0
  /-- A limit was reached. -/
  exhausted : Bool := false
  perNode : Table NodeId NodeCount := Table.empty
  /-- The candidates of the forks done so far. -/
  forks : Table NodeId (List (Plan α)) := Table.empty

variable {α : Type}

/-! ## §1 Channels -/

namespace Channel

/-- Ship so that a placement holds, unless it holds or a hint decides. -/
def place (c : Channel (Plan α)) (placement : Placement) : Channel (Plan α) :=
  if c.forced || placement.isMetBy c.placement then c
  else match placement with
    | .any => c
    | .hashed fields => c.withShip (.partitionHash fields)
    | .replicated => c.withShip .broadcast

/-- Sort so that an arrangement holds, unless it holds. -/
def arrange (c : Channel (Plan α)) (arrangement : Arrangement) : Channel (Plan α) :=
  if arrangement.isMetBy c.arrangement then c else c.withLocal (.sort arrangement.sortFields)

/-- Ship and sort as a request asks. -/
def realize (c : Channel (Plan α)) (r : Request α) : Channel (Plan α) :=
  (c.place r.placement).arrange r.arrangement

/-- The list with one more channel, unless the same one is there. -/
def pushUnique (cs : List (Channel (Plan α))) (c : Channel (Plan α)) : List (Channel (Plan α)) :=
  if cs.any (·.isSame c) then cs else cs ++ [c]

end Channel

namespace Problem

/-- The plain channel from a producer's plan over a connection. -/
def baseChannel (p : Problem α) (c : Connection) (producer : Plan α) : Channel (Plan α) :=
  let plain := Channel.forward producer c.id
  let scaled :=
    if (p.graph.node c.source).parallelism == (p.graph.node c.target).parallelism then plain
    else plain.rescale
  match c.forcedShip with
  | some ship => scaled.force ship
  | none => scaled

/-- All channels over a connection: per producer plan the plain one, then one per request. -/
def channels (p : Problem α) (c : Connection) (producers : List (Plan α)) :
    List (Channel (Plan α)) :=
  producers.foldl (fun found producer =>
    let base := p.baseChannel c producer
    ((p.analysis.requestsOver c.id).map base.realize).foldl Channel.pushUnique
      (Channel.pushUnique found base)) []

end Problem

/-! ## §2 Candidates from channels -/

namespace Problem

/-- A limit is reached. -/
def isExhausted (p : Problem α) (s : Search α) : Bool :=
  s.exhausted ||
    (match p.config.budget with
      | some budget => budget ≤ s.made.size
      | none => false) ||
    match p.config.deadlineMs with
    | some deadline => deadline ≤ p.clock s.made.size
    | none => false

/-- Look at the limits; once one is reached the search stays exhausted. -/
def checkLimits (p : Problem α) (s : Search α) : Search α := { s with exhausted := p.isExhausted s }

/-- The choices of a new plan: those at forks open at its node, and itself if its node is a fork. -/
def choicesAt (p : Problem α) (node : NodeId) (id : PlanId) (choices : Choices) : Choices :=
  let above := choices.filterKeys (p.analysis.forkState node).isOpen
  if p.graph.isFork node then above.insert node id else above

variable [Quantity α]

/-- The cost of a node's driver and of the channels that enter it. -/
def ownCost (p : Problem α) (node : Node) (alt : Alternative α) : Cost α :=
  let sizes := alt.inputs.map fun c => p.analysis.estimates c.source.node
  (alt.inputs.foldl (fun cost c =>
    let size := p.analysis.estimates c.source.node
    cost + p.model.shipPrice c.ship size node.parallelism
      + p.model.localPrice c.work size node.memoryBytes) .zero)
    + p.model.driverPrice alt.driver sizes node.memoryBytes

/-- The plan that an alternative becomes. -/
def plan (p : Problem α) (node : Node) (choices : Choices) (id : PlanId) (alt : Alternative α) :
    Plan α :=
  let (placement, arrangement) := node.output alt
  let own := p.ownCost node alt
  { id
    node := node.id
    name := node.name
    driver := alt.driver
    inputs := alt.inputs
    placement
    arrangement
    own
    cumulative := Plan.cumulativeCost own alt.inputs
    choices := p.choicesAt node.id id choices }

/-- The candidates of a node found so far, and the search they were found in. -/
structure Found (α : Type) where
  plans : Array (Plan α) := #[]
  search : Search α

/-- Make one more candidate. -/
def make (p : Problem α) (node : Node) (choices : Choices) (f : Found α) (alt : Alternative α) :
    Found α :=
  let plan := p.plan node choices f.search.made.size alt
  { plans := f.plans.push plan, search := { f.search with made := f.search.made.push plan } }

/-- Go through all combinations of one channel per remaining input, the leftmost input varying
slowest; combinations that disagree on a fork are counted and left out. -/
def combine (p : Problem α) (node : Node) :
    List (List (Channel (Plan α))) → List (Channel (Plan α)) → Choices → Found α → Found α
  | [], chosen, choices, f =>
    (node.alternatives (fun id => (p.analysis.estimates id).size) chosen).foldl
      (p.make node choices) f
  | channels :: rest, chosen, choices, f =>
    channels.foldl (fun f c =>
      let f := if f.plans.isEmpty then f else { f with search := p.checkLimits f.search }
      if !f.plans.isEmpty && f.search.exhausted then f
      else match Choices.merge? choices c.choices with
        | none => { f with search := { f.search with conflicts := f.search.conflicts + 1 } }
        | some merged => combine p node rest (chosen ++ [c]) merged f) f

/-- Note down a node's candidates: how many there were and are, and the list itself for a fork. -/
def record (p : Problem α) (node : NodeId) (created : Nat) (kept : List (Plan α)) (s : Search α) :
    Search α :=
  let before := (s.perNode.find? node).getD {}
  { s with
    perNode := s.perNode.insert node ⟨before.created + created, before.retained + kept.length⟩
    forks := if p.graph.isFork node then s.forks.insert node kept else s.forks }

/-- The candidates of a node, given the channels of its inputs. -/
def settle (p : Problem α) (node : Node) (inputs : List (List (Channel (Plan α)))) (s : Search α) :
    Except Failure (List (Plan α)) × Search α :=
  let f := p.combine node inputs [] Table.empty { search := s }
  if f.plans.isEmpty then (.error (.noFeasiblePlan node.name), f.search)
  else
    let (kept, dropped) :=
      if p.config.prune then
        prune p.model (p.analysis.requestsOn node.id) node.id f.plans.toList
      else (f.plans.toList, 0)
    (.ok kept,
      p.record node.id f.plans.size kept { f.search with pruned := f.search.pruned + dropped })

/-! ## §3 Candidates of a node -/

/-- The channels of some connections, given a way to find the candidates of their sources. -/
def feed (p : Problem α)
    (candidatesOf : NodeId → Search α → Except Failure (List (Plan α)) × Search α) :
    List Connection → Search α → Except Failure (List (List (Channel (Plan α)))) × Search α
  | [], s => (.ok [], s)
  | c :: cs, s =>
    match candidatesOf c.source s with
    | (.error e, s) => (.error e, s)
    | (.ok producers, s) =>
      match p.feed candidatesOf cs s with
      | (.error e, s) => (.error e, s)
      | (.ok rest, s) => (.ok (p.channels c producers :: rest), s)

/-- The candidates of a node whose longest way up has fewer than `depth` connections. -/
def candidatesWithin (p : Problem α) :
    Nat → NodeId → Search α → Except Failure (List (Plan α)) × Search α
  | 0, id, s => (.error (.noFeasiblePlan (p.graph.node id).name), s)
  | depth + 1, id, s =>
    match s.forks.find? id with
    | some plans => (.ok plans, s)
    | none =>
      let node := p.graph.node id
      match p.feed (candidatesWithin p depth) node.inputs s with
      | (.error e, s) => (.error e, s)
      | (.ok inputs, s) => p.settle node inputs s

/-- The candidates of a node; there is at least one, or the search fails. -/
def candidates (p : Problem α) (id : NodeId) (s : Search α) :
    Except Failure (List (Plan α)) × Search α :=
  p.candidatesWithin p.graph.size id s

end Problem

end FlowPlanner
