/-
FlowPlanner.Analysis.Forks — which forks are still open at each node.

A fork is a node whose output several connections read. On the way down, each
node knows for every fork above it which of the fork's connections have been
joined so far. When all of them are joined the fork is closed, and plans need no
longer agree on it. The rule of one node (`Graph.forkState`) reads the states of
its producers only.
-/
import FlowPlanner.Graph
import FlowPlanner.Table

namespace FlowPlanner

/-- The part of a fork's output that has been joined. -/
structure Branch where
  fork : NodeId
  /-- Positions among the fork's outgoing connections. -/
  joined : FieldSet
deriving DecidableEq

/-- What a node knows of the forks above it. -/
structure ForkState where
  /-- The forks not yet closed at the node's output, by ascending number. -/
  opened : List Branch := []
  /-- The forks that reach the node by more than one input. -/
  joinedHere : List NodeId := []
  /-- The forks all of whose connections have met at this node. -/
  closedHere : List NodeId := []
deriving DecidableEq, Inhabited

namespace ForkState

/-- The fork is not yet closed at the node's output. -/
def isOpen (s : ForkState) (fork : NodeId) : Bool := s.opened.any (·.fork == fork)

end ForkState

namespace Graph

/-- What a consumer learns over a connection: what its producer knows, and the producer itself if
it is a fork. -/
def branchesOver (g : Graph) (states : Array ForkState) (c : Connection) : List Branch :=
  let inherited := (states.getD c.source {}).opened
  if g.isFork c.source then
    match (g.outgoing c.source).findIdx? (·.id == c.id) with
    | some position => inherited ++ [⟨c.source, .ofList [position]⟩]
    | none => inherited
  else inherited

/-- Per fork, what has been joined and by how many inputs it came. -/
abbrev Meeting := Table NodeId (FieldSet × Nat)

/-- Count in one more branch. -/
def meet (m : Meeting) (b : Branch) : Meeting :=
  match m.find? b.fork with
  | some (joined, seen) => m.insert b.fork (joined.union b.joined, seen + 1)
  | none => m.insert b.fork (b.joined, 1)

/-- All connections of a fork are joined. -/
def isClosedBy (g : Graph) (fork : NodeId) (joined : FieldSet) : Bool :=
  joined.size == (g.outgoing fork).length

/-- What a node knows of the forks above it, given what its producers know. -/
def forkState (g : Graph) (states : Array ForkState) (node : Node) : ForkState :=
  let met := ((node.inputs.flatMap (g.branchesOver states)).foldl meet Table.empty).entries
  { opened := (met.filter fun e => !g.isClosedBy e.1 e.2.1).map fun e => ⟨e.1, e.2.1⟩
    joinedHere := (met.filter fun e => 1 < e.2.2).map (·.1)
    closedHere := (met.filter fun e => g.isClosedBy e.1 e.2.1).map (·.1) }

/-- The states of all nodes, producers first. -/
def forkStates (g : Graph) : Array ForkState :=
  g.nodes.foldl (fun states node => states.push (g.forkState states node)) #[]

end Graph

end FlowPlanner
