/-
FlowPlanner.Graph.Build — laying out a job as a graph.

Operators are placed producers first. Before an operator with several producers
at a position a union node is put in, which the position then reads; a declared
union reads its producers itself. Several sinks are tied together by joiners, so
that one node is reached by everything.
-/
import FlowPlanner.Config
import FlowPlanner.Graph
import FlowPlanner.Job.Order

namespace FlowPlanner

/-- A connection still without its number and target. -/
structure Feed where
  source : NodeId
  position : Nat
  pin : Pin
  keys : List Nat

/-- A graph under construction. -/
structure Draft where
  nodes : Array Node := #[]
  /-- How many connections there are. -/
  connectionCount : Nat := 0
  /-- The node of each operator placed so far. -/
  placed : List (OpId × NodeId) := []
  /-- The sinks so far, the latest last. -/
  sinks : List NodeId := []

namespace Draft

/-- The number that the next node gets. -/
def next (d : Draft) : NodeId := d.nodes.size

/-- The connections that some feeds become, numbered from `first`. -/
def connect (first : ConnectionId) (target : NodeId) : List Feed → List Connection
  | [] => []
  | f :: fs =>
    ⟨first, f.source, target, f.position, f.pin, f.keys⟩ :: connect (first + 1) target fs

/-- Add a node with the connections that enter it. -/
def push (d : Draft) (node : Node) (feeds : List Feed) : Draft :=
  { d with
    nodes := d.nodes.push
      { node with id := d.next, inputs := connect d.connectionCount d.next feeds }
    connectionCount := d.connectionCount + feeds.length }

/-- The node of an operator. -/
def nodeOf? (d : Draft) (op : OpId) : Option NodeId := d.placed.lookup op

/-- The feeds of one input position; several producers of an operator that is no union meet in a
union node of their own. -/
def feedPosition (d : Draft) (op : Operator) (shell : Node) (pin : Pin) (position : Nat)
    (producers : List OpId) : Draft × List Feed :=
  let sources := producers.filterMap d.nodeOf?
  let keys := op.keysOf position
  if op.kind.isUnion || sources.length == 1 then
    (d, sources.map fun s => ⟨s, position, pin, keys⟩)
  else
    let union : Node :=
      { id := 0, name := s!"{op.name}.union{position}", kind := .operator .union,
        parallelism := shell.parallelism, memoryBytes := shell.memoryBytes }
    (d.push union (sources.map fun s => ⟨s, 0, .forward, []⟩), [⟨d.next, position, pin, keys⟩])

/-- The feeds of all input positions from `position` on. -/
def feedAll (op : Operator) (shell : Node) (pins : List Pin) :
    Nat → List (List OpId) → Draft → Draft × List Feed
  | _, [], d => (d, [])
  | position, producers :: rest, d =>
    let (d, feeds) := d.feedPosition op shell (pins.getD position .unset) position producers
    let (d, more) := feedAll op shell pins (position + 1) rest d
    (d, feeds ++ more)

/-- Add an operator, and the unions in front of it. -/
def place (config : Config) (d : Draft) (op : Operator) : Except Failure Draft := do
  let hints ← op.resolveHints
  let shell : Node :=
    { id := 0, name := op.name, op := some op.id, kind := .operator op.kind, keys := op.keys
      contract := op.contract, sizes := op.sizes
      parallelism := hints.parallelism.getD config.parallelism
      memoryBytes := hints.memoryBytes.getD config.memoryBytes
      driver := hints.driver }
  let (d, feeds) := feedAll op shell hints.pins 0 op.inputs d
  let id := d.next
  let d := d.push shell feeds
  return { d with
    placed := (op.id, id) :: d.placed
    sinks := if op.kind.isSink then d.sinks ++ [id] else d.sinks }

/-- Tie the sinks after `root` to it one by one; the last joiner is the new root. -/
def joinSinks (config : Config) : Nat → NodeId → List NodeId → Draft → Draft × NodeId
  | _, root, [], d => (d, root)
  | n, root, sink :: rest, d =>
    let joiner : Node :=
      { id := 0, name := s!"$sink-joiner-{n}", kind := .sinkJoiner
        parallelism := config.parallelism, memoryBytes := config.memoryBytes }
    joinSinks config (n + 1) d.next rest
      (d.push joiner [⟨root, 0, .unset, []⟩, ⟨sink, 1, .unset, []⟩])

/-- The finished graph. -/
def finish (config : Config) (d : Draft) : Except Failure Graph :=
  match d.sinks with
  | [] => .error (.topology .noSink)
  | first :: rest =>
    let (done, root) := joinSinks config 0 first rest d
    .ok { nodes := done.nodes, sinks := d.sinks, root }

end Draft

/-- Check a job and lay it out; the first fault is reported. -/
def Graph.build (config : Config) (job : Job) : Except Failure Graph :=
  match job.order with
  | .error fault => .error (.topology fault)
  | .ok positions => do
    let operators := positions.filterMap fun i => job.operators[i]?
    let draft ← operators.foldlM (Draft.place config) {}
    draft.finish config

end FlowPlanner
