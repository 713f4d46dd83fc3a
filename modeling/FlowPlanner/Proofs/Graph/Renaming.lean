/-
FlowPlanner.Proofs.Graph.Renaming — layout and analysis under other operator ids.

A node remembers which operator it stands for and nothing else in a graph does, so the
graph of a renamed job is the graph of the job with that memory renamed
(`Graph.build_rename`). Hints are read without looking at ids, and the node of a producer
is looked up by an id, never compared otherwise. The analysis of the two graphs is one
value (`Analysis.complete_relabel`).
-/
import FlowPlanner.Analysis
import FlowPlanner.Proofs.Graph.Layout
import FlowPlanner.Proofs.Job.Renaming

namespace FlowPlanner

variable {f : OpId → OpId} {s : Set OpId}

/-! ## §1 Faults that name no id -/

section Faults

variable {β γ ε : Type} {φ : ε → ε}

/-- What comes after a step that fails alike fails alike. -/
theorem mapError_bind_self {x : Except ε β} {k : β → Except ε γ} (hx : x.mapError φ = x)
    (hk : ∀ b, (k b).mapError φ = k b) : (x >>= k).mapError φ = x >>= k := by
  cases x with
  | error e => exact congrArg Except.error (Except.error.inj hx)
  | ok b => exact hk b

theorem mapError_mapM_self {g : β → Except ε γ} (hg : ∀ b, (g b).mapError φ = g b) :
    ∀ xs : List β, (xs.mapM g).mapError φ = xs.mapM g
  | [] => rfl
  | x :: xs => by
    rw [List.mapM_cons]
    refine mapError_bind_self (hg x) fun y => ?_
    exact mapError_bind_self (mapError_mapM_self hg xs) fun _ => rfl

end Faults

namespace Operator

theorem shipHint_mapError_rename (op : Operator) (key : String) :
    (op.shipHint key).mapError (Failure.rename f) = op.shipHint key := by
  unfold shipHint
  split
  · rfl
  · split <;> rfl

theorem positiveHint_mapError_rename (op : Operator) (key : String) (limit : Nat) :
    (op.positiveHint key limit).mapError (Failure.rename f) = op.positiveHint key limit := by
  unfold positiveHint
  split
  · rfl
  · split <;> rfl

theorem pins_mapError_rename (op : Operator) (both first second : Option Pin) :
    (op.pins both first second).mapError (Failure.rename f) = op.pins both first second := by
  refine mapError_mapM_self ?_ _
  intro position
  dsimp only
  split <;> rfl

theorem chosenParallelism_mapError_rename (op : Operator) :
    op.chosenParallelism.mapError (Failure.rename f) = op.chosenParallelism := by
  refine mapError_bind_self (op.positiveHint_mapError_rename _ _) fun hint => ?_
  dsimp only
  split <;> rfl

theorem driverHint_mapError_rename (op : Operator) :
    op.driverHint.mapError (Failure.rename f) = op.driverHint := by
  unfold driverHint
  split
  · rfl
  · split
    · rfl
    · split <;> rfl

/-- Hints are read without a look at the id. -/
theorem resolveHints_rename (op : Operator) : (op.rename f).resolveHints = op.resolveHints := by
  simp only [rename, resolveHints, shipHint, pins, chosenParallelism, positiveHint, driverHint,
    keysOf]
  rfl

/-- A hint that is refused is refused under the operator's name, not under its id. -/
theorem resolveHints_mapError_rename (op : Operator) :
    op.resolveHints.mapError (Failure.rename f) = op.resolveHints := by
  refine mapError_bind_self (op.shipHint_mapError_rename _) fun both => ?_
  refine mapError_bind_self (op.shipHint_mapError_rename _) fun first => ?_
  refine mapError_bind_self (op.shipHint_mapError_rename _) fun second => ?_
  split
  · rfl
  · split
    · rfl
    · refine mapError_bind_self (op.pins_mapError_rename _ _ _) fun pins => ?_
      refine mapError_bind_self op.chosenParallelism_mapError_rename fun parallelism => ?_
      refine mapError_bind_self (op.positiveHint_mapError_rename _ _) fun memoryBytes => ?_
      exact mapError_bind_self op.driverHint_mapError_rename fun _ => rfl

end Operator

/-! ## §2 Drafts -/

/-- The node of the renamed operator. -/
def Node.relabel (f : OpId → OpId) (n : Node) : Node := { n with op := n.op.map f }

namespace Draft

/-- The draft with the nodes of renamed operators. -/
def relabel (f : OpId → OpId) (d : Draft) : Draft :=
  { d with
    nodes := d.nodes.map (·.relabel f)
    placed := d.placed.map (Prod.map f id) }

/-- All operators placed so far have their ids in a set. -/
def PlacedIn (s : Set OpId) (d : Draft) : Prop := ∀ e ∈ d.placed, e.1 ∈ s

theorem next_relabel (d : Draft) : (d.relabel f).next = d.next := Array.size_map

theorem push_relabel (d : Draft) (node : Node) (feeds : List Feed) :
    (d.relabel f).push (node.relabel f) feeds = (d.push node feeds).relabel f := by
  unfold push
  rw [next_relabel]
  unfold relabel
  dsimp only
  rw [Array.map_push]
  rfl

theorem lookup_map_fst (hf : Set.InjOn f s) {id : OpId} (hid : id ∈ s) :
    ∀ {placed : List (OpId × NodeId)}, (∀ e ∈ placed, e.1 ∈ s) →
      (placed.map (Prod.map f (fun n => n))).lookup (f id) = placed.lookup id
  | [], _ => rfl
  | e :: placed, h => by
    have ih := lookup_map_fst hf hid fun d hd => h d (List.mem_cons_of_mem e hd)
    have hiff : (f id == f e.1) = (id == e.1) :=
      Bool.eq_iff_iff.2 (by simpa using hf.eq_iff hid (h e List.mem_cons_self))
    rw [List.map_cons]
    show (match f id == f e.1 with
      | true => some e.2
      | false => (placed.map (Prod.map f (fun n => n))).lookup (f id)) = _
    rw [hiff, ih]
    rfl

/-- The node of a producer is found under its new id. -/
theorem nodeOf?_relabel (hf : Set.InjOn f s) {d : Draft} (hd : d.PlacedIn s) {id : OpId}
    (hid : id ∈ s) : (d.relabel f).nodeOf? (f id) = d.nodeOf? id := lookup_map_fst hf hid hd

theorem feedPosition_relabel (hf : Set.InjOn f s) {d : Draft} (hd : d.PlacedIn s) (op : Operator)
    (shell : Node) (pin : Pin) (position : Nat) {producers : List OpId}
    (hproducers : ∀ x ∈ producers, x ∈ s) :
    (d.relabel f).feedPosition (op.rename f) (shell.relabel f) pin position (producers.map f) =
      ((d.feedPosition op shell pin position producers).1.relabel f,
        (d.feedPosition op shell pin position producers).2) := by
  have hsources : (producers.map f).filterMap (d.relabel f).nodeOf? =
      producers.filterMap d.nodeOf? := by
    rw [List.filterMap_map]
    exact List.filterMap_congr fun x hx => nodeOf?_relabel hf hd (hproducers x hx)
  unfold feedPosition
  rw [hsources, next_relabel]
  dsimp only
  rw [show (op.rename f).kind = op.kind from rfl]
  split
  · rfl
  · refine Prod.ext ?_ rfl
    show _ = (d.push _ _).relabel f
    rw [← push_relabel]
    rfl

theorem feedAll_relabel (hf : Set.InjOn f s) (op : Operator) (shell : Node) (pins : List Pin) :
    ∀ {inputs : List (List OpId)} (position : Nat) {d : Draft},
      (∀ producers ∈ inputs, ∀ x ∈ producers, x ∈ s) → d.PlacedIn s →
        feedAll (op.rename f) (shell.relabel f) pins position (inputs.map (·.map f))
            (d.relabel f) =
          ((feedAll op shell pins position inputs d).1.relabel f,
            (feedAll op shell pins position inputs d).2) ∧
        (feedAll op shell pins position inputs d).1.placed = d.placed
  | [], _, _, _, _ => ⟨rfl, rfl⟩
  | producers :: inputs, position, d, hinputs, hd => by
    obtain ⟨hproducers, hinputs⟩ := List.forall_mem_cons.1 hinputs
    have hfirst := feedPosition_relabel hf hd op shell (pins.getD position .unset) position
      hproducers
    have hplaced := placed_feedPosition d op shell (pins.getD position .unset) position producers
    have hd₁ : (d.feedPosition op shell (pins.getD position .unset) position producers).1.PlacedIn
        s := fun e he => hd e (hplaced ▸ he)
    obtain ⟨hrest, hplaced'⟩ := feedAll_relabel hf op shell pins (position + 1) hinputs hd₁
    rw [List.map_cons]
    unfold feedAll
    dsimp only
    rw [hfirst]
    dsimp only
    rw [hrest]
    exact ⟨rfl, hplaced'.trans hplaced⟩

theorem put_relabel (hf : Set.InjOn f s) {d : Draft} (hd : d.PlacedIn s) {op : Operator}
    (hop : ∀ x ∈ op.producers, x ∈ s) (shell : Node) (pins : List Pin) :
    (d.relabel f).put (op.rename f) (shell.relabel f) pins = (d.put op shell pins).relabel f := by
  obtain ⟨hfeeds, -⟩ := feedAll_relabel hf op shell pins 0
    (fun producers hproducers x hx => hop x (List.mem_flatten_of_mem hproducers hx)) hd
  unfold put
  rw [show (op.rename f).inputs = op.inputs.map (·.map f) from rfl, hfeeds]
  dsimp only
  rw [push_relabel, next_relabel]
  rfl

theorem placedIn_put (hf : Set.InjOn f s) {d : Draft} (hd : d.PlacedIn s) {op : Operator}
    (hid : op.id ∈ s) (hop : ∀ x ∈ op.producers, x ∈ s) (shell : Node) (pins : List Pin) :
    (d.put op shell pins).PlacedIn s := by
  obtain ⟨-, hplaced⟩ := feedAll_relabel hf op shell pins 0
    (fun producers hproducers x hx => hop x (List.mem_flatten_of_mem hproducers hx)) hd
  intro e he
  rcases List.mem_cons.1 he with rfl | he
  · exact hid
  · exact hd e (hplaced ▸ he)

/-- Renamed operators are placed as the operators are. -/
theorem placeAll_relabel (hf : Set.InjOn f s) (config : Config) : ∀ {ops : List Operator}
    {d : Draft}, (∀ op ∈ ops, op.id ∈ s ∧ ∀ x ∈ op.producers, x ∈ s) → d.PlacedIn s →
      (ops.map (·.rename f)).foldlM (place config) (d.relabel f) =
        ((ops.foldlM (place config) d).map (·.relabel f)).mapError (Failure.rename f)
  | [], _, _, _ => rfl
  | op :: ops, d, hops, hd => by
    obtain ⟨⟨hid, hop⟩, hops⟩ := List.forall_mem_cons.1 hops
    have hhints := op.resolveHints_mapError_rename (f := f)
    rw [List.map_cons, List.foldlM_cons, List.foldlM_cons, place_eq, place_eq,
      op.resolveHints_rename]
    cases hresolve : op.resolveHints with
    | error e =>
      rw [hresolve] at hhints
      exact congrArg Except.error (Except.error.inj hhints).symm
    | ok hints =>
      have ih := placeAll_relabel hf config hops
        (placedIn_put hf hd hid hop (op.shell config hints) hints.pins)
      rw [← put_relabel hf hd hop] at ih
      exact ih

theorem joinSinks_relabel (config : Config) : ∀ (sinks : List NodeId) (n : Nat) (root : NodeId)
    (d : Draft), joinSinks config n root sinks (d.relabel f) =
      ((joinSinks config n root sinks d).1.relabel f, (joinSinks config n root sinks d).2)
  | [], _, _, _ => rfl
  | sink :: sinks, n, root, d => by
    unfold joinSinks
    rw [next_relabel, ← joinSinks_relabel config sinks, ← push_relabel]
    rfl

end Draft

/-! ## §3 Graphs -/

/-- The graph with the nodes of renamed operators. -/
def Graph.relabel (f : OpId → OpId) (g : Graph) : Graph :=
  { g with nodes := g.nodes.map (·.relabel f) }

theorem Draft.finish_relabel (config : Config) (d : Draft) : (d.relabel f).finish config =
    ((d.finish config).map (·.relabel f)).mapError (Failure.rename f) := by
  unfold finish
  rw [show (d.relabel f).sinks = d.sinks from rfl]
  cases d.sinks with
  | nil => rfl
  | cons first rest =>
    dsimp only
    rw [joinSinks_relabel]
    rfl

/-- The renamed job is laid out as the job is, or refused for the same reason. -/
theorem Graph.build_rename {job : Job} (hf : Set.InjOn f job.ids) (config : Config) :
    Graph.build config (job.rename f) =
      ((Graph.build config job).map (·.relabel f)).mapError (Failure.rename f) := by
  unfold build
  rw [Job.order_rename hf]
  cases job.order with
  | error fault => rfl
  | ok positions =>
    dsimp only [Except.mapError]
    have hops : positions.filterMap (fun i => (job.rename f).operators[i]?) =
        (positions.filterMap fun i => job.operators[i]?).map (·.rename f) := by
      rw [List.map_filterMap]
      refine List.filterMap_congr fun i _ => ?_
      exact List.getElem?_map
    have hids : ∀ op ∈ positions.filterMap (fun i => job.operators[i]?),
        op.id ∈ job.ids ∧ ∀ x ∈ op.producers, x ∈ job.ids := by
      intro op hop
      obtain ⟨i, -, hi⟩ := List.mem_filterMap.1 hop
      have hmem := List.mem_of_getElem? hi
      exact ⟨Job.id_mem_ids hmem, fun x hx => Job.producer_mem_ids hmem hx⟩
    have hplace := Draft.placeAll_relabel hf config (d := {}) hids (fun e he => by simp at he)
    rw [hops]
    rw [show ({} : Draft).relabel f = {} by simp [Draft.relabel]] at hplace
    rw [hplace]
    cases (positions.filterMap fun i => job.operators[i]?).foldlM (Draft.place config) {} with
    | error e => rfl
    | ok d => exact Draft.finish_relabel config d

namespace Graph

variable (g : Graph)

theorem node_relabel (id : NodeId) : (g.relabel f).node id = (g.node id).relabel f := by
  unfold node relabel
  rw [Array.getD_eq_getD_getElem?, Array.getD_eq_getD_getElem?, Array.getElem?_map]
  cases g.nodes[id]? <;> rfl

theorem connections_relabel : (g.relabel f).connections = g.connections := by
  unfold connections relabel
  rw [Array.toList_map, List.flatMap_map]
  rfl

theorem outgoing_relabel (id : NodeId) : (g.relabel f).outgoing id = g.outgoing id := by
  unfold outgoing
  rw [connections_relabel]

theorem isFork_relabel (id : NodeId) : (g.relabel f).isFork id = g.isFork id := by
  unfold isFork
  rw [outgoing_relabel]

theorem forkStates_relabel : (g.relabel f).forkStates = g.forkStates := by
  have hstate : ∀ states (node : Node),
      (g.relabel f).forkState states (node.relabel f) = g.forkState states node := by
    intro states node
    unfold forkState branchesOver isClosedBy
    simp only [isFork_relabel, outgoing_relabel]
    rfl
  unfold forkStates
  rw [show (g.relabel f).nodes = g.nodes.map (·.relabel f) from rfl, Array.foldl_map]
  simp only [hstate]

variable {α : Type} [Quantity α]

theorem estimates_relabel : (g.relabel f).estimates = (g.estimates : Array (Estimates α)) := by
  unfold estimates
  rw [show (g.relabel f).nodes = g.nodes.map (·.relabel f) from rfl, Array.foldl_map]
  rfl

omit [Quantity α] in
theorem requestedOf_relabel (demand : Demand α) (id : NodeId) :
    (g.relabel f).requestedOf demand id = g.requestedOf demand id := by
  unfold requestedOf
  rw [outgoing_relabel]

theorem demand_relabel (model : CostModel α) (sizes : Array (Estimates α)) :
    (g.relabel f).demand model sizes = g.demand model sizes := by
  have hask : ∀ (node : Node) demand,
      (g.relabel f).ask model sizes (node.relabel f) demand = g.ask model sizes node demand := by
    intro node demand
    unfold ask
    rw [show (node.relabel f).id = node.id from rfl, requestedOf_relabel]
    rfl
  unfold demand
  rw [connections_relabel, show (g.relabel f).nodes = g.nodes.map (·.relabel f) from rfl,
    Array.toList_map, List.foldr_map]
  simp only [hask]

/-- What is found out about a graph does not depend on which operators its nodes stand for. -/
theorem complete_relabel (model : CostModel α) :
    Analysis.complete (g.relabel f) model = Analysis.complete g model := by
  unfold Analysis.complete Analysis.propagate Analysis.track Analysis.estimate
  dsimp only
  rw [estimates_relabel, forkStates_relabel, demand_relabel,
    show (g.relabel f).nodes = g.nodes.map (·.relabel f) from rfl, Array.toList_map, List.map_map]
  simp only [Function.comp_def, requestedOf_relabel]
  rfl

end Graph

end FlowPlanner
