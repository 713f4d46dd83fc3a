/-
FlowPlanner.Proofs.Graph.Layout — layout builds well-formed graphs.

Nodes are only ever added at the end, so a draft stays numbered and what reaches
a node keeps reaching it. That everything reaches the root is carried by
`Draft.Pending`: every node reaches a sink, or the node of an operator that one
of the operators still to come reads.
-/
import FlowPlanner.Graph.Build
import FlowPlanner.Proofs.Graph.WellFormed
import FlowPlanner.Proofs.Job.Order

namespace FlowPlanner

namespace Graph

/-- Adding nodes keeps what reaches what. -/
theorem Reaches.mono {g g' : Graph} (hkept : ∀ n < g.size, g'.node n = g.node n) {a b : NodeId}
    (h : g.Reaches a b) : g'.Reaches a b := by
  induction h with
  | refl => exact Reaches.refl g' a
  | tail _ hbc ih =>
    obtain ⟨c, hc, hsource⟩ := hbc
    refine Relation.ReflTransGen.tail ih ⟨c, ?_, hsource⟩
    rw [hkept _ (lt_size_of_mem hc)]
    exact hc

theorem node_of_nodes_eq {g g' : Graph} (h : g'.nodes = g.nodes) (n : NodeId) :
    g'.node n = g.node n := by
  unfold node
  rw [h]

theorem outgoing_of_nodes_eq {g g' : Graph} (h : g'.nodes = g.nodes) (n : NodeId) :
    g'.outgoing n = g.outgoing n := by
  unfold outgoing connections
  rw [h]

/-- Being numbered is a matter of the nodes alone. -/
theorem Numbered.of_nodes_eq {g g' : Graph} (hg : g.Numbered) (h : g'.nodes = g.nodes) :
    g'.Numbered := by
  obtain ⟨nodes, sinks, root⟩ := g
  obtain ⟨nodes', sinks', root'⟩ := g'
  obtain rfl : nodes' = nodes := h
  exact ⟨hg.node_id, hg.source_lt, hg.target_eq, hg.ids, hg.accepted⟩

end Graph

namespace Draft

/-! ## §1 Connections from feeds -/

theorem map_id_connect : ∀ (first : ConnectionId) (target : NodeId) (feeds : List Feed),
    (connect first target feeds).map (·.id) = List.range' first feeds.length
  | _, _, [] => rfl
  | first, target, f :: fs => by
    rw [connect, List.map_cons, map_id_connect (first + 1) target fs, List.length_cons,
      List.range'_succ]

/-- What a connection was before it got its number and its target. -/
def feedOf (c : Connection) : Feed := ⟨c.source, c.position, c.pin, c.keys⟩

theorem map_feedOf_connect : ∀ (first : ConnectionId) (target : NodeId) (feeds : List Feed),
    (connect first target feeds).map feedOf = feeds
  | _, _, [] => rfl
  | first, target, f :: fs => by
    rw [connect, List.map_cons, map_feedOf_connect (first + 1) target fs]
    rfl

theorem map_source_connect (first : ConnectionId) (target : NodeId) (feeds : List Feed) :
    (connect first target feeds).map (·.source) = feeds.map (·.source) := by
  have h := congrArg (List.map (·.source)) (map_feedOf_connect first target feeds)
  rwa [List.map_map] at h

theorem map_position_connect (first : ConnectionId) (target : NodeId) (feeds : List Feed) :
    (connect first target feeds).map (·.position) = feeds.map (·.position) := by
  have h := congrArg (List.map (·.position)) (map_feedOf_connect first target feeds)
  rwa [List.map_map] at h

theorem feedOf_mem {c : Connection} {first : ConnectionId} {target : NodeId} {feeds : List Feed}
    (h : c ∈ connect first target feeds) : feedOf c ∈ feeds := by
  have hmem := List.mem_map_of_mem (f := feedOf) h
  rwa [map_feedOf_connect] at hmem

theorem target_of_mem_connect {c : Connection} : ∀ {first : ConnectionId} {target : NodeId}
    {feeds : List Feed}, c ∈ connect first target feeds → c.target = target
  | first, target, f :: fs, h => by
    rw [connect] at h
    rcases List.mem_cons.1 h with rfl | h
    · rfl
    · exact target_of_mem_connect h

theorem length_connect (first : ConnectionId) (target : NodeId) (feeds : List Feed) :
    (connect first target feeds).length = feeds.length := by
  have h := congrArg List.length (map_source_connect first target feeds)
  simpa using h

/-! ## §2 Adding a node -/

/-- The graph built so far. -/
def graph (d : Draft) : Graph := { nodes := d.nodes, sinks := d.sinks, root := 0 }

/-- What holds of a draft at all times. -/
structure Sound (d : Draft) : Prop where
  numbered : d.graph.Numbered
  count : d.connectionCount = d.graph.connections.length
  placed_lt : ∀ op n, d.nodeOf? op = some n → n < d.next
  sink_lt : ∀ n ∈ d.sinks, n < d.next

theorem next_push (d : Draft) (node : Node) (feeds : List Feed) :
    (d.push node feeds).next = d.next + 1 := by
  simp [push, next]

theorem lt_next_push {d : Draft} {n : NodeId} (h : n < d.next) (node : Node)
    (feeds : List Feed) : n < (d.push node feeds).next := by
  rw [next_push]
  exact Nat.lt_succ_of_lt h

theorem next_lt_next_push (d : Draft) (node : Node) (feeds : List Feed) :
    d.next < (d.push node feeds).next := by
  rw [next_push]
  exact Nat.lt_succ_self _

/-- Only one node is new. -/
theorem lt_or_eq_of_lt_next_push {d : Draft} {n : NodeId} {node : Node} {feeds : List Feed}
    (h : n < (d.push node feeds).next) : n < d.next ∨ n = d.next := by
  rw [next_push] at h
  exact Nat.lt_succ_iff_lt_or_eq.1 h

theorem node_push_of_lt {d : Draft} {n : NodeId} (h : n < d.next) (node : Node)
    (feeds : List Feed) : (d.push node feeds).graph.node n = d.graph.node n := by
  unfold next at h
  simp [push, graph, Graph.node, Array.getElem?_push_lt h, Array.getElem?_eq_getElem h]

theorem node_push_next (d : Draft) (node : Node) (feeds : List Feed) :
    (d.push node feeds).graph.node d.next =
      { node with id := d.next, inputs := connect d.connectionCount d.next feeds } := by
  simp [push, graph, Graph.node, next]

theorem connections_push (d : Draft) (node : Node) (feeds : List Feed) :
    (d.push node feeds).graph.connections =
      d.graph.connections ++ connect d.connectionCount d.next feeds := by
  simp [push, graph, Graph.connections]

theorem sound_empty : Sound {} where
  numbered :=
    { node_id := fun n hn => absurd hn (Nat.not_lt_zero n)
      source_lt := fun n _ hc => absurd (Graph.lt_size_of_mem hc) (Nat.not_lt_zero n)
      target_eq := fun n _ hc => absurd (Graph.lt_size_of_mem hc) (Nat.not_lt_zero n)
      ids := rfl
      accepted := fun n hn => absurd hn (Nat.not_lt_zero n) }
  count := rfl
  placed_lt _ _ h := by simp [nodeOf?] at h
  sink_lt _ h := by simp at h

/-- A node whose sources are there and whose kind accepts its inputs may be added. -/
theorem sound_push {d : Draft} (hd : d.Sound) {node : Node} {feeds : List Feed}
    (hsource : ∀ f ∈ feeds, f.source < d.next)
    (haccept : node.kind.Accepts node.keys (feeds.map (·.position))) :
    (d.push node feeds).Sound := by
  have hinputs : ∀ n, ∀ c ∈ ((d.push node feeds).graph.node n).inputs,
      (n < d.next ∧ c ∈ (d.graph.node n).inputs) ∨
        (n = d.next ∧ c ∈ connect d.connectionCount d.next feeds) := by
    intro n c hc
    rcases lt_or_eq_of_lt_next_push (Graph.lt_size_of_mem hc) with hn | rfl
    · rw [node_push_of_lt hn] at hc
      exact .inl ⟨hn, hc⟩
    · rw [node_push_next] at hc
      exact .inr ⟨rfl, hc⟩
  refine ⟨⟨?_, ?_, ?_, ?_, ?_⟩, ?_, ?_, ?_⟩
  · intro n hn
    rcases lt_or_eq_of_lt_next_push hn with hn | rfl
    · rw [node_push_of_lt hn]
      exact hd.numbered.node_id n hn
    · rw [node_push_next]
  · intro n c hc
    rcases hinputs n c hc with ⟨-, hold⟩ | ⟨rfl, hnew⟩
    · exact hd.numbered.source_lt n c hold
    · exact hsource _ (feedOf_mem hnew)
  · intro n c hc
    rcases hinputs n c hc with ⟨-, hold⟩ | ⟨rfl, hnew⟩
    · exact hd.numbered.target_eq n c hold
    · exact target_of_mem_connect hnew
  · rw [connections_push, List.map_append, hd.numbered.ids, map_id_connect, hd.count,
      List.length_append, length_connect, List.range_eq_range', List.range_eq_range']
    have happend := List.range'_append_1 (s := 0) (m := d.graph.connections.length)
      (n := feeds.length)
    simpa using happend
  · intro n hn
    rcases lt_or_eq_of_lt_next_push hn with hn | rfl
    · rw [node_push_of_lt hn]
      exact hd.numbered.accepted n hn
    · rw [node_push_next]
      simpa [map_position_connect] using haccept
  · rw [connections_push, List.length_append, length_connect, ← hd.count]
    rfl
  · intro op n h
    exact lt_next_push (hd.placed_lt op n h) node feeds
  · intro n h
    exact lt_next_push (hd.sink_lt n h) node feeds

/-- A new node is reached by the sources of its feeds. -/
theorem reaches_push {d : Draft} {n : NodeId} {f : Feed} {feeds : List Feed} (node : Node)
    (hf : f ∈ feeds) (h : d.graph.Reaches n f.source) :
    (d.push node feeds).graph.Reaches n d.next := by
  have hold : (d.push node feeds).graph.Reaches n f.source :=
    h.mono fun m hm => node_push_of_lt hm node feeds
  have hmem : f.source ∈ (connect d.connectionCount d.next feeds).map (·.source) := by
    rw [map_source_connect]
    exact List.mem_map_of_mem hf
  obtain ⟨c, hc, hcf⟩ := List.mem_map.1 hmem
  refine Relation.ReflTransGen.tail hold ⟨c, ?_, hcf⟩
  rw [node_push_next]
  exact hc

/-! ## §3 The feeds of an operator -/

/-- What feeding an operator does to a draft: unions may be added, each of them is read by a feed,
and so is every producer that has been placed. -/
structure Fed (d d' : Draft) (producers : List OpId) (feeds : List Feed) : Prop where
  sound : d'.Sound
  le : d.next ≤ d'.next
  kept : ∀ n < d.next, d'.graph.node n = d.graph.node n
  placed : d'.placed = d.placed
  sinks : d'.sinks = d.sinks
  source_lt : ∀ f ∈ feeds, f.source < d'.next
  fresh : ∀ n, d.next ≤ n → n < d'.next → ∃ f ∈ feeds, d'.graph.Reaches n f.source
  reads : ∀ id ∈ producers, ∀ m, d.nodeOf? id = some m → ∃ f ∈ feeds, d'.graph.Reaches m f.source

theorem Fed.append {d d₁ d₂ : Draft} {p₁ p₂ : List OpId} {f₁ f₂ : List Feed}
    (h₁ : Fed d d₁ p₁ f₁) (h₂ : Fed d₁ d₂ p₂ f₂) : Fed d d₂ (p₁ ++ p₂) (f₁ ++ f₂) where
  sound := h₂.sound
  le := Nat.le_trans h₁.le h₂.le
  kept n hn := by
    rw [h₂.kept n (Nat.lt_of_lt_of_le hn h₁.le), h₁.kept n hn]
  placed := h₂.placed.trans h₁.placed
  sinks := h₂.sinks.trans h₁.sinks
  source_lt f hf := by
    rcases List.mem_append.1 hf with hf | hf
    · exact Nat.lt_of_lt_of_le (h₁.source_lt f hf) h₂.le
    · exact h₂.source_lt f hf
  fresh n hle hlt := by
    by_cases hn : n < d₁.next
    · obtain ⟨f, hf, hreach⟩ := h₁.fresh n hle hn
      exact ⟨f, List.mem_append_left f₂ hf, Graph.Reaches.mono (g := d₁.graph) h₂.kept hreach⟩
    · obtain ⟨f, hf, hreach⟩ := h₂.fresh n (Nat.le_of_not_lt hn) hlt
      exact ⟨f, List.mem_append_right f₁ hf, hreach⟩
  reads id hid m hm := by
    rcases List.mem_append.1 hid with hid | hid
    · obtain ⟨f, hf, hreach⟩ := h₁.reads id hid m hm
      exact ⟨f, List.mem_append_left f₂ hf, Graph.Reaches.mono (g := d₁.graph) h₂.kept hreach⟩
    · have hm' : d₁.nodeOf? id = some m := by
        unfold nodeOf? at hm ⊢
        rw [h₁.placed]
        exact hm
      obtain ⟨f, hf, hreach⟩ := h₂.reads id hid m hm'
      exact ⟨f, List.mem_append_right f₁ hf, hreach⟩

/-- The nodes of placed producers are there. -/
theorem source_lt_of_placed {d : Draft} (hd : d.Sound) {producers : List OpId} {m : NodeId}
    (hm : m ∈ producers.filterMap d.nodeOf?) : m < d.next := by
  obtain ⟨id, -, hid⟩ := List.mem_filterMap.1 hm
  exact hd.placed_lt id m hid

theorem feedPosition_fed {d : Draft} (hd : d.Sound) (op : Operator) (shell : Node) (pin : Pin)
    (position : Nat) (producers : List OpId) :
    Fed d (d.feedPosition op shell pin position producers).1 producers
        (d.feedPosition op shell pin position producers).2 := by
  unfold feedPosition
  dsimp only
  split
  · refine ⟨hd, Nat.le_refl _, fun _ _ => rfl, rfl, rfl, ?_, ?_, ?_⟩
    · intro f hf
      obtain ⟨m, hm, rfl⟩ := List.mem_map.1 hf
      exact source_lt_of_placed hd hm
    · intro n hle hlt
      exact absurd hlt (Nat.not_lt_of_le hle)
    · intro id hid m hm
      have hmem : m ∈ producers.filterMap d.nodeOf? := List.mem_filterMap.2 ⟨id, hid, hm⟩
      exact ⟨_, List.mem_map_of_mem hmem, Graph.Reaches.refl _ m⟩
  · refine ⟨?_, ?_, fun n hn => node_push_of_lt hn _ _, rfl, rfl, ?_, ?_, ?_⟩
    · refine sound_push hd ?_ ?_
      · intro f hf
        obtain ⟨m, hm, rfl⟩ := List.mem_map.1 hf
        exact source_lt_of_placed hd hm
      · refine ⟨by simp [Kind.isUnion], ?_, by simp [Kind.requiresKeys]⟩
        intro _ p hp
        obtain ⟨f, hf, rfl⟩ := List.mem_map.1 hp
        obtain ⟨m, -, rfl⟩ := List.mem_map.1 hf
        rfl
    · rw [next_push]
      exact Nat.le_succ _
    · intro f hf
      obtain rfl := List.mem_singleton.1 hf
      exact next_lt_next_push _ _ _
    · intro n hle hlt
      rcases lt_or_eq_of_lt_next_push hlt with hlt | rfl
      · exact absurd hlt (Nat.not_lt_of_le hle)
      · exact ⟨_, List.mem_singleton.2 rfl, Graph.Reaches.refl _ _⟩
    · intro id hid m hm
      have hmem : m ∈ producers.filterMap d.nodeOf? := List.mem_filterMap.2 ⟨id, hid, hm⟩
      exact ⟨_, List.mem_singleton.2 rfl,
        reaches_push _ (List.mem_map_of_mem hmem) (Graph.Reaches.refl _ m)⟩

theorem placed_feedPosition (d : Draft) (op : Operator) (shell : Node) (pin : Pin) (position : Nat)
    (producers : List OpId) :
    (d.feedPosition op shell pin position producers).1.placed = d.placed := by
  unfold feedPosition
  dsimp only
  split <;> rfl

/-- A position is fed once, unless a declared union reads its producers itself. -/
theorem map_position_feedPosition (d : Draft) (op : Operator) (shell : Node) (pin : Pin)
    (position : Nat) (producers : List OpId) (hop : op.kind.isUnion = false) :
    (d.feedPosition op shell pin position producers).2.map (·.position) = [position] := by
  unfold feedPosition
  dsimp only
  split
  · rename_i h
    simp only [hop, Bool.false_or, beq_iff_eq] at h
    obtain ⟨m, hm⟩ := List.length_eq_one_iff.1 h
    rw [hm]
    rfl
  · rfl

/-- A feed of a position carries what the position has. -/
theorem eq_of_mem_feedPosition {d : Draft} {op : Operator} {shell : Node} {pin : Pin}
    {position : Nat} {producers : List OpId} {f : Feed}
    (hf : f ∈ (d.feedPosition op shell pin position producers).2) :
    f = ⟨f.source, position, pin, op.keysOf position⟩ := by
  unfold feedPosition at hf
  dsimp only at hf
  split at hf
  · obtain ⟨m, -, rfl⟩ := List.mem_map.1 hf
    rfl
  · obtain rfl := List.mem_singleton.1 hf
    rfl

theorem feedAll_fed (op : Operator) (shell : Node) (pins : List Pin) :
    ∀ (inputs : List (List OpId)) (position : Nat) {d : Draft}, d.Sound →
      Fed d (feedAll op shell pins position inputs d).1 inputs.flatten
        (feedAll op shell pins position inputs d).2
  | [], position, d, hd =>
    ⟨hd, Nat.le_refl _, fun _ _ => rfl, rfl, rfl, by simp [feedAll], fun n hle hlt =>
      absurd hlt (Nat.not_lt_of_le hle), by simp⟩
  | producers :: rest, position, d, hd => by
    have h₁ := feedPosition_fed hd op shell (pins.getD position .unset) position producers
    exact h₁.append (feedAll_fed op shell pins rest (position + 1) h₁.sound)

theorem map_position_feedAll {op : Operator} (shell : Node) (pins : List Pin)
    (hop : op.kind.isUnion = false) : ∀ (inputs : List (List OpId)) (position : Nat) (d : Draft),
      (feedAll op shell pins position inputs d).2.map (·.position) =
        List.range' position inputs.length
  | [], _, _ => rfl
  | producers :: rest, position, d => by
    unfold feedAll
    dsimp only
    rw [List.map_append, map_position_feedPosition d op shell _ position producers hop,
      map_position_feedAll shell pins hop rest (position + 1), List.length_cons, List.range'_succ]
    rfl

/-- What is laid out for an operator of the right shape is accepted by its kind. -/
theorem accepts_feedAll {op : Operator} (hshape : op.checkShape = .ok ()) (shell : Node)
    (pins : List Pin) (d : Draft) :
    (NodeKind.operator op.kind).Accepts op.keys
      ((feedAll op shell pins 0 op.inputs d).2.map (·.position)) := by
  unfold Operator.checkShape at hshape
  split at hshape
  · simp at hshape
  · rename_i harity
    have harity' : op.inputs.length = op.kind.arity := by simpa using harity
    refine ⟨?_, ?_, ?_⟩
    · intro hop
      rw [map_position_feedAll shell pins hop, harity', List.range_eq_range']
    · intro hop p hp
      obtain ⟨f, hf, rfl⟩ := List.mem_map.1 hp
      have hone : op.inputs.length = 1 := by
        rw [harity']
        cases hkind : op.kind <;> simp_all [Kind.isUnion, Kind.arity]
      obtain ⟨producers, hinputs⟩ := List.length_eq_one_iff.1 hone
      rw [hinputs] at hf
      simp only [feedAll, List.append_nil] at hf
      rw [eq_of_mem_feedPosition hf]
    · intro hkeys i hi hnil
      split at hshape
      · simp at hshape
      · split at hshape
        · simp at hshape
        · rename_i hmissing
          simp only [hkeys, Bool.true_and, Bool.not_eq_true, List.any_eq_false,
            List.mem_range] at hmissing
          have hsome := hmissing i hi
          rw [Operator.keysOf, hnil] at hsome
          simp at hsome

/-! ## §4 Placing operators -/

/-- Every node reaches a sink, or the node of an operator that one of `ops` reads. -/
def Pending (d : Draft) (ops : List Operator) : Prop :=
  ∀ n < d.next, (∃ m ∈ d.sinks, d.graph.Reaches n m) ∨
    ∃ id m, d.nodeOf? id = some m ∧ d.graph.Reaches n m ∧ ∃ op ∈ ops, id ∈ op.producers

theorem lookup_cons_eq (id op : OpId) (node : NodeId) (placed : List (OpId × NodeId)) :
    ((op, node) :: placed).lookup id = if id = op then some node else placed.lookup id := by
  by_cases h : id = op
  · simp [h]
  · have hbeq : (id == op) = false := by simpa using h
    rw [List.lookup_cons, hbeq, if_neg h]

/-- An operator that was noted down has a node. -/
theorem exists_nodeOf?_of_mem {d : Draft} {id : OpId} (h : id ∈ d.placed.map (·.1)) :
    ∃ m, d.nodeOf? id = some m := by
  rw [← Option.isSome_iff_exists, ← Option.ne_none_iff_isSome]
  intro hnone
  obtain ⟨e, he, rfl⟩ := List.mem_map.1 h
  simpa using List.lookup_eq_none_iff.1 hnone e he

/-- What placing an operator at a node does: whatever it reads and whatever is new reaches the
node. -/
structure Placed (d d' : Draft) (op : Operator) (node : NodeId) : Prop where
  sound : d'.Sound
  kept : ∀ n < d.next, d'.graph.node n = d.graph.node n
  placed : d'.placed = (op.id, node) :: d.placed
  sinks : d'.sinks = if op.kind.isSink then d.sinks ++ [node] else d.sinks
  fresh : ∀ n, d.next ≤ n → n < d'.next → d'.graph.Reaches n node
  reads : ∀ id ∈ op.producers, ∀ m, d.nodeOf? id = some m → d'.graph.Reaches m node

/-- An operator is placed by feeding it, adding its node, and noting the node down. -/
theorem place_ok {config : Config} {d d' : Draft} {op : Operator}
    (h : d.place config op = .ok d') : ∃ hints shell d₁ feeds,
      op.resolveHints = .ok hints ∧ shell.op = some op.id ∧ shell.kind = .operator op.kind ∧
        shell.keys = op.keys ∧ shell.driver = hints.driver ∧
        feedAll op shell hints.pins 0 op.inputs d = (d₁, feeds) ∧
          d' = { d₁.push shell feeds with
                 placed := (op.id, d₁.next) :: d₁.placed
                 sinks := if op.kind.isSink then d₁.sinks ++ [d₁.next] else d₁.sinks } := by
  unfold place at h
  obtain ⟨hints, hhints, h⟩ := exists_ok_of_bind h
  exact ⟨hints, _, _, _, hhints, rfl, rfl, rfl, rfl, rfl, (Except.ok.inj h).symm⟩

end Draft

/-- The node of an operator, still without connections. -/
def Operator.shell (config : Config) (op : Operator) (hints : ResolvedHints) : Node where
  id := 0
  name := op.name
  op := some op.id
  kind := .operator op.kind
  keys := op.keys
  contract := op.contract
  sizes := op.sizes
  parallelism := hints.parallelism.getD config.parallelism
  memoryBytes := hints.memoryBytes.getD config.memoryBytes
  driver := hints.driver

namespace Draft

/-- Feed an operator, add its node, and note the node down. -/
def put (d : Draft) (op : Operator) (shell : Node) (pins : List Pin) : Draft :=
  let fed := feedAll op shell pins 0 op.inputs d
  { fed.1.push shell fed.2 with
    placed := (op.id, fed.1.next) :: fed.1.placed
    sinks := if op.kind.isSink then fed.1.sinks ++ [fed.1.next] else fed.1.sinks }

/-- An operator whose hints are understood is placed. -/
theorem place_eq (config : Config) (d : Draft) (op : Operator) : d.place config op =
    op.resolveHints.map fun hints => d.put op (op.shell config hints) hints.pins := by
  unfold place
  cases op.resolveHints <;> rfl

/-- A node that is there may be noted down for an operator. -/
theorem Sound.note {d : Draft} (hd : d.Sound) {node : NodeId} (hnode : node < d.next) (op : OpId)
    (isSink : Bool) : Sound { d with placed := (op, node) :: d.placed
                                     sinks := if isSink then d.sinks ++ [node] else d.sinks } := by
  refine ⟨hd.numbered.of_nodes_eq rfl, hd.count, ?_, ?_⟩
  · intro id n hid
    have hlookup : (if id = op then some node else d.nodeOf? id) = some n :=
      (lookup_cons_eq id op node d.placed).symm.trans hid
    split at hlookup
    · obtain rfl := Option.some.inj hlookup
      exact hnode
    · exact hd.placed_lt id n hlookup
  · intro n hn
    dsimp only at hn
    split at hn
    · rcases List.mem_append.1 hn with hn | hn
      · exact hd.sink_lt n hn
      · obtain rfl := List.mem_singleton.1 hn
        exact hnode
    · exact hd.sink_lt n hn

theorem place_placed {config : Config} {d d' : Draft} {op : Operator} (hd : d.Sound)
    (hshape : op.checkShape = .ok ()) (h : d.place config op = .ok d') :
    ∃ node, Placed d d' op node := by
  obtain ⟨hints, shell, d₁, feeds, -, -, hkind, hkeys, -, hfeeds, rfl⟩ := place_ok h
  have hfed : Fed d d₁ op.producers feeds := by
    have hfed := feedAll_fed op shell hints.pins op.inputs 0 hd
    rw [hfeeds] at hfed
    exact hfed
  have haccept : shell.kind.Accepts shell.keys (feeds.map (·.position)) := by
    have haccept := accepts_feedAll hshape shell hints.pins d
    rw [hfeeds] at haccept
    rw [hkind, hkeys]
    exact haccept
  have hnext := next_lt_next_push d₁ shell feeds
  refine ⟨d₁.next, (sound_push hfed.sound hfed.source_lt haccept).note hnext op.id op.kind.isSink,
    ?_, ?_, ?_, ?_, ?_⟩
  · intro n hn
    exact (node_push_of_lt (Nat.lt_of_lt_of_le hn hfed.le) shell feeds).trans (hfed.kept n hn)
  · show (op.id, d₁.next) :: d₁.placed = _
    rw [hfed.placed]
  · show (if op.kind.isSink then d₁.sinks ++ [d₁.next] else d₁.sinks) = _
    rw [hfed.sinks]
  · intro n hle hlt
    show (d₁.push shell feeds).graph.Reaches n d₁.next
    rcases lt_or_eq_of_lt_next_push hlt with hn | rfl
    · obtain ⟨f, hf, hreach⟩ := hfed.fresh n hle hn
      exact reaches_push shell hf hreach
    · exact Graph.Reaches.refl _ _
  · intro id hid m hm
    obtain ⟨f, hf, hreach⟩ := hfed.reads id hid m hm
    show (d₁.push shell feeds).graph.Reaches m d₁.next
    exact reaches_push shell hf hreach

/-- The node of an operator, once another one is placed. -/
theorem Placed.nodeOf?_eq {d d' : Draft} {op : Operator} {node : NodeId} (h : Placed d d' op node)
    (id : OpId) : d'.nodeOf? id = if id = op.id then some node else d.nodeOf? id := by
  unfold nodeOf?
  rw [h.placed, lookup_cons_eq]

/-- Placing the next operator settles what waits for it. The new node is a sink, or an operator
still to come reads it. -/
theorem Placed.pending {d d' : Draft} {op : Operator} {node : NodeId} {ops : List Operator}
    (h : Placed d d' op node) (hfresh : d.nodeOf? op.id = none)
    (hread : op.kind.isSink = false → ∃ reader ∈ ops, op.id ∈ reader.producers)
    (hd : d.Pending (op :: ops)) : d'.Pending ops := by
  have hnode : ∀ n, d'.graph.Reaches n node → (∃ m ∈ d'.sinks, d'.graph.Reaches n m) ∨
      ∃ id m, d'.nodeOf? id = some m ∧ d'.graph.Reaches n m ∧ ∃ op ∈ ops, id ∈ op.producers := by
    intro n hn
    cases hkind : op.kind.isSink with
    | true =>
      refine .inl ⟨node, ?_, hn⟩
      rw [h.sinks, hkind]
      simp
    | false =>
      refine .inr ⟨op.id, node, ?_, hn, hread hkind⟩
      rw [h.nodeOf?_eq, if_pos rfl]
  intro n hn
  by_cases hold : n < d.next
  · rcases hd n hold with ⟨m, hm, hreach⟩ | ⟨id, m, hid, hreach, reader, hreader, hmem⟩
    · refine .inl ⟨m, ?_, Graph.Reaches.mono (g := d.graph) h.kept hreach⟩
      rw [h.sinks]
      split
      · exact List.mem_append_left _ hm
      · exact hm
    · have hreach' := Graph.Reaches.mono (g := d.graph) h.kept hreach
      rcases List.mem_cons.1 hreader with rfl | hreader
      · exact hnode n (hreach'.trans (h.reads id hmem m hid))
      · refine .inr ⟨id, m, ?_, hreach', reader, hreader, hmem⟩
        have hne : id ≠ op.id := by
          rintro rfl
          rw [hfresh] at hid
          simp at hid
        rw [h.nodeOf?_eq, if_neg hne, hid]
  · exact hnode n (h.fresh n (Nat.le_of_not_lt hold) hn)

/-- Placing a whole listing: nothing is left waiting. -/
theorem placeAll_ok {config : Config} : ∀ {ops : List Operator} {d d' : Draft}, d.Sound →
    d.Pending ops → (∀ op ∈ ops, op.checkShape = .ok ()) → (ops.map (·.id)).Nodup →
      (∀ op ∈ ops, d.nodeOf? op.id = none) →
        Job.ProducersFirst (d.placed.map (·.1)) ops →
          (∀ op ∈ ops, op.kind.isSink = false → ∃ reader ∈ ops, op.id ∈ reader.producers) →
            ops.foldlM (place config) d = .ok d' → d'.Sound ∧ d'.Pending []
  | [], d, d', hd, hpending, _, _, _, _, _, h => by
    obtain rfl : d = d' := by simpa [pure, Except.pure] using h
    exact ⟨hd, hpending⟩
  | op :: ops, d, d', hd, hpending, hshape, hnodup, hfresh, hfirst, hread, h => by
    rw [List.foldlM_cons] at h
    obtain ⟨d₁, hplace, h⟩ := exists_ok_of_bind h
    obtain ⟨node, hplaced⟩ := place_placed hd (hshape op List.mem_cons_self) hplace
    rw [List.map_cons, List.nodup_cons] at hnodup
    obtain ⟨hop, hnodup⟩ := hnodup
    obtain ⟨hproducers, hfirst⟩ := hfirst
    -- An operator cannot read one that is placed with it or after it.
    have hnot : ∀ id, d.nodeOf? id = none → id ∉ op.producers := by
      intro id hid hmem
      obtain ⟨m, hm⟩ := exists_nodeOf?_of_mem (hproducers id hmem)
      rw [hid] at hm
      simp at hm
    have hread' : ∀ op' ∈ op :: ops, op'.kind.isSink = false →
        ∃ reader ∈ ops, op'.id ∈ reader.producers := by
      intro op' hop' hsink
      obtain ⟨reader, hreader, hmem⟩ := hread op' hop' hsink
      rcases List.mem_cons.1 hreader with rfl | hreader
      · exact absurd hmem (hnot op'.id (hfresh op' hop'))
      · exact ⟨reader, hreader, hmem⟩
    have hpending' := hplaced.pending (hfresh op List.mem_cons_self)
      (hread' op List.mem_cons_self) hpending
    refine placeAll_ok hplaced.sound hpending'
      (fun op' h' => hshape op' (List.mem_cons_of_mem op h')) hnodup ?_ ?_
      (fun op' h' => hread' op' (List.mem_cons_of_mem op h')) h
    · intro op' hop'
      have hne : op'.id ≠ op.id := by
        intro heq
        exact hop (heq ▸ List.mem_map_of_mem hop')
      rw [hplaced.nodeOf?_eq, if_neg hne]
      exact hfresh op' (List.mem_cons_of_mem op hop')
    · rw [hplaced.placed, List.map_cons]
      exact hfirst

/-! ## §5 Tying sinks -/

/-- Two nodes that are there may be tied together. -/
theorem Sound.tie {d : Draft} (hd : d.Sound) {root sink : NodeId} (hroot : root < d.next)
    (hsink : sink < d.next) {joiner : Node} (hkind : joiner.kind = .sinkJoiner) :
    (d.push joiner [⟨root, 0, .unset, []⟩, ⟨sink, 1, .unset, []⟩]).Sound := by
  refine sound_push hd ?_ ?_
  · intro f hf
    rcases List.mem_cons.1 hf with rfl | hf
    · exact hroot
    · obtain rfl := List.mem_singleton.1 hf
      exact hsink
  · rw [hkind]
    rfl

/-- Joiners are added after everything else; whatever reached a tied sink reaches the last one. -/
theorem joinSinks_spec (config : Config) : ∀ {sinks : List NodeId} {i : Nat} {root : NodeId}
    {d : Draft}, d.Sound → root < d.next → (∀ s ∈ sinks, s < d.next) →
      (joinSinks config i root sinks d).1.Sound ∧
        (joinSinks config i root sinks d).2 < (joinSinks config i root sinks d).1.next ∧
          ∀ n < (joinSinks config i root sinks d).1.next,
            (d.next ≤ n ∨ ∃ s, (s = root ∨ s ∈ sinks) ∧ d.graph.Reaches n s) →
              (joinSinks config i root sinks d).1.graph.Reaches n
                (joinSinks config i root sinks d).2
  | [], i, root, d, hd, hroot, _ => by
    refine ⟨hd, hroot, ?_⟩
    intro n hn h
    rcases h with hle | ⟨s, hs, hreach⟩
    · exact absurd hn (Nat.not_lt_of_le hle)
    · obtain rfl : s = root := by simpa using hs
      exact hreach
  | sink :: rest, i, root, d, hd, hroot, hsinks => by
    unfold joinSinks
    dsimp only
    generalize hjoiner : ({ id := 0, name := _, kind := .sinkJoiner, parallelism := _
                            memoryBytes := _ } : Node) = joiner
    generalize hfeeds : [(⟨root, 0, .unset, []⟩ : Feed), ⟨sink, 1, .unset, []⟩] = feeds
    have hsink : sink < d.next := hsinks sink List.mem_cons_self
    have hpush : (d.push joiner feeds).Sound := by
      subst hjoiner hfeeds
      exact hd.tie hroot hsink rfl
    obtain ⟨hsound, hlt, hreach⟩ := @joinSinks_spec config rest (i + 1) d.next _ hpush
      (next_lt_next_push d joiner feeds)
      (fun s hs => lt_next_push (hsinks s (List.mem_cons_of_mem sink hs)) joiner feeds)
    refine ⟨hsound, hlt, ?_⟩
    intro n hn h
    apply hreach n hn
    rcases h with hle | ⟨s, hs, hns⟩
    · rcases Nat.eq_or_lt_of_le hle with rfl | hlt
      · exact .inr ⟨d.next, .inl rfl, Graph.Reaches.refl _ _⟩
      · exact .inl (by
          rw [next_push]
          exact hlt)
    · have hns' : (d.push joiner feeds).graph.Reaches n s :=
        Graph.Reaches.mono (g := d.graph) (fun m hm => node_push_of_lt hm joiner feeds) hns
      -- The old root and the sink tied to it reach the joiner, and so the last one.
      have htied : ∀ f ∈ feeds, f.source = s →
          (d.push joiner feeds).graph.Reaches n d.next := by
        rintro f hf rfl
        exact reaches_push joiner hf hns
      subst hfeeds
      rcases hs with rfl | hs
      · exact .inr ⟨d.next, .inl rfl, htied _ List.mem_cons_self rfl⟩
      · rcases List.mem_cons.1 hs with rfl | hs
        · exact .inr ⟨d.next, .inl rfl, htied _ (List.mem_cons_of_mem _ List.mem_cons_self) rfl⟩
        · exact .inr ⟨s, .inr hs, hns'⟩

end Draft

/-! ## §6 The graph of a job -/

/-- A graph is laid out by placing the operators in order and tying the sinks together. -/
theorem Graph.build_ok_iff {config : Config} {job : Job} {g : Graph} :
    Graph.build config job = .ok g ↔ ∃ positions d first rest, job.order = .ok positions ∧
      (positions.filterMap fun i => job.operators[i]?).foldlM (Draft.place config) {} = .ok d ∧
        d.sinks = first :: rest ∧
          g = { nodes := (Draft.joinSinks config 0 first rest d).1.nodes, sinks := d.sinks
                root := (Draft.joinSinks config 0 first rest d).2 } := by
  unfold Graph.build
  cases horder : job.order with
  | error fault => simp
  | ok positions =>
    dsimp only
    constructor
    · intro h
      obtain ⟨d, hplace, h⟩ := exists_ok_of_bind h
      unfold Draft.finish at h
      split at h
      · simp at h
      · rename_i first rest hsinks
        exact ⟨positions, d, first, rest, rfl, hplace, hsinks, (Except.ok.inj h).symm⟩
    · rintro ⟨_, d, first, rest, hpositions, hplace, hsinks, rfl⟩
      obtain rfl := Except.ok.inj hpositions
      rw [hplace]
      show d.finish config = _
      unfold Draft.finish
      rw [hsinks]

/-- What is laid out is a listing of the operators. -/
theorem Graph.build_ok {config : Config} {job : Job} {g : Graph}
    (h : Graph.build config job = .ok g) : ∃ ops d first rest, Job.Listing ops ∧
      ops.Perm job.operators ∧ ops.foldlM (Draft.place config) {} = .ok d ∧
        d.sinks = first :: rest ∧
          g = { nodes := (Draft.joinSinks config 0 first rest d).1.nodes, sinks := d.sinks
                root := (Draft.joinSinks config 0 first rest d).2 } := by
  obtain ⟨positions, d, first, rest, horder, hplace, hsinks, hg⟩ := build_ok_iff.1 h
  obtain ⟨hlisting, hperm⟩ := Job.listing_of_order horder
  exact ⟨_, d, first, rest, hlisting, hperm, hplace, hsinks, hg⟩

/-- Placing a listing leaves nothing waiting. -/
theorem Draft.placeAll_listing {config : Config} {ops : List Operator} {d : Draft}
    (h : Job.Listing ops) (hplace : ops.foldlM (place config) {} = .ok d) :
    d.Sound ∧ d.Pending [] :=
  placeAll_ok sound_empty (fun n hn => absurd hn (Nat.not_lt_zero n)) h.shaped h.ids_nodup
    (fun _ _ => rfl) h.producers_first h.consumed hplace

/-- Layout builds well-formed graphs only. -/
theorem Graph.wellFormed_of_build {config : Config} {job : Job} {g : Graph}
    (h : Graph.build config job = .ok g) : g.WellFormed := by
  obtain ⟨ops, d, first, rest, hlisting, -, hplace, hsinks, rfl⟩ := build_ok h
  obtain ⟨hd, hpending⟩ := Draft.placeAll_listing hlisting hplace
  obtain ⟨hdone, hroot, hreach⟩ := Draft.joinSinks_spec config (i := 0) hd
    (hd.sink_lt first (by rw [hsinks]; exact List.mem_cons_self))
    (fun s hs => hd.sink_lt s (by rw [hsinks]; exact List.mem_cons_of_mem first hs))
  refine ⟨hdone.numbered.of_nodes_eq rfl, hroot, ?_⟩
  intro n hn
  apply hreach n hn
  by_cases hold : n < d.next
  · rcases hpending n hold with ⟨m, hm, hnm⟩ | ⟨_, _, _, _, op, hop, _⟩
    · rw [hsinks, List.mem_cons] at hm
      exact .inr ⟨m, hm, hnm⟩
    · simp at hop
  · exact .inl (Nat.le_of_not_lt hold)

/-! ## §7 The settings that layout reads -/

theorem Draft.joinSinks_congr {c c' : Config} (hparallelism : c.parallelism = c'.parallelism)
    (hmemory : c.memoryBytes = c'.memoryBytes) : ∀ (sinks : List NodeId) (n : Nat) (root : NodeId)
      (d : Draft), joinSinks c n root sinks d = joinSinks c' n root sinks d
  | [], _, _, _ => rfl
  | sink :: sinks, n, root, d => by
    unfold joinSinks
    dsimp only
    rw [joinSinks_congr hparallelism hmemory sinks, hparallelism, hmemory]

/-- Of the settings layout reads the default parallelism and memory only. -/
theorem Graph.build_congr {c c' : Config} (hparallelism : c.parallelism = c'.parallelism)
    (hmemory : c.memoryBytes = c'.memoryBytes) (job : Job) :
    Graph.build c job = Graph.build c' job := by
  have hplace : Draft.place c = Draft.place c' := by
    funext d op
    unfold Draft.place
    rw [hparallelism, hmemory]
  have hfinish : Draft.finish c = Draft.finish c' := by
    funext d
    unfold Draft.finish
    split
    · rfl
    · dsimp only
      rw [Draft.joinSinks_congr hparallelism hmemory]
  unfold Graph.build
  rw [hplace, hfinish]

end FlowPlanner
