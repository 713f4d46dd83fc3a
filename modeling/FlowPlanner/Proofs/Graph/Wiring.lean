/-
FlowPlanner.Proofs.Graph.Wiring — what nodes read while operators are placed.

A position of an operator with one producer reads the node of that producer; one with
several reads a union that was put in for it, which reads their nodes in order
(`Graph.Delivers`). Once an operator is placed, the unions put in for it are each read
by it, once, and by nothing placed later: what is placed later reads nodes of operators
and unions of its own (`Draft.Leads`). So a draft stays wired as operators are placed
(`Draft.Wired`).
-/
import FlowPlanner.Proofs.Graph.Origin

namespace FlowPlanner

/-! ## §1 What a node delivers -/

namespace Graph

/-- A union that was put in: it forwards what the nodes of some operators give, in their order. -/
structure Joins (g : Graph) (m : NodeId) (ids : List OpId) : Prop where
  op_eq : (g.node m).op = none
  kind_eq : (g.node m).kind = .operator .union
  pinned : ∀ c ∈ (g.node m).inputs, c.pin = .forward
  reads : (g.node m).inputs.map (fun c => (g.node c.source).op) = ids.map some

/-- The node delivers the data of some producers: that of one as its own node, that of several as a
union put in for them. -/
inductive Delivers (g : Graph) (m : NodeId) : List OpId → Prop
  | direct {id : OpId} (h : (g.node m).op = some id) : Delivers g m [id]
  | joined {ids : List OpId} (several : 1 < ids.length) (h : g.Joins m ids) : Delivers g m ids

/-- The node has the kind of the operator and reads what it reads: a declared union reads its
producers itself, any other operator reads one node for each position. -/
structure Wires (g : Graph) (n : NodeId) (op : Operator) : Prop where
  kind_eq : (g.node n).kind = .operator op.kind
  union : op.kind.isUnion = true →
    (g.node n).inputs.map (fun c => (g.node c.source).op) = op.producers.map some
  positions : op.kind.isUnion = false →
    List.Forall₂ (fun c ids => g.Delivers c.source ids) (g.node n).inputs op.inputs

variable {g g' : Graph} {m n : NodeId} {ids : List OpId}

/-- What the sources of a node stand for does not change when nodes are added. -/
theorem map_op_of_kept (hg : g.Numbered) (hkept : ∀ n < g.size, g'.node n = g.node n)
    (hm : m < g.size) : (g'.node m).inputs.map (fun c => (g'.node c.source).op) =
      (g.node m).inputs.map (fun c => (g.node c.source).op) := by
  rw [hkept m hm]
  exact List.map_congr_left fun c hc => by rw [hkept _ (hg.source_lt_size hc)]

theorem Delivers.mono (hg : g.Numbered) (hkept : ∀ n < g.size, g'.node n = g.node n)
    (hm : m < g.size) (h : g.Delivers m ids) : g'.Delivers m ids := by
  cases h with
  | direct h => exact .direct (by rw [hkept m hm, h])
  | joined several h =>
    refine .joined several ⟨?_, ?_, ?_, ?_⟩
    · rw [hkept m hm, h.op_eq]
    · rw [hkept m hm, h.kind_eq]
    · rw [hkept m hm]
      exact h.pinned
    · rw [map_op_of_kept hg hkept hm, h.reads]

theorem Wires.mono (hg : g.Numbered) (hkept : ∀ n < g.size, g'.node n = g.node n)
    (hn : n < g.size) {op : Operator} (h : g.Wires n op) : g'.Wires n op := by
  refine ⟨?_, ?_, ?_⟩
  · rw [hkept n hn, h.kind_eq]
  · intro hunion
    rw [map_op_of_kept hg hkept hn, h.union hunion]
  · intro hunion
    rw [hkept n hn]
    have hsources : ∀ c ∈ (g.node n).inputs, c.source < g.size := fun c hc => hg.source_lt_size hc
    exact ((List.forall₂_and_left _ _).2 ⟨hsources, h.positions hunion⟩).imp
      fun c ids hc => hc.2.mono hg hkept hc.1

end Graph

namespace Draft

/-! ## §2 Connections of a draft -/

theorem length_outgoing_push (d : Draft) (node : Node) (feeds : List Feed) (n : NodeId) :
    ((d.push node feeds).graph.outgoing n).length =
      (d.graph.outgoing n).length + (feeds.map (·.source)).count n := by
  unfold Graph.outgoing
  rw [connections_push, List.filter_append, List.length_append,
    ← map_source_connect d.connectionCount d.next, List.count_eq_countP, List.countP_map,
    List.countP_eq_length_filter]
  rfl

/-- What the sources of a new node stand for. -/
theorem map_op_push {d : Draft} {feeds : List Feed} (hsource : ∀ f ∈ feeds, f.source < d.next)
    (node : Node) : ((d.push node feeds).graph.node d.next).inputs.map
        (fun c => ((d.push node feeds).graph.node c.source).op) =
      feeds.map fun f => (d.graph.node f.source).op := by
  rw [node_push_next]
  calc (connect d.connectionCount d.next feeds).map
        (fun c => ((d.push node feeds).graph.node c.source).op)
      = ((connect d.connectionCount d.next feeds).map (·.source)).map
          fun m => ((d.push node feeds).graph.node m).op := by
        rw [List.map_map]
        rfl
    _ = feeds.map fun f => ((d.push node feeds).graph.node f.source).op := by
        rw [map_source_connect, List.map_map]
        rfl
    _ = feeds.map fun f => (d.graph.node f.source).op :=
        List.map_congr_left fun f hf => by rw [node_push_of_lt (hsource f hf)]

/-- Nothing reads a node that is still to come. -/
theorem Sound.outgoing_of_le {d : Draft} (hd : d.Sound) {n : NodeId} (hn : d.next ≤ n) :
    d.graph.outgoing n = [] := by
  refine List.filter_eq_nil_iff.2 ?_
  intro c hc hsource
  obtain ⟨m, hc⟩ := Graph.mem_connections_iff.1 hc
  have hlt : c.source < d.next := hd.numbered.source_lt_size hc
  rw [beq_iff_eq.1 hsource] at hlt
  exact absurd hlt (Nat.not_lt_of_le hn)

/-- The nodes noted down stand for their operators. -/
def Labelled (d : Draft) : Prop :=
  ∀ id m, d.nodeOf? id = some m → (d.graph.node m).op = some id

/-- Nodes of producers that have all been placed stand for them, in order. -/
theorem Labelled.map_op {d : Draft} (h : d.Labelled) : ∀ {producers : List OpId},
    (∀ id ∈ producers, ∃ m, d.nodeOf? id = some m) →
      (producers.filterMap d.nodeOf?).map (fun m => (d.graph.node m).op) = producers.map some
  | [], _ => rfl
  | id :: ids, hplaced => by
    obtain ⟨m, hm⟩ := hplaced id List.mem_cons_self
    rw [List.filterMap_cons, hm, List.map_cons, List.map_cons, h id m hm,
      h.map_op fun id hid => hplaced id (List.mem_cons_of_mem _ hid)]

/-! ## §3 Feeding an operator -/

/-- The nodes put in to feed an operator are unions, each of them the source of one feed; the other
feeds read nodes of operators, and so do the unions. -/
structure Leads (d d' : Draft) (feeds : List Feed) : Prop where
  put_in : ∀ n, d.next ≤ n → n < d'.next →
    (d'.graph.node n).op = none ∧ (d'.graph.node n).kind = .operator .union
  once : ∀ n, d.next ≤ n → n < d'.next → (feeds.map (·.source)).count n = 1
  labelled : ∀ f ∈ feeds, f.source < d.next → (d.graph.node f.source).op ≠ none
  outgoing : ∀ n, (d'.graph.node n).op = none →
    (d'.graph.outgoing n).length = (d.graph.outgoing n).length

variable {d d' d₁ d₂ : Draft}

theorem Leads.append {p₁ p₂ : List OpId} {f₁ f₂ : List Feed} (h₁ : Leads d d₁ f₁)
    (h₂ : Leads d₁ d₂ f₂) (hfed₁ : Fed d d₁ p₁ f₁) (hfed₂ : Fed d₁ d₂ p₂ f₂) :
    Leads d d₂ (f₁ ++ f₂) := by
  refine ⟨?_, ?_, ?_, ?_⟩
  · intro n hle hlt
    by_cases hn : n < d₁.next
    · rw [hfed₂.kept n hn]
      exact h₁.put_in n hle hn
    · exact h₂.put_in n (Nat.le_of_not_lt hn) hlt
  · intro n hle hlt
    rw [List.map_append, List.count_append]
    by_cases hn : n < d₁.next
    · have hnot : n ∉ f₂.map (·.source) := by
        intro hmem
        obtain ⟨f, hf, rfl⟩ := List.mem_map.1 hmem
        exact h₂.labelled f hf hn (h₁.put_in _ hle hn).1
      rw [h₁.once n hle hn, List.count_eq_zero.2 hnot]
    · have hnot : n ∉ f₁.map (·.source) := by
        intro hmem
        obtain ⟨f, hf, rfl⟩ := List.mem_map.1 hmem
        exact hn (hfed₁.source_lt f hf)
      rw [h₂.once n (Nat.le_of_not_lt hn) hlt, List.count_eq_zero.2 hnot]
  · intro f hf hlt
    rcases List.mem_append.1 hf with hf | hf
    · exact h₁.labelled f hf hlt
    · rw [← hfed₁.kept _ hlt]
      exact h₂.labelled f hf (Nat.lt_of_lt_of_le hlt hfed₁.le)
  · intro n hn
    rw [h₂.outgoing n hn, h₁.outgoing n]
    by_cases hlt : n < d₁.next
    · rw [← hfed₂.kept n hlt]
      exact hn
    · rw [Graph.node_of_size_le (g := d₁.graph) (Nat.le_of_not_lt hlt)]
      rfl

/-- Feeding a position puts in at most a union, which reads nodes of operators. -/
theorem feedPosition_leads (hlabels : d.Labelled) (hd : d.Sound) (op : Operator) (shell : Node)
    (pin : Pin) (position : Nat) (producers : List OpId) :
    Leads d (d.feedPosition op shell pin position producers).1
      (d.feedPosition op shell pin position producers).2 := by
  have hsources : ∀ m ∈ producers.filterMap d.nodeOf?, (d.graph.node m).op ≠ none := by
    intro m hm
    obtain ⟨id, -, hid⟩ := List.mem_filterMap.1 hm
    rw [hlabels id m hid]
    simp
  unfold feedPosition
  dsimp only
  split
  · refine ⟨?_, ?_, ?_, fun _ _ => rfl⟩
    · exact fun n hle hlt => absurd hlt (Nat.not_lt_of_le hle)
    · exact fun n hle hlt => absurd hlt (Nat.not_lt_of_le hle)
    · intro f hf _
      obtain ⟨m, hm, rfl⟩ := List.mem_map.1 hf
      exact hsources m hm
  · refine ⟨?_, ?_, ?_, ?_⟩
    · intro n hle hlt
      rcases lt_or_eq_of_lt_next_push hlt with hlt | rfl
      · exact absurd hlt (Nat.not_lt_of_le hle)
      · rw [node_push_next]
        exact ⟨rfl, rfl⟩
    · intro n hle hlt
      rcases lt_or_eq_of_lt_next_push hlt with hlt | rfl
      · exact absurd hlt (Nat.not_lt_of_le hle)
      · simp
    · intro f hf hlt
      obtain rfl := List.mem_singleton.1 hf
      exact absurd hlt (Nat.lt_irrefl _)
    · intro n hn
      rw [length_outgoing_push, List.map_map, List.count_eq_zero.2, Nat.add_zero]
      intro hmem
      obtain ⟨m, hm, rfl⟩ := List.mem_map.1 hmem
      have hlt : m < d.next := source_lt_of_placed hd hm
      refine hsources m hm ?_
      rw [← hn]
      exact congrArg Node.op (node_push_of_lt hlt _ _).symm

theorem Fed.labelled {producers : List OpId} {feeds : List Feed} (h : Fed d d' producers feeds)
    (hd : d.Sound) (hlabels : d.Labelled) : d'.Labelled := by
  intro id m hid
  have hid' : d.nodeOf? id = some m := by
    unfold nodeOf? at hid ⊢
    rwa [h.placed] at hid
  rw [h.kept m (hd.placed_lt id m hid')]
  exact hlabels id m hid'

theorem feedAll_leads (op : Operator) (shell : Node) (pins : List Pin) :
    ∀ (inputs : List (List OpId)) (position : Nat) {d : Draft}, d.Sound → d.Labelled →
      Leads d (feedAll op shell pins position inputs d).1
        (feedAll op shell pins position inputs d).2
  | [], position, d, _, _ =>
    ⟨fun n hle hlt => absurd hlt (Nat.not_lt_of_le hle),
      fun n hle hlt => absurd hlt (Nat.not_lt_of_le hle), by simp [feedAll], fun _ _ => rfl⟩
  | producers :: rest, position, d, hd, hlabels => by
    have hfed := feedPosition_fed hd op shell (pins.getD position .unset) position producers
    have hrest := feedAll_fed op shell pins rest (position + 1) hfed.sound
    exact (feedPosition_leads hlabels hd op shell _ position producers).append
      (feedAll_leads op shell pins rest (position + 1) hfed.sound (hfed.labelled hd hlabels))
      hfed hrest

/-- A position of an operator that is no union is fed by one node, which delivers what its producers
give. -/
theorem feedPosition_delivers (hlabels : d.Labelled) (hd : d.Sound) {op : Operator}
    (hop : op.kind.isUnion = false) (shell : Node) (pin : Pin) (position : Nat)
    {producers : List OpId} (hne : producers ≠ [])
    (hplaced : ∀ id ∈ producers, ∃ m, d.nodeOf? id = some m) :
    ∃ f, (d.feedPosition op shell pin position producers).2 = [f] ∧
      (d.feedPosition op shell pin position producers).1.graph.Delivers f.source producers := by
  have hlabel := hlabels.map_op hplaced
  have hlength := congrArg List.length hlabel
  rw [List.length_map, List.length_map] at hlength
  unfold feedPosition
  dsimp only
  split
  · rename_i hone
    simp only [hop, Bool.false_or, beq_iff_eq] at hone
    obtain ⟨m, hm⟩ := List.length_eq_one_iff.1 hone
    obtain ⟨id, rfl⟩ := List.length_eq_one_iff.1 (hlength.symm.trans hone)
    rw [hm] at hlabel ⊢
    exact ⟨_, rfl, .direct (List.cons.inj hlabel).1⟩
  · rename_i hmany
    simp only [hop, Bool.false_or, beq_iff_eq] at hmany
    have hpos : 0 < producers.length := List.length_pos_iff.2 hne
    refine ⟨_, rfl, .joined (by omega) ⟨?_, ?_, ?_, ?_⟩⟩
    · rw [node_push_next]
    · rw [node_push_next]
    · rw [node_push_next]
      intro c hc
      obtain ⟨m, -, hfeed⟩ := List.mem_map.1 (feedOf_mem hc)
      exact congrArg Feed.pin hfeed.symm
    · rw [map_op_push, ← hlabel, List.map_map]
      · rfl
      · intro f hf
        obtain ⟨m, hm, rfl⟩ := List.mem_map.1 hf
        exact source_lt_of_placed hd hm

/-- An operator that is no union is fed by one node for each position. -/
theorem feedAll_delivers {op : Operator} (hop : op.kind.isUnion = false) (shell : Node)
    (pins : List Pin) : ∀ (inputs : List (List OpId)) (position : Nat) {d : Draft}, d.Sound →
      d.Labelled → (∀ producers ∈ inputs, producers ≠ []) →
        (∀ id ∈ inputs.flatten, ∃ m, d.nodeOf? id = some m) →
          List.Forall₂
            (fun f ids => (feedAll op shell pins position inputs d).1.graph.Delivers f.source ids)
            (feedAll op shell pins position inputs d).2 inputs
  | [], _, _, _, _, _, _ => .nil
  | producers :: rest, position, d, hd, hlabels, hne, hplaced => by
    have hfed := feedPosition_fed hd op shell (pins.getD position .unset) position producers
    have hrest := feedAll_fed op shell pins rest (position + 1) hfed.sound
    obtain ⟨f, hf, hdelivers⟩ := feedPosition_delivers hlabels hd hop shell
      (pins.getD position .unset) position (hne producers List.mem_cons_self)
      (fun id hid => hplaced id (List.mem_append_left _ hid))
    have htail := feedAll_delivers hop shell pins rest (position + 1) hfed.sound
      (hfed.labelled hd hlabels) (fun ids hids => hne ids (List.mem_cons_of_mem _ hids)) (by
        intro id hid
        unfold nodeOf?
        rw [hfed.placed]
        exact hplaced id (List.mem_append_right _ hid))
    have hsource := hfed.source_lt f (hf ▸ List.mem_cons_self)
    unfold feedAll
    dsimp only
    rw [hf, List.singleton_append]
    exact .cons (hdelivers.mono hfed.sound.numbered hrest.kept hsource) htail

/-- A declared union reads its producers itself. -/
theorem feedAll_union {op : Operator} (hop : op.kind.isUnion = true) (shell : Node)
    (pins : List Pin) : ∀ (inputs : List (List OpId)) (position : Nat) (d : Draft),
      (feedAll op shell pins position inputs d).1 = d ∧
        (feedAll op shell pins position inputs d).2.map (·.source) =
          inputs.flatten.filterMap d.nodeOf?
  | [], _, _ => ⟨rfl, rfl⟩
  | producers :: rest, position, d => by
    unfold feedAll feedPosition
    dsimp only
    rw [hop, Bool.true_or, if_pos rfl]
    obtain ⟨hdraft, hsources⟩ := feedAll_union hop shell pins rest (position + 1) d
    refine ⟨hdraft, ?_⟩
    rw [List.map_append, hsources, List.flatten_cons, List.filterMap_append, List.map_map]
    congr 1
    exact List.map_id _

/-! ## §4 Placing operators -/

/-- A node that was put in is a union, which an operator reads over the one connection that leaves
it. -/
structure IsRead (g : Graph) (n : NodeId) : Prop where
  kind_eq : (g.node n).kind = .operator .union
  once : (g.outgoing n).length = 1
  reader : ∃ m, (g.node m).op ≠ none ∧ ∃ c ∈ (g.node m).inputs, c.source = n

/-- The nodes that stand for operators read what these read, and the others are read by them. -/
structure Wired (d : Draft) (ops : List Operator) : Prop where
  labelled : d.Labelled
  wires : ∀ n < d.next, ∀ id, (d.graph.node n).op = some id →
    ∃ op ∈ ops, op.id = id ∧ d.graph.Wires n op
  read : ∀ n < d.next, (d.graph.node n).op = none → IsRead d.graph n
  sinks_eq : d.sinks.map (fun n => (d.graph.node n).op) =
    (ops.filter (·.kind.isSink)).map fun op => some op.id

theorem wired_empty : Wired {} [] where
  labelled id m h := by simp [nodeOf?] at h
  wires n hn := absurd hn (Nat.not_lt_zero n)
  read n hn := absurd hn (Nat.not_lt_zero n)
  sinks_eq := rfl

/-- An operator has producers at every position. -/
theorem ne_nil_of_checkShape {op : Operator} (h : op.checkShape = .ok ()) :
    ∀ producers ∈ op.inputs, producers ≠ [] := by
  unfold Operator.checkShape at h
  split at h
  · simp at h
  · split at h
    · simp at h
    · rename_i hnone
      intro producers hmem hnil
      have hnot := List.findIdx?_eq_none_iff.1 hnone producers hmem
      rw [hnil] at hnot
      simp at hnot

/-- Joiners are not put in before everything is placed. -/
theorem Wired.no_joiner {ops : List Operator} (h : d.Wired ops) :
    d.nodes.countP (·.kind.isJoiner) = 0 := by
  refine Array.countP_eq_zero.2 ?_
  intro node hnode
  obtain ⟨n, hn, rfl⟩ := Graph.exists_node_eq (g := d.graph) (Array.mem_toList_iff.2 hnode)
  cases hop : (d.graph.node n).op with
  | none =>
    rw [(h.read n hn hop).kind_eq]
    simp [NodeKind.isJoiner]
  | some id =>
    obtain ⟨op, -, -, hwires⟩ := h.wires n hn id hop
    rw [hwires.kind_eq]
    simp [NodeKind.isJoiner]

/-- The node of an operator reads what the operator reads. -/
theorem wires_push {op : Operator} {shell : Node} {pins : List Pin} {feeds : List Feed}
    (hd : d.Sound) (hlabels : d.Labelled) (hshape : op.checkShape = .ok ())
    (hplaced : ∀ id ∈ op.producers, ∃ m, d.nodeOf? id = some m)
    (hkind : shell.kind = .operator op.kind)
    (hfeeds : feedAll op shell pins 0 op.inputs d = (d₁, feeds)) :
    (d₁.push shell feeds).graph.Wires d₁.next op := by
  have hfed := feedAll_fed op shell pins op.inputs 0 hd
  rw [hfeeds] at hfed
  refine ⟨?_, ?_, ?_⟩
  · rw [node_push_next, hkind]
  · intro hunion
    obtain ⟨hdraft, hsources⟩ := feedAll_union hunion shell pins op.inputs 0 d
    rw [hfeeds] at hdraft hsources
    obtain rfl : d₁ = d := hdraft
    rw [map_op_push hfed.source_lt, ← hlabels.map_op hplaced, Operator.producers, ← hsources,
      List.map_map]
    rfl
  · intro hunion
    have hdelivers := feedAll_delivers hunion shell pins op.inputs 0 hd hlabels
      (ne_nil_of_checkShape hshape) hplaced
    rw [hfeeds] at hdelivers
    have hmono : List.Forall₂ (fun m ids => (d₁.push shell feeds).graph.Delivers m ids)
        (feeds.map (·.source)) op.inputs := by
      refine List.forall₂_map_left_iff.2 ?_
      refine ((List.forall₂_and_left _ _).2 ⟨hfed.source_lt, hdelivers⟩).imp ?_
      rintro f ids ⟨hlt, hf⟩
      exact hf.mono hfed.sound.numbered (fun n hn => node_push_of_lt hn shell feeds) hlt
    rw [node_push_next]
    rw [← map_source_connect d₁.connectionCount d₁.next] at hmono
    exact List.forall₂_map_left_iff.1 hmono

theorem IsRead.mono {g g' : Graph} {n : NodeId} (h : IsRead g n) (hn : n < g.size)
    (hkept : ∀ m < g.size, g'.node m = g.node m)
    (hout : (g'.outgoing n).length = (g.outgoing n).length) : IsRead g' n := by
  obtain ⟨m, hm, c, hc, hcn⟩ := h.reader
  have hlt := Graph.lt_size_of_mem hc
  refine ⟨by rw [hkept n hn, h.kind_eq], hout.trans h.once, m, ?_, c, ?_, hcn⟩
  · rw [hkept m hlt]
    exact hm
  · rw [hkept m hlt]
    exact hc

/-- The unions put in for an operator are read by its node, and those put in before by nothing
new. -/
theorem isRead_push {shell : Node} {feeds : List Feed} {p : List OpId} (hd : d.Sound)
    (hread : ∀ n < d.next, (d.graph.node n).op = none → IsRead d.graph n)
    (hleads : Leads d d₁ feeds) (hfed : Fed d d₁ p feeds) (hop : shell.op ≠ none) {n : NodeId}
    (hn : n < d₁.next) (hnone : (d₁.graph.node n).op = none) :
    IsRead (d₁.push shell feeds).graph n := by
  have hlength := length_outgoing_push d₁ shell feeds n
  rw [hleads.outgoing n hnone] at hlength
  by_cases hold : n < d.next
  · have hnone' : (d.graph.node n).op = none := by
      rw [← hfed.kept n hold]
      exact hnone
    have hnot : n ∉ feeds.map (·.source) := by
      intro hmem
      obtain ⟨f, hf, rfl⟩ := List.mem_map.1 hmem
      exact hleads.labelled f hf hold hnone'
    refine (hread n hold hnone').mono hold ?_ ?_
    · intro m hm
      rw [node_push_of_lt (Nat.lt_of_lt_of_le hm hfed.le), hfed.kept m hm]
    · rw [hlength, List.count_eq_zero.2 hnot, Nat.add_zero]
  · have hle := Nat.le_of_not_lt hold
    have honce := hleads.once n hle hn
    refine ⟨?_, ?_, d₁.next, ?_, ?_⟩
    · rw [node_push_of_lt hn]
      exact (hleads.put_in n hle hn).2
    · rw [hlength, honce, hd.outgoing_of_le hle]
      rfl
    · rw [node_push_next]
      exact hop
    · have hmem : n ∈ (connect d₁.connectionCount d₁.next feeds).map (·.source) := by
        rw [map_source_connect, ← List.count_pos_iff, honce]
        exact Nat.one_pos
      rw [node_push_next]
      exact List.mem_map.1 hmem

/-- With the unions put in for an operator and its own node, nodes of operators read what these
read, and the others are read by them. -/
theorem Wired.push {ops : List Operator} {op : Operator} {shell : Node} {pins : List Pin}
    {feeds : List Feed} (h : d.Wired ops) (hd : d.Sound) (hshape : op.checkShape = .ok ())
    (hplaced : ∀ id ∈ op.producers, ∃ m, d.nodeOf? id = some m) (hop : shell.op = some op.id)
    (hkind : shell.kind = .operator op.kind)
    (hfeeds : feedAll op shell pins 0 op.inputs d = (d₁, feeds)) {n : NodeId}
    (hn : n < (d₁.push shell feeds).next) :
    (∀ id, ((d₁.push shell feeds).graph.node n).op = some id →
      ∃ op' ∈ ops ++ [op], op'.id = id ∧ (d₁.push shell feeds).graph.Wires n op') ∧
      (((d₁.push shell feeds).graph.node n).op = none →
        IsRead (d₁.push shell feeds).graph n) := by
  have hfed := feedAll_fed op shell pins op.inputs 0 hd
  have hleads := feedAll_leads op shell pins op.inputs 0 hd h.labelled
  rw [hfeeds] at hfed hleads
  have hshell : shell.op ≠ none := by
    rw [hop]
    simp
  rcases lt_or_eq_of_lt_next_push hn with hlt | rfl
  · have hstays := node_push_of_lt hlt shell feeds
    constructor
    · intro id hid
      rw [hstays] at hid
      have hold : n < d.next := by
        by_contra hnew
        rw [(hleads.put_in n (Nat.le_of_not_lt hnew) hlt).1] at hid
        simp at hid
      rw [hfed.kept n hold] at hid
      obtain ⟨op', hop', hid', hwires⟩ := h.wires n hold id hid
      refine ⟨op', List.mem_append_left _ hop', hid', hwires.mono hd.numbered ?_ hold⟩
      intro m hm
      rw [node_push_of_lt (Nat.lt_of_lt_of_le hm hfed.le), hfed.kept m hm]
    · intro hnone
      rw [hstays] at hnone
      exact isRead_push hd h.read hleads hfed hshell hlt hnone
  · rw [node_push_next]
    constructor
    · intro id hid
      exact ⟨op, by simp, Option.some.inj (hop.symm.trans hid),
        wires_push hd h.labelled hshape hplaced hkind hfeeds⟩
    · exact fun hnone => absurd hnone hshell

theorem Wired.place {config : Config} {ops : List Operator} {op : Operator} (h : d.Wired ops)
    (hd : d.Sound) (hshape : op.checkShape = .ok ())
    (hplaced : ∀ id ∈ op.producers, ∃ m, d.nodeOf? id = some m)
    (hplace : d.place config op = .ok d') : d'.Wired (ops ++ [op]) := by
  obtain ⟨node, hnode⟩ := place_placed hd hshape hplace
  obtain ⟨hints, shell, d₁, feeds, -, hop, hkind, -, -, hfeeds, heq⟩ := place_ok hplace
  have hfed := feedAll_fed op shell hints.pins op.inputs 0 hd
  rw [hfeeds] at hfed
  -- Noting the node down changes neither nodes nor connections.
  have hnodes : d'.graph.nodes = (d₁.push shell feeds).graph.nodes := by
    rw [heq]
    rfl
  have hat := Graph.node_of_nodes_eq hnodes
  have hnext : d'.next = (d₁.push shell feeds).next := congrArg Array.size hnodes
  have hnumbered : (d₁.push shell feeds).graph.Numbered :=
    hnode.sound.numbered.of_nodes_eq hnodes.symm
  have hself : (d'.graph.node d₁.next).op = some op.id := by
    rw [hat, node_push_next]
    exact hop
  refine ⟨?_, ?_, ?_, ?_⟩
  · intro id m hid
    rw [heq] at hid
    have hlookup : (if id = op.id then some d₁.next else d₁.nodeOf? id) = some m :=
      (lookup_cons_eq id op.id d₁.next d₁.placed).symm.trans hid
    split at hlookup
    · rename_i hid'
      rw [← Option.some.inj hlookup, hid']
      exact hself
    · rw [hat, node_push_of_lt (hfed.sound.placed_lt id m hlookup)]
      exact hfed.labelled hd h.labelled id m hlookup
  · intro n hn id hid
    rw [hnext] at hn
    rw [hat] at hid
    obtain ⟨op', hop', hid', hwires⟩ :=
      (h.push hd hshape hplaced hop hkind hfeeds hn).1 id hid
    exact ⟨op', hop', hid', hwires.mono hnumbered (fun k _ => hat k) hn⟩
  · intro n hn hnone
    rw [hnext] at hn
    rw [hat] at hnone
    refine ((h.push hd hshape hplaced hop hkind hfeeds hn).2 hnone).mono hn (fun k _ => hat k) ?_
    rw [Graph.outgoing_of_nodes_eq hnodes]
  · have hsinks : d.sinks.map (fun n => (d'.graph.node n).op) =
        (ops.filter (·.kind.isSink)).map fun op => some op.id := by
      rw [← h.sinks_eq]
      exact List.map_congr_left fun n hn => by rw [hnode.kept n (hd.sink_lt n hn)]
    have hsinks' : d'.sinks = if op.kind.isSink then d.sinks ++ [d₁.next] else d.sinks := by
      rw [heq, ← hfed.sinks]
    rw [hsinks', List.filter_append, List.map_append]
    cases hsink : op.kind.isSink <;> simp [hsinks, hself, hsink]

/-- Placing a whole listing wires all of its operators. -/
theorem Wired.placeAll {config : Config} : ∀ {ops' ops : List Operator} {d d' : Draft},
    d.Wired ops → d.Sound → (∀ op ∈ ops', op.checkShape = .ok ()) →
      Job.ProducersFirst (d.placed.map (·.1)) ops' →
        ops'.foldlM (Draft.place config) d = .ok d' → d'.Wired (ops ++ ops')
  | [], ops, d, d', h, _, _, _, hplace => by
    obtain rfl : d = d' := by simpa [pure, Except.pure] using hplace
    rw [List.append_nil]
    exact h
  | op :: ops', ops, d, d', h, hd, hshape, hfirst, hplace => by
    rw [List.foldlM_cons] at hplace
    obtain ⟨d₁, hone, hrest⟩ := exists_ok_of_bind hplace
    obtain ⟨node, hplaced⟩ := place_placed hd (hshape op List.mem_cons_self) hone
    obtain ⟨hproducers, hfirst⟩ := hfirst
    have hfound : ∀ id ∈ op.producers, ∃ m, d.nodeOf? id = some m :=
      fun id hid => exists_nodeOf?_of_mem (hproducers id hid)
    have hwired := Wired.placeAll (h.place hd (hshape op List.mem_cons_self) hfound hone)
      hplaced.sound (fun op' h' => hshape op' (List.mem_cons_of_mem op h')) (by
        rw [hplaced.placed]
        exact hfirst) hrest
    rwa [List.append_assoc, List.singleton_append] at hwired

end Draft

end FlowPlanner
