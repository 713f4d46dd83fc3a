/-
FlowPlanner.Proofs.Graph.Origin — what the nodes of a graph stand for.

Layout adds a node for each operator, in the order of the listing, and nodes of
its own: unions in front of operators, and joiners after the sinks. A node knows
the hints of its operator, and each of its connections carries the pin and the
keys of its position (`Node.StandsFor`); a union that was put in forwards all that
it reads (`Node.IsPutIn`). Every step of layout keeps that (`Draft.Traced`).
-/
import FlowPlanner.Proofs.Graph.Layout
import FlowPlanner.Proofs.Job.Hint
import FlowPlanner.Proofs.Lists

namespace FlowPlanner

/-- The node stands for the operator: it has its keys and its hints, and so have its connections. -/
structure Node.StandsFor (n : Node) (op : Operator) : Prop where
  op_eq : n.op = some op.id
  kind_eq : n.kind = .operator op.kind
  keys_eq : n.keys = op.keys
  hinted : ∃ hints, op.resolveHints = .ok hints ∧ n.driver = hints.driver ∧
    ∀ c ∈ n.inputs, c.pin = hints.pins.getD c.position .unset ∧ c.keys = op.keysOf c.position

/-- Layout put the node in: a union that forwards what it reads, or a joiner. -/
structure Node.IsPutIn (n : Node) : Prop where
  op_eq : n.op = none
  pinned : n.kind = .operator .union ∧ (∀ c ∈ n.inputs, c.pin = .forward) ∨
    n.kind = .sinkJoiner ∧ ∀ c ∈ n.inputs, c.pin = .unset

namespace Draft

/-! ## §1 Steps of layout -/

/-- There is a node for each of some operators, in their order, and no other node stands for an
operator. -/
structure Traced (d : Draft) (ops : List Operator) : Prop where
  ops_eq : d.nodes.toList.filterMap (·.op) = ops.map (·.id)
  origin : ∀ n ∈ d.nodes, (∃ op ∈ ops, n.StandsFor op) ∨ n.IsPutIn

theorem Traced.push_putIn {d : Draft} {ops : List Operator} (h : d.Traced ops) {node : Node}
    {feeds : List Feed} (hop : node.op = none)
    (hpinned : node.kind = .operator .union ∧ (∀ f ∈ feeds, f.pin = .forward) ∨
      node.kind = .sinkJoiner ∧ ∀ f ∈ feeds, f.pin = .unset) :
    (d.push node feeds).Traced ops := by
  refine ⟨?_, ?_⟩
  · simp [push, hop, h.ops_eq]
  · intro n hn
    rcases Array.mem_push.1 hn with hn | rfl
    · exact h.origin n hn
    · refine .inr ⟨hop, ?_⟩
      rcases hpinned with ⟨hkind, hpin⟩ | ⟨hkind, hpin⟩
      · exact .inl ⟨hkind, fun c hc => hpin _ (feedOf_mem hc)⟩
      · exact .inr ⟨hkind, fun c hc => hpin _ (feedOf_mem hc)⟩

theorem Traced.push_operator {d : Draft} {ops : List Operator} (h : d.Traced ops) {node : Node}
    {feeds : List Feed} {op : Operator} {hints : ResolvedHints} (hop : node.op = some op.id)
    (hkind : node.kind = .operator op.kind) (hkeys : node.keys = op.keys)
    (hhints : op.resolveHints = .ok hints)
    (hdriver : node.driver = hints.driver)
    (hfeeds : ∀ f ∈ feeds, f.pin = hints.pins.getD f.position .unset ∧
      f.keys = op.keysOf f.position) :
    (d.push node feeds).Traced (ops ++ [op]) := by
  refine ⟨?_, ?_⟩
  · simp [push, hop, h.ops_eq]
  · intro n hn
    rcases Array.mem_push.1 hn with hn | rfl
    · rcases h.origin n hn with ⟨op', hop', hstands⟩ | hputIn
      · exact .inl ⟨op', List.mem_append_left _ hop', hstands⟩
      · exact .inr hputIn
    · exact .inl ⟨op, by simp, hop, hkind, hkeys, hints, hhints, hdriver,
        fun c hc => hfeeds _ (feedOf_mem hc)⟩

/-- Feeding a position puts in at most a union. -/
theorem Traced.feedPosition {d : Draft} {ops : List Operator} (h : d.Traced ops) (op : Operator)
    (shell : Node) (pin : Pin) (position : Nat) (producers : List OpId) :
    (d.feedPosition op shell pin position producers).1.Traced ops := by
  unfold Draft.feedPosition
  dsimp only
  split
  · exact h
  · refine h.push_putIn rfl (.inl ⟨rfl, ?_⟩)
    intro f hf
    obtain ⟨m, -, rfl⟩ := List.mem_map.1 hf
    rfl

theorem Traced.feedAll {ops : List Operator} (op : Operator) (shell : Node) (pins : List Pin) :
    ∀ (inputs : List (List OpId)) (position : Nat) {d : Draft}, d.Traced ops →
      (feedAll op shell pins position inputs d).1.Traced ops ∧
        ∀ f ∈ (feedAll op shell pins position inputs d).2,
          f.pin = pins.getD f.position .unset ∧ f.keys = op.keysOf f.position
  | [], _, _, h => ⟨h, by simp [Draft.feedAll]⟩
  | producers :: rest, position, d, h => by
    obtain ⟨htraced, hfeeds⟩ := Traced.feedAll op shell pins rest (position + 1)
      (h.feedPosition op shell (pins.getD position .unset) position producers)
    refine ⟨htraced, ?_⟩
    intro f hf
    rcases List.mem_append.1 hf with hf | hf
    · rw [eq_of_mem_feedPosition hf]
      exact ⟨rfl, rfl⟩
    · exact hfeeds f hf

theorem Traced.place {config : Config} {d d' : Draft} {ops : List Operator} {op : Operator}
    (h : d.Traced ops) (hplace : d.place config op = .ok d') : d'.Traced (ops ++ [op]) := by
  obtain ⟨hints, shell, d₁, feeds, hhints, hop, hkind, hkeys, hdriver, hfed, rfl⟩ := place_ok hplace
  obtain ⟨htraced, hfeeds⟩ := Traced.feedAll op shell hints.pins op.inputs 0 h
  rw [hfed] at htraced hfeeds
  have hpush := htraced.push_operator hop hkind hkeys hhints hdriver hfeeds
  exact ⟨hpush.ops_eq, hpush.origin⟩

theorem Traced.placeAll {config : Config} : ∀ {ops' ops : List Operator} {d d' : Draft},
    d.Traced ops → ops'.foldlM (Draft.place config) d = .ok d' → d'.Traced (ops ++ ops')
  | [], ops, d, d', h, hplace => by
    obtain rfl : d = d' := by simpa [pure, Except.pure] using hplace
    rw [List.append_nil]
    exact h
  | op :: ops', ops, d, d', h, hplace => by
    rw [List.foldlM_cons] at hplace
    obtain ⟨d₁, hfirst, hrest⟩ := exists_ok_of_bind hplace
    have htraced := Traced.placeAll (h.place hfirst) hrest
    rwa [List.append_assoc, List.singleton_append] at htraced

theorem Traced.joinSinks (config : Config) {ops : List Operator} : ∀ {sinks : List NodeId}
    {i : Nat} {root : NodeId} {d : Draft}, d.Traced ops →
      (joinSinks config i root sinks d).1.Traced ops
  | [], _, _, _, h => h
  | sink :: sinks, i, root, d, h => by
    unfold Draft.joinSinks
    dsimp only
    refine Traced.joinSinks config (h.push_putIn rfl (.inr ⟨rfl, ?_⟩))
    simp

end Draft

namespace Graph

/-! ## §2 The graph of a job -/

/-- Every node of a graph stands for an operator of the job or was put in. -/
structure Depicts (g : Graph) (job : Job) : Prop where
  origin : ∀ n < g.size, (∃ op ∈ job.operators, (g.node n).StandsFor op) ∨ (g.node n).IsPutIn
  unique : ∀ op ∈ job.operators, ∃! n, n < g.size ∧ (g.node n).op = some op.id
  ids : ∀ op ∈ job.operators, ∀ op' ∈ job.operators, op.id = op'.id → op = op'

/-- One node stands for an operator. -/
theorem Depicts.eq_of_op {g : Graph} {job : Job} (h : g.Depicts job) {op : Operator}
    (hop : op ∈ job.operators) {m n : NodeId} (hm : (g.node m).op = some op.id)
    (hn : (g.node n).op = some op.id) : m = n :=
  (h.unique op hop).unique ⟨lt_size_of_op hm, hm⟩ ⟨lt_size_of_op hn, hn⟩

/-- Layout depicts a job. -/
theorem depicts_of_build {config : Config} {job : Job} {g : Graph}
    (h : Graph.build config job = .ok g) : g.Depicts job := by
  obtain ⟨ops, d, first, rest, hlisting, hperm, hplace, -, rfl⟩ := build_ok h
  have hempty : Draft.Traced {} [] := ⟨rfl, by simp⟩
  have htraced := hempty.placeAll hplace
  rw [List.nil_append] at htraced
  have hdone : (Draft.joinSinks config 0 first rest d).1.Traced ops :=
    htraced.joinSinks config
  have hnodup := hlisting.ids_nodup
  refine ⟨?_, ?_, ?_⟩
  · intro n hn
    rcases hdone.origin _ (Array.mem_toList_iff.1 (node_mem hn)) with
      ⟨op, hop, hstands⟩ | hputIn
    · exact .inl ⟨op, hperm.mem_iff.1 hop, hstands⟩
    · exact .inr hputIn
  · intro op hop
    refine existsUnique_of_filterMap ?_ ?_
    · rw [hdone.ops_eq]
      exact hnodup
    · rw [hdone.ops_eq]
      exact List.mem_map_of_mem (hperm.mem_iff.2 hop)
  · intro op hop op' hop' hid
    exact List.inj_on_of_nodup_map hnodup (hperm.mem_iff.2 hop) (hperm.mem_iff.2 hop') hid

end Graph

end FlowPlanner
