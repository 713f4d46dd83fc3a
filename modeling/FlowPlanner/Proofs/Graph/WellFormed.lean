/-
FlowPlanner.Proofs.Graph.WellFormed — the laws of a laid out graph.

Everything that a search relies on and no pass checks again: nodes stand at
their numbers, data flows from smaller numbers to larger ones, connections are
numbered without gaps, every node has the inputs and keys that its kind wants,
and every node reaches the root. `Proofs/Graph/Layout.lean` shows that layout
keeps all of it.
-/
import FlowPlanner.Graph
import Mathlib.Logic.Relation
import Mathlib.Data.List.Nodup

namespace FlowPlanner

/-- The key columns and input positions that a kind of node wants. -/
def NodeKind.Accepts (keys : List (List Nat)) (positions : List Nat) : NodeKind → Prop
  | .sinkJoiner => positions = [0, 1]
  | .operator kind =>
    (kind.isUnion = false → positions = List.range kind.arity) ∧
      (kind.isUnion = true → ∀ p ∈ positions, p = 0) ∧
      (kind.requiresKeys = true → ∀ i < kind.arity, keys.getD i [] ≠ [])

theorem NodeKind.Accepts.position_lt {kind : Kind} {keys : List (List Nat)} {positions : List Nat}
    (h : (NodeKind.operator kind).Accepts keys positions) {i : Nat} (hi : i ∈ positions) :
    i < kind.arity := by
  obtain ⟨hrange, hzero, -⟩ := h
  cases hunion : kind.isUnion with
  | false =>
    rw [hrange hunion] at hi
    exact List.mem_range.1 hi
  | true =>
    rw [hzero hunion i hi]
    cases kind <;> simp_all [Kind.isUnion, Kind.arity]

theorem Node.keyList_eq_keysOf {n : Node} {op : Operator} (h : n.keys = op.keys) (i : Nat) :
    n.keyList i = op.keysOf i := by
  unfold keyList Operator.keysOf
  rw [h]

namespace Graph

/-! ## §1 Data flow -/

/-- Some connection leads from one node into the other. -/
def Feeds (g : Graph) (a b : NodeId) : Prop := ∃ c ∈ (g.node b).inputs, c.source = a

/-- Data of one node ends up in the other; every node reaches itself. -/
def Reaches (g : Graph) : NodeId → NodeId → Prop := Relation.ReflTransGen g.Feeds

theorem Reaches.refl (g : Graph) (n : NodeId) : g.Reaches n n := Relation.ReflTransGen.refl

theorem Reaches.trans {g : Graph} {a b c : NodeId} (h : g.Reaches a b) (h' : g.Reaches b c) :
    g.Reaches a c :=
  Relation.ReflTransGen.trans h h'

/-- A source reaches the target. -/
theorem reaches_of_mem {g : Graph} {n : NodeId} {c : Connection} (h : c ∈ (g.node n).inputs) :
    g.Reaches c.source n :=
  Relation.ReflTransGen.single ⟨c, h, rfl⟩

/-- What reaches a node is the node, or reaches one of its sources. -/
theorem Reaches.cases_target {g : Graph} {a n : NodeId} (h : g.Reaches a n) :
    a = n ∨ ∃ c ∈ (g.node n).inputs, g.Reaches a c.source := by
  rcases Relation.ReflTransGen.cases_tail h with h | ⟨b, hab, c, hc, hb⟩
  · exact .inl h.symm
  · exact .inr ⟨c, hc, hb ▸ hab⟩

/-! ## §2 Well-formed graphs -/

theorem node_of_size_le {g : Graph} {n : NodeId} (h : g.size ≤ n) : g.node n = default := by
  unfold node
  rw [Array.getD_eq_getD_getElem?, Array.getElem?_eq_none h]
  rfl

/-- The nodes outside a graph have no inputs. -/
theorem inputs_of_size_le {g : Graph} {n : NodeId} (h : g.size ≤ n) : (g.node n).inputs = [] := by
  rw [node_of_size_le h]
  rfl

theorem lt_size_of_mem {g : Graph} {n : NodeId} {c : Connection} (h : c ∈ (g.node n).inputs) :
    n < g.size := by
  by_contra hn
  rw [inputs_of_size_le (Nat.le_of_not_lt hn)] at h
  simp at h

/-- The nodes outside a graph stand for no operator. -/
theorem lt_size_of_op {g : Graph} {n : NodeId} {id : OpId} (h : (g.node n).op = some id) :
    n < g.size := by
  by_contra hn
  rw [node_of_size_le (Nat.le_of_not_lt hn)] at h
  cases h

/-- The part of well-formedness that holds while a graph is being built. -/
structure Numbered (g : Graph) : Prop where
  node_id : ∀ n < g.size, (g.node n).id = n
  source_lt : ∀ n, ∀ c ∈ (g.node n).inputs, c.source < n
  target_eq : ∀ n, ∀ c ∈ (g.node n).inputs, c.target = n
  ids : g.connections.map (·.id) = List.range g.connections.length
  accepted : ∀ n < g.size,
    (g.node n).kind.Accepts (g.node n).keys ((g.node n).inputs.map (·.position))

/-- A finished graph. -/
structure WellFormed (g : Graph) : Prop extends Numbered g where
  root_lt : g.root < g.size
  to_root : ∀ n < g.size, g.Reaches n g.root

namespace Numbered

variable {g : Graph}

/-- Data flows from smaller numbers to larger ones. -/
theorem le_of_reaches (h : g.Numbered) {a b : NodeId} (hab : g.Reaches a b) : a ≤ b := by
  induction hab with
  | refl => exact Nat.le_refl a
  | tail _ hbc ih =>
    obtain ⟨c, hc, rfl⟩ := hbc
    exact Nat.le_of_lt (Nat.lt_of_le_of_lt ih (h.source_lt _ c hc))

theorem lt_of_reaches_source (h : g.Numbered) {a n : NodeId} {c : Connection}
    (hc : c ∈ (g.node n).inputs) (hac : g.Reaches a c.source) : a < n :=
  Nat.lt_of_le_of_lt (h.le_of_reaches hac) (h.source_lt n c hc)

theorem not_reaches_source (h : g.Numbered) {n : NodeId} {c : Connection}
    (hc : c ∈ (g.node n).inputs) : ¬ g.Reaches n c.source :=
  fun hreach => Nat.lt_irrefl n (h.lt_of_reaches_source hc hreach)

theorem source_lt_size (h : g.Numbered) {n : NodeId} {c : Connection}
    (hc : c ∈ (g.node n).inputs) : c.source < g.size :=
  Nat.lt_trans (h.source_lt n c hc) (lt_size_of_mem hc)

theorem lt_size_of_reaches (h : g.Numbered) {a n : NodeId} (hn : n < g.size)
    (han : g.Reaches a n) : a < g.size :=
  Nat.lt_of_le_of_lt (h.le_of_reaches han) hn

end Numbered

/-! ## §3 Connections -/

theorem node_mem {g : Graph} {n : NodeId} (hn : n < g.size) : g.node n ∈ g.nodes.toList := by
  unfold node
  rw [Array.getD_eq_getD_getElem?, Array.getElem?_eq_getElem hn, Option.getD_some]
  exact Array.mem_toList_iff.2 (Array.getElem_mem hn)

theorem exists_node_eq {g : Graph} {node : Node} (h : node ∈ g.nodes.toList) :
    ∃ n < g.size, g.node n = node := by
  obtain ⟨n, hn, hget⟩ := Array.mem_iff_getElem.1 (Array.mem_toList_iff.1 h)
  refine ⟨n, hn, ?_⟩
  unfold Graph.node
  rw [Array.getD_eq_getD_getElem?, Array.getElem?_eq_getElem hn, Option.getD_some, hget]

/-- The connections of a graph are the inputs of its nodes. -/
theorem mem_connections_iff {g : Graph} {c : Connection} :
    c ∈ g.connections ↔ ∃ n, c ∈ (g.node n).inputs := by
  unfold connections
  rw [List.mem_flatMap]
  constructor
  · rintro ⟨node, hnode, hc⟩
    obtain ⟨n, -, rfl⟩ := exists_node_eq hnode
    exact ⟨n, hc⟩
  · rintro ⟨n, hc⟩
    exact ⟨g.node n, node_mem (lt_size_of_mem hc), hc⟩

/-- The connections that leave a node are those whose source it is. -/
theorem mem_outgoing_iff {g : Graph} {a : NodeId} {c : Connection} :
    c ∈ g.outgoing a ↔ (∃ n, c ∈ (g.node n).inputs) ∧ c.source = a := by
  unfold outgoing
  rw [List.mem_filter, mem_connections_iff, beq_iff_eq]

namespace Numbered

variable {g : Graph}

theorem nodup_ids (h : g.Numbered) : (g.connections.map (·.id)).Nodup := by
  rw [h.ids]
  exact List.nodup_range

/-- A connection is known by its number. -/
theorem eq_of_id_eq (h : g.Numbered) {c d : Connection} (hc : c ∈ g.connections)
    (hd : d ∈ g.connections) (hid : c.id = d.id) : c = d :=
  List.inj_on_of_nodup_map h.nodup_ids hc hd hid

theorem id_lt_length (h : g.Numbered) {c : Connection} (hc : c ∈ g.connections) :
    c.id < g.connections.length := by
  have hmem : c.id ∈ g.connections.map (·.id) := List.mem_map_of_mem hc
  rw [h.ids] at hmem
  exact List.mem_range.1 hmem

theorem nodup_inputs (h : g.Numbered) (n : NodeId) : (g.node n).inputs.Nodup := by
  by_cases hn : n < g.size
  · have hall : (g.nodes.toList.flatMap (·.inputs)).Nodup := List.Nodup.of_map _ h.nodup_ids
    exact (List.nodup_flatMap.1 hall).1 _ (node_mem hn)
  · rw [inputs_of_size_le (Nat.le_of_not_lt hn)]
    exact List.nodup_nil

theorem nodup_outgoing (h : g.Numbered) (n : NodeId) : (g.outgoing n).Nodup :=
  (List.Nodup.of_map _ h.nodup_ids).filter _

/-- A connection that leaves a node enters its target. -/
theorem mem_inputs_target (h : g.Numbered) {a : NodeId} {d : Connection} (hd : d ∈ g.outgoing a) :
    d ∈ (g.node d.target).inputs ∧ d.source = a := by
  obtain ⟨⟨m, hm⟩, hsource⟩ := mem_outgoing_iff.1 hd
  rw [h.target_eq m d hm]
  exact ⟨hm, hsource⟩

/-- What a connection of a node leads to is below the node. -/
theorem below_of_outgoing (h : g.Numbered) {a x : NodeId} {d : Connection} (hd : d ∈ g.outgoing a)
    (hx : g.Reaches d.target x) : g.Reaches a x ∧ a < x := by
  obtain ⟨hm, rfl⟩ := h.mem_inputs_target hd
  exact ⟨(reaches_of_mem hm).trans hx, Nat.lt_of_lt_of_le (h.source_lt _ d hm) (h.le_of_reaches hx)⟩

end Numbered

/-- Two different ways down make a fork. -/
theorem isFork_of_ne {g : Graph} {z : NodeId} {d e : Connection} (hd : d ∈ g.outgoing z)
    (he : e ∈ g.outgoing z) (hne : d ≠ e) : g.isFork z = true := by
  unfold isFork
  rw [decide_eq_true_eq]
  by_contra hlen
  match hout : g.outgoing z, hlen with
  | [], _ => rw [hout] at hd; simp at hd
  | [x], _ =>
    rw [hout, List.mem_singleton] at hd he
    exact hne (hd.trans he.symm)
  | x :: y :: rest, hlen => simp at hlen

/-- Of a node that is no fork at most one connection leaves. -/
theorem eq_of_not_isFork {g : Graph} {a m n : NodeId} {c d : Connection}
    (ha : g.isFork a = false) (hc : c ∈ (g.node m).inputs) (hd : d ∈ (g.node n).inputs)
    (hca : c.source = a) (hda : d.source = a) : c = d := by
  have hcout : c ∈ g.outgoing a := mem_outgoing_iff.2 ⟨⟨m, hc⟩, hca⟩
  have hdout : d ∈ g.outgoing a := mem_outgoing_iff.2 ⟨⟨n, hd⟩, hda⟩
  have hlen : (g.outgoing a).length ≤ 1 := by
    simpa [isFork] using ha
  match hout : g.outgoing a, hlen with
  | [], _ => rw [hout] at hcout; simp at hcout
  | [e], _ =>
    rw [hout, List.mem_singleton] at hcout hdout
    rw [hcout, hdout]

end Graph

end FlowPlanner
