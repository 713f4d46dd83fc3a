/-
FlowPlanner.Proofs.Analysis.Demand — what every connection is asked for.

Each node writes the entries of its own connections and no others, so an entry
holds what its target asked when its turn came.
-/
import FlowPlanner.Analysis
import FlowPlanner.Proofs.Graph.WellFormed

namespace FlowPlanner

variable {α : Type} [Quantity α]

namespace Graph

/-! ## §1 One node -/

/-- Writing some entries of an array leaves the others alone. -/
theorem getD_foldl_set_of_ne {β : Type} (f : Connection → β) (default : β) {i : Nat} :
    ∀ {cs : List Connection} {d : Array β}, (∀ c ∈ cs, c.id ≠ i) →
      (cs.foldl (fun d c => d.setIfInBounds c.id (f c)) d).getD i default = d.getD i default
  | [], _, _ => rfl
  | c :: cs, d, h => by
    rw [List.foldl_cons, getD_foldl_set_of_ne f default fun e he => h e (List.mem_cons_of_mem c he)]
    have hne := h c List.mem_cons_self
    simp [hne]

/-- An entry that is written once holds what was written. -/
theorem getD_foldl_set_of_mem {β : Type} (f : Connection → β) (default : β) {c : Connection} :
    ∀ {cs : List Connection} {d : Array β}, (cs.map (·.id)).Nodup → c ∈ cs → c.id < d.size →
      (cs.foldl (fun d c => d.setIfInBounds c.id (f c)) d).getD c.id default = f c
  | e :: cs, d, hnodup, hc, hlt => by
    rw [List.map_cons, List.nodup_cons] at hnodup
    obtain ⟨he, hnodup⟩ := hnodup
    rw [List.foldl_cons]
    rcases List.mem_cons.1 hc with rfl | hc
    · rw [getD_foldl_set_of_ne f default]
      · simp [hlt]
      · intro e' he' heq
        exact he (heq ▸ List.mem_map_of_mem he')
    · exact getD_foldl_set_of_mem f default hnodup hc (by simpa using hlt)

theorem size_foldl_set {β : Type} (f : Connection → β) : ∀ {cs : List Connection} {d : Array β},
    (cs.foldl (fun d c => d.setIfInBounds c.id (f c)) d).size = d.size
  | [], _ => rfl
  | c :: cs, d => by
    rw [List.foldl_cons, size_foldl_set f]
    simp

/-! ## §2 All nodes -/

theorem size_ask (g : Graph) (model : CostModel α) (sizes : Array (Estimates α)) (node : Node)
    (demand : Demand α) : (g.ask model sizes node demand).size = demand.size :=
  size_foldl_set _

theorem size_foldr_ask (g : Graph) (model : CostModel α) (sizes : Array (Estimates α))
    (init : Demand α) (nodes : List Node) :
    (nodes.foldr (g.ask model sizes) init).size = init.size := by
  induction nodes with
  | nil => rfl
  | cons node nodes ih => rw [List.foldr_cons, size_ask, ih]

theorem ask_eq (g : Graph) (model : CostModel α) (sizes : Array (Estimates α)) (node : Node)
    (demand : Demand α) : g.ask model sizes node demand =
      node.inputs.foldl (fun d c => d.setIfInBounds c.id
        (priced model sizes node (g.requestedOf demand node.id) c)) demand := rfl

/-- The connections that enter a node have different numbers. -/
theorem Numbered.nodup_map_id {g : Graph} (hg : g.Numbered) (n : NodeId) :
    ((g.node n).inputs.map (·.id)).Nodup := by
  refine List.Nodup.map_on ?_ (hg.nodup_inputs n)
  intro a ha b hb hab
  exact hg.eq_of_id_eq (mem_connections_iff.2 ⟨n, ha⟩) (mem_connections_iff.2 ⟨n, hb⟩) hab

/-- Nodes that a connection does not lead into write nothing for it. -/
theorem getD_foldr_ask_of_ne {g : Graph} {model : CostModel α} {sizes : Array (Estimates α)}
    {init : Demand α} {i : Nat} : ∀ {nodes : List Node},
      (∀ node ∈ nodes, ∀ c ∈ node.inputs, c.id ≠ i) →
        (nodes.foldr (g.ask model sizes) init).getD i [] = init.getD i []
  | [], _ => rfl
  | node :: nodes, h => by
    rw [List.foldr_cons, ask_eq,
      getD_foldl_set_of_ne (priced model sizes node _) [] (h node List.mem_cons_self)]
    exact getD_foldr_ask_of_ne fun node' h' => h node' (List.mem_cons_of_mem node h')

/-- The nodes before one of them, the node itself, and those behind it. -/
theorem nodes_split (g : Graph) {n : NodeId} (hn : n < g.size) : g.nodes.toList =
    g.nodes.toList.take n ++ g.node n :: g.nodes.toList.drop (n + 1) := by
  have hlen : n < g.nodes.toList.length := by
    rw [Array.length_toList]
    exact hn
  have hget : g.nodes.toList[n] = g.node n := by
    simp [node, Array.getElem?_eq_getElem (show n < g.nodes.size from hn)]
  rw [← hget, List.getElem_cons_drop, List.take_append_drop]

/-- The nodes before one of them have smaller numbers. -/
theorem exists_lt_of_mem_take {g : Graph} {n : NodeId} {node : Node}
    (h : node ∈ g.nodes.toList.take n) : ∃ m < n, m < g.size ∧ node = g.node m := by
  obtain ⟨m, hm, rfl⟩ := List.mem_iff_getElem.1 h
  rw [List.length_take, Array.length_toList] at hm
  obtain ⟨hmn, hsize⟩ := Nat.lt_min.1 hm
  exact ⟨m, hmn, hsize, by simp [Graph.node, Array.getElem?_eq_getElem hsize]⟩

/-- The nodes behind one of them have larger numbers. -/
theorem exists_lt_of_mem_drop {g : Graph} {n : NodeId} {node : Node}
    (h : node ∈ g.nodes.toList.drop (n + 1)) : ∃ m, n < m ∧ m < g.size ∧ node = g.node m := by
  obtain ⟨i, hi, rfl⟩ := List.mem_iff_getElem.1 h
  rw [List.length_drop, Array.length_toList] at hi
  have hsize : n + 1 + i < g.nodes.size := by
    rw [Nat.add_comm]
    exact Nat.add_lt_of_lt_sub hi
  exact ⟨n + 1 + i, Nat.lt_of_lt_of_le (Nat.lt_succ_self n) (Nat.le_add_right _ _), hsize,
    by simp [Graph.node, Array.getElem?_eq_getElem hsize]⟩

/-- What the nodes before a node write is not for connections that lead to the node or behind it. -/
theorem Numbered.id_ne_of_mem_take {g : Graph} (hg : g.Numbered) {n x : NodeId} {d : Connection}
    (hd : d ∈ (g.node x).inputs) (hx : n ≤ x) :
    ∀ node ∈ g.nodes.toList.take n, ∀ e ∈ node.inputs, e.id ≠ d.id := by
  intro node hnode e he hid
  obtain ⟨m, hm, -, rfl⟩ := exists_lt_of_mem_take hnode
  obtain rfl := hg.eq_of_id_eq (mem_connections_iff.2 ⟨m, he⟩) (mem_connections_iff.2 ⟨x, hd⟩) hid
  obtain rfl := (hg.target_eq m e he).symm.trans (hg.target_eq x e hd)
  exact absurd hx (Nat.not_le_of_lt hm)

/-- When a node's turn comes, what is asked of it is complete. -/
theorem requestedOf_drop {g : Graph} (hg : g.Numbered) (model : CostModel α)
    (sizes : Array (Estimates α)) (init : Demand α) {n : NodeId} (hn : n < g.size) :
    g.requestedOf ((g.nodes.toList.drop (n + 1)).foldr (g.ask model sizes) init) n =
      g.requestedOf (g.nodes.toList.foldr (g.ask model sizes) init) n := by
  refine List.foldl_ext _ _ _ fun rs d hd => ?_
  obtain ⟨⟨x, hx⟩, hsource⟩ := mem_outgoing_iff.1 hd
  have hlt : n < x := by
    rw [← hsource]
    exact hg.source_lt x d hx
  conv_rhs => rw [g.nodes_split hn]
  rw [List.foldr_append, List.foldr_cons,
    getD_foldr_ask_of_ne (hg.id_ne_of_mem_take hx (Nat.le_of_lt hlt)), ask_eq,
    getD_foldl_set_of_ne _ []]
  intro e he hid
  obtain rfl := hg.eq_of_id_eq (mem_connections_iff.2 ⟨n, he⟩) (mem_connections_iff.2 ⟨x, hx⟩) hid
  rw [← hg.target_eq n e he, hg.target_eq x e hx] at hlt
  exact Nat.lt_irrefl _ hlt

/-- Whatever stood there before, over a connection its target asks, in view of everything that is
asked of the target. -/
theorem getD_foldr_ask {g : Graph} (hg : g.Numbered) (model : CostModel α)
    (sizes : Array (Estimates α)) {init : Demand α} (hinit : init.size = g.connections.length)
    {n : NodeId} {c : Connection} (hc : c ∈ (g.node n).inputs) :
    (g.nodes.toList.foldr (g.ask model sizes) init).getD c.id [] = priced model sizes (g.node n)
      (g.requestedOf (g.nodes.toList.foldr (g.ask model sizes) init) n) c := by
  have hn := lt_size_of_mem hc
  rw [← requestedOf_drop hg model sizes init hn]
  conv_lhs => rw [g.nodes_split hn]
  rw [List.foldr_append, List.foldr_cons,
    getD_foldr_ask_of_ne (hg.id_ne_of_mem_take hc (Nat.le_refl n)), ask_eq, hg.node_id n hn]
  refine getD_foldl_set_of_mem (priced model sizes (g.node n) _) [] (hg.nodup_map_id n) hc ?_
  rw [size_foldr_ask, hinit]
  exact hg.id_lt_length (mem_connections_iff.2 ⟨n, hc⟩)

/-- Over a connection its target asks, in view of everything that is asked of the target. -/
theorem getD_demand {g : Graph} (hg : g.Numbered) (model : CostModel α)
    (sizes : Array (Estimates α)) {n : NodeId} {c : Connection} (hc : c ∈ (g.node n).inputs) :
    (g.demand model sizes).getD c.id [] =
      priced model sizes (g.node n) (g.requestedOf (g.demand model sizes) n) c :=
  getD_foldr_ask hg model sizes Array.size_replicate hc

/-- What an analysed graph asks over a connection is what its target asks. -/
theorem exists_requestsOver {g : Graph} (hg : g.WellFormed) (model : CostModel α) {n : NodeId}
    {c : Connection} (hc : c ∈ (g.node n).inputs) : ∃ requested,
      (Analysis.complete g model).requestsOver c.id =
        priced model g.estimates (g.node n) requested c :=
  ⟨_, getD_demand hg.toNumbered model g.estimates hc⟩

end Graph

/-- What is asked of a node altogether is gathered from the connections that leave it. -/
theorem Graph.requestsOn_propagate {g : Graph} (hg : g.Numbered) (model : CostModel α)
    (a : Analysis α) {n : NodeId} (hn : n < g.size) :
    (a.propagate g model).requestsOn n = g.requestedOf (g.demand model a.sizes) n := by
  have hn' : n < g.nodes.size := hn
  show ((g.nodes.toList.map fun node =>
    g.requestedOf (g.demand model a.sizes) node.id).toArray).getD n [] = _
  have hnode : g.nodes[n] = g.node n := by
    unfold node
    rw [Array.getD_eq_getD_getElem?, Array.getElem?_eq_getElem hn', Option.getD_some]
  simp [hn', hnode, hg.node_id n hn]

theorem Graph.requestsOn_complete {g : Graph} (hg : g.Numbered) (model : CostModel α) {n : NodeId}
    (hn : n < g.size) : (Analysis.complete g model).requestsOn n =
      g.requestedOf (g.demand model g.estimates) n :=
  requestsOn_propagate hg model (({} : Analysis α).estimate g) hn

/-! ## §3 A node's own requests -/

omit [Quantity α] in
/-- Requests that are merged keep those that were there. -/
theorem Request.mem_mergeAll_left {rs extra : List (Request α)} {r : Request α} (h : r ∈ rs) :
    r ∈ Request.mergeAll rs extra := by
  unfold Request.mergeAll
  refine List.foldlRecOn (motive := fun rs => r ∈ rs) _ _ h ?_
  intro rs hrs extra _
  unfold Request.merge
  split
  · exact hrs
  · exact List.mem_append_left _ hrs

/-- What a node's own drivers would like is asked, whatever else is. -/
theorem Node.mem_inputRequests_of_own {n : Node} {input : Nat} {requested : List (Request α)}
    {r : Request α} (h : r ∈ n.ownRequests input) : r ∈ n.inputRequests input requested := by
  unfold inputRequests
  split
  · rename_i hkind
    simp [ownRequests, hkind] at h
  · rename_i hkind
    simp [ownRequests, hkind] at h
  · dsimp only
    split
    · exact Request.mem_mergeAll_left h
    · exact h

/-- What a node's own drivers would like is asked over its connections. -/
theorem Graph.exists_requestsOver_of_own {g : Graph} (hg : g.WellFormed) (model : CostModel α)
    {n : NodeId} {c : Connection} (hc : c ∈ (g.node n).inputs) {r : Request α}
    (h : r ∈ (g.node n).ownRequests c.position) :
    ∃ r' ∈ (Analysis.complete g model).requestsOver c.id, r'.isSame r = true := by
  obtain ⟨requested, hrequested⟩ := g.exists_requestsOver hg model hc
  rw [hrequested]
  unfold priced
  refine ⟨_, List.mem_map_of_mem (Node.mem_inputRequests_of_own h), ?_⟩
  simp [Request.isSame]

/-! ## §4 Where nothing is asked -/

/-- The node is an operator other than a sink. -/
def NodeKind.works : NodeKind → Bool
  | .sinkJoiner => false
  | .operator kind => !kind.isSink

namespace Graph

/-- The node, or some node below it, is an operator other than a sink. -/
def Works (g : Graph) (n : NodeId) : Prop := ∃ m, g.Reaches n m ∧ (g.node m).kind.works = true

theorem Works.of_reaches {g : Graph} {a b : NodeId} (h : g.Works b) (hab : g.Reaches a b) :
    g.Works a := by
  obtain ⟨m, hm, hworks⟩ := h
  exact ⟨m, hab.trans hm, hworks⟩

/-- Sinks and joiners pass on what they are asked, and ask nothing themselves. -/
theorem inputRequests_eq_nil {node : Node} (h : node.kind.works = false) (input : Nat) :
    node.inputRequests input ([] : List (Request α)) = [] := by
  unfold Node.inputRequests
  cases hkind : node.kind with
  | sinkJoiner => rfl
  | operator kind =>
    rw [hkind] at h
    cases kind <;> simp_all [NodeKind.works, Kind.isSink, Node.ownRequests, Request.mergeAll]

/-- Nothing is asked over connections that lead to sinks and joiners only. -/
def Quiet (g : Graph) (demand : Demand α) : Prop :=
  ∀ c ∈ g.connections, ¬ g.Works c.target → demand.getD c.id [] = []

omit [Quantity α] in
theorem Quiet.requestedOf_eq_nil {g : Graph} (hg : g.Numbered) {demand : Demand α}
    (h : g.Quiet demand) {n : NodeId} (hn : ¬ g.Works n) : g.requestedOf demand n = [] := by
  unfold requestedOf
  refine List.foldlRecOn (motive := fun rs => rs = []) _ _ rfl ?_
  rintro rs rfl c hc
  obtain ⟨⟨x, hx⟩, hsource⟩ := mem_outgoing_iff.1 hc
  have htarget : ¬ g.Works c.target := by
    intro hworks
    rw [hg.target_eq x c hx] at hworks
    exact hn (hworks.of_reaches (hsource ▸ reaches_of_mem hx))
  rw [h c (mem_connections_iff.2 ⟨x, hx⟩) htarget]
  rfl

theorem Quiet.ask {g : Graph} (hg : g.Numbered) {model : CostModel α}
    {sizes : Array (Estimates α)} {demand : Demand α} (h : g.Quiet demand) {n : NodeId}
    (hn : n < g.size) : g.Quiet (g.ask model sizes (g.node n) demand) := by
  intro c hc hworks
  rw [ask_eq, hg.node_id n hn]
  by_cases hmem : ∃ e ∈ (g.node n).inputs, e.id = c.id
  · obtain ⟨e, he, hid⟩ := hmem
    obtain rfl := hg.eq_of_id_eq (mem_connections_iff.2 ⟨n, he⟩) hc hid
    rw [hg.target_eq n e he] at hworks
    have hkind : (g.node n).kind.works = false := by
      by_contra hkind
      exact hworks ⟨n, Reaches.refl g n, by simpa using hkind⟩
    by_cases hlt : e.id < demand.size
    · rw [getD_foldl_set_of_mem _ [] (hg.nodup_map_id n) he hlt, h.requestedOf_eq_nil hg hworks]
      unfold priced
      rw [inputRequests_eq_nil hkind, List.map_nil]
    · rw [Array.getD_eq_getD_getElem?, Array.getElem?_eq_none (by
        rw [size_foldl_set]
        exact Nat.le_of_not_lt hlt)]
      rfl
  · rw [getD_foldl_set_of_ne _ [] fun e he hid => hmem ⟨e, he, hid⟩]
    exact h c hc hworks

/-- Nothing is asked by what ends a branch. -/
theorem quiet_demand {g : Graph} (hg : g.Numbered) (model : CostModel α) :
    g.Quiet (g.demand model g.estimates) := by
  unfold demand
  refine List.foldrRecOn (motive := g.Quiet) _ _ ?_ ?_
  · intro e _ _
    rw [Array.getD_eq_getD_getElem?, Array.getElem?_replicate]
    split <;> rfl
  · intro d hd node hnode
    obtain ⟨m, hm, rfl⟩ := exists_node_eq hnode
    exact hd.ask hg hm

/-- An analysed graph asks nothing of data that only ends up in sinks. -/
theorem requestsOver_eq_nil {g : Graph} (hg : g.Numbered) (model : CostModel α) {n : NodeId}
    {c : Connection} (hc : c ∈ (g.node n).inputs) (hn : ¬ g.Works n) :
    (Analysis.complete g model).requestsOver c.id = [] := by
  rw [← hg.target_eq n c hc] at hn
  exact quiet_demand hg model c (mem_connections_iff.2 ⟨n, hc⟩) hn

end Graph

end FlowPlanner
