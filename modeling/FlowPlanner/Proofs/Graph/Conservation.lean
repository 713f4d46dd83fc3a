/-
FlowPlanner.Proofs.Graph.Conservation — layout loses nothing and duplicates nothing.

When all operators are placed, every node that was put in is read once. Joiners then
tie the sinks together: each reads the root so far and one more sink, and is the root
after that, so the last one alone is read by nothing (`Draft.Tied`). A finished graph
thus holds a node for each operator, a union for each position that needs one and
a joiner for each sink but one, and what an operator reads is what its node reads
(`Graph.conserves_of_build`).
-/
import FlowPlanner.Proofs.Graph.Wiring

namespace FlowPlanner

namespace Draft

variable {d d' : Draft}

/-! ## §1 Tying sinks -/

/-- Joiners were added and nothing else; every node that was put in is read once, but for the root,
which nothing reads. -/
structure Tied (d d' : Draft) (root : NodeId) (count : Nat) : Prop where
  le : d.next ≤ d'.next
  kept : ∀ n < d.next, d'.graph.node n = d.graph.node n
  joiner : ∀ n, d.next ≤ n → n < d'.next →
    (d'.graph.node n).op = none ∧ (d'.graph.node n).kind = .sinkJoiner
  joiners : d'.nodes.countP (·.kind.isJoiner) = d.nodes.countP (·.kind.isJoiner) + count
  once : ∀ n < d'.next, (d'.graph.node n).op = none →
    (d'.graph.outgoing n).length = if n = root then 0 else 1

/-- A joiner reads the root and one more sink, which stands for an operator, and is the new root. -/
theorem once_tie (hd : d.Sound) {root sink : NodeId} (hroot : root < d.next)
    (hsink : sink < d.next) (hsinkop : (d.graph.node sink).op ≠ none) (joiner : Node)
    (honce : ∀ n < d.next, (d.graph.node n).op = none →
      (d.graph.outgoing n).length = if n = root then 0 else 1) {n : NodeId}
    (hn : n < (d.push joiner [⟨root, 0, .unset, []⟩, ⟨sink, 1, .unset, []⟩]).next)
    (hnone : ((d.push joiner [⟨root, 0, .unset, []⟩, ⟨sink, 1, .unset, []⟩]).graph.node n).op =
      none) :
    ((d.push joiner [⟨root, 0, .unset, []⟩, ⟨sink, 1, .unset, []⟩]).graph.outgoing n).length =
      if n = d.next then 0 else 1 := by
  have hcount : [root, sink].count n = (if n = root then 1 else 0) + if n = sink then 1 else 0 := by
    rw [List.count_cons, List.count_singleton, Nat.add_comm]
    simp only [beq_iff_eq, @eq_comm _ n]
  rw [length_outgoing_push, List.map_cons, List.map_cons, List.map_nil, hcount]
  rcases lt_or_eq_of_lt_next_push hn with hlt | rfl
  · rw [node_push_of_lt hlt] at hnone
    have hne : n ≠ sink := by
      rintro rfl
      exact hsinkop hnone
    rw [honce n hlt hnone, if_neg hne, if_neg (Nat.ne_of_lt hlt)]
    split <;> rfl
  · rw [hd.outgoing_of_le (Nat.le_refl _), if_neg (Nat.ne_of_gt hroot),
      if_neg (Nat.ne_of_gt hsink), if_pos rfl]
    rfl

theorem joinSinks_tied (config : Config) : ∀ {sinks : List NodeId} {i : Nat} {root : NodeId}
    {d : Draft}, d.Sound → root < d.next →
      (∀ s ∈ sinks, s < d.next ∧ (d.graph.node s).op ≠ none) →
        (∀ n < d.next, (d.graph.node n).op = none →
          (d.graph.outgoing n).length = if n = root then 0 else 1) →
            Tied d (joinSinks config i root sinks d).1 (joinSinks config i root sinks d).2
              sinks.length
  | [], i, root, d, _, _, _, honce =>
    ⟨Nat.le_refl _, fun _ _ => rfl, fun n hle hlt => absurd hlt (Nat.not_lt_of_le hle), rfl, honce⟩
  | sink :: rest, i, root, d, hd, hroot, hsinks, honce => by
    unfold joinSinks
    dsimp only
    generalize hjoiner : ({ id := 0, name := _, kind := .sinkJoiner, parallelism := _
                            memoryBytes := _ } : Node) = joiner
    have hkind : joiner.kind = .sinkJoiner := by rw [← hjoiner]
    have hop : joiner.op = none := by rw [← hjoiner]
    obtain ⟨hsink, hsinkop⟩ := hsinks sink List.mem_cons_self
    have htie := fun n => @once_tie d hd root sink hroot hsink hsinkop joiner honce n
    have hpush := hd.tie hroot hsink hkind
    generalize [(⟨root, 0, .unset, []⟩ : Feed), ⟨sink, 1, .unset, []⟩] = feeds at htie hpush ⊢
    have hlt := next_lt_next_push d joiner feeds
    have htied := @joinSinks_tied config rest (i + 1) d.next _ hpush hlt (by
      intro s hs
      obtain ⟨hs, hsop⟩ := hsinks s (List.mem_cons_of_mem sink hs)
      rw [node_push_of_lt hs]
      exact ⟨lt_next_push hs joiner feeds, hsop⟩) htie
    refine ⟨Nat.le_trans (Nat.le_of_lt hlt) htied.le, ?_, ?_, ?_, htied.once⟩
    · intro n hn
      rw [htied.kept n (lt_next_push hn joiner feeds), node_push_of_lt hn]
    · intro n hle hn
      rcases Nat.eq_or_lt_of_le hle with rfl | hgt
      · rw [htied.kept _ hlt, node_push_next]
        exact ⟨hop, hkind⟩
      · refine htied.joiner n ?_ hn
        rw [next_push]
        exact hgt
    · have hone : (d.push joiner feeds).nodes.countP (·.kind.isJoiner) =
          d.nodes.countP (·.kind.isJoiner) + 1 := by
        simp [push, hkind, NodeKind.isJoiner]
      rw [htied.joiners, List.length_cons, hone]
      omega

/-- The sinks of a draft are its nodes of operators that end the job. -/
theorem Wired.sink_op {ops : List Operator} (h : d.Wired ops) {n : NodeId} (hn : n ∈ d.sinks) :
    (d.graph.node n).op ≠ none := by
  have hmem := List.mem_map_of_mem (f := fun n => (d.graph.node n).op) hn
  rw [h.sinks_eq] at hmem
  obtain ⟨op, -, hop⟩ := List.mem_map.1 hmem
  rw [← hop]
  simp

end Draft

/-! ## §2 The graph of a job -/

namespace Graph

/-- What layout makes of a listing of operators. -/
structure Assembles (g : Graph) (ops : List Operator) : Prop where
  wires : ∀ n < g.size, ∀ id, (g.node n).op = some id → ∃ op ∈ ops, op.id = id ∧ g.Wires n op
  put_in : ∀ n < g.size, (g.node n).op = none →
    (g.node n).kind = .sinkJoiner ∨ Draft.IsRead g n
  joiners : g.nodes.countP (·.kind.isJoiner) + 1 = ops.countP (·.kind.isSink)

/-- Tying the sinks together completes a wired draft. -/
theorem assembles_of_tied {g : Graph} {d done : Draft} {ops : List Operator} {first : NodeId}
    {rest : List NodeId} (hd : d.Sound) (hwired : d.Wired ops) (hsinks : d.sinks = first :: rest)
    {root : NodeId} (htied : Draft.Tied d done root rest.length) (hnodes : g.nodes = done.nodes) :
    g.Assembles ops := by
  have hat : ∀ n, g.node n = done.graph.node n := node_of_nodes_eq hnodes
  have hsize : g.size = done.next := congrArg Array.size hnodes
  have hkept : ∀ n < d.next, g.node n = d.graph.node n := by
    intro n hn
    rw [hat, htied.kept n hn]
  refine ⟨?_, ?_, ?_⟩
  · intro n hn id hop
    rw [hsize] at hn
    by_cases hold : n < d.next
    · rw [hkept n hold] at hop
      obtain ⟨op, hmem, hid, hwires⟩ := hwired.wires n hold id hop
      exact ⟨op, hmem, hid, hwires.mono hd.numbered hkept hold⟩
    · rw [hat, (htied.joiner n (Nat.le_of_not_lt hold) hn).1] at hop
      simp at hop
  · intro n hn hnone
    rw [hsize] at hn
    by_cases hold : n < d.next
    · rw [hkept n hold] at hnone
      have hread := hwired.read n hold hnone
      obtain ⟨m, -, c, hc, hcn⟩ := hread.reader
      have hmem : c ∈ g.outgoing n := by
        refine mem_outgoing_iff.2 ⟨⟨m, ?_⟩, hcn⟩
        rw [hkept m (lt_size_of_mem hc)]
        exact hc
      have honce := htied.once n hn (by rw [htied.kept n hold, hnone])
      rw [← outgoing_of_nodes_eq (g := done.graph) hnodes] at honce
      refine .inr (hread.mono hold hkept ?_)
      -- It is read, so it is not the root.
      have hpos := List.length_pos_of_mem hmem
      rw [hread.once]
      split at honce
      · omega
      · exact honce
    · rw [hat]
      exact .inl (htied.joiner n (Nat.le_of_not_lt hold) hn).2
  · have hlength : d.sinks.length = (ops.filter (·.kind.isSink)).length := by
      simpa using congrArg List.length hwired.sinks_eq
    rw [hnodes, htied.joiners, hwired.no_joiner, List.countP_eq_length_filter, ← hlength, hsinks,
      Nat.zero_add]
    rfl

theorem assembles_of_build {config : Config} {job : Job} {g : Graph}
    (h : Graph.build config job = .ok g) : g.Assembles job.operators := by
  obtain ⟨ops, d, first, rest, hlisting, hperm, hplace, hsinks, hgraph⟩ := build_ok h
  obtain ⟨hd, -⟩ := Draft.placeAll_listing hlisting hplace
  have hwired := Draft.wired_empty.placeAll Draft.sound_empty hlisting.shaped
    hlisting.producers_first hplace
  rw [List.nil_append] at hwired
  have hsink : ∀ s ∈ first :: rest, s < d.next ∧ (d.graph.node s).op ≠ none :=
    fun s hs => ⟨hd.sink_lt s (hsinks ▸ hs), hwired.sink_op (hsinks ▸ hs)⟩
  obtain ⟨hfirst, hfirstop⟩ := hsink first List.mem_cons_self
  have htied := Draft.joinSinks_tied config (i := 0) hd hfirst
    (fun s hs => hsink s (List.mem_cons_of_mem first hs)) (by
      intro n hn hnone
      have hne : n ≠ first := by
        rintro rfl
        exact hfirstop hnone
      rw [if_neg hne, (hwired.read n hn hnone).once])
  obtain ⟨hwires, hputin, hjoiners⟩ :=
    assembles_of_tied hd hwired hsinks htied (congrArg Graph.nodes hgraph)
  refine ⟨?_, hputin, hperm.countP_eq (·.kind.isSink) ▸ hjoiners⟩
  intro n hn id hop
  obtain ⟨op, hmem, hid, hwires⟩ := hwires n hn id hop
  exact ⟨op, hperm.mem_iff.1 hmem, hid, hwires⟩

variable {g : Graph} {job : Job}

/-- A connection stands among the inputs of its target and among what leaves its source, once. -/
theorem WellFormed.count_eq (hg : g.WellFormed) {c : Connection} (hc : c ∈ g.connections)
    (n : NodeId) : (g.node n).inputs.count c = (if n = c.target then 1 else 0) ∧
      (g.outgoing n).count c = if n = c.source then 1 else 0 := by
  obtain ⟨m, hm⟩ := mem_connections_iff.1 hc
  have hinput : c ∈ (g.node n).inputs ↔ n = c.target := by
    constructor
    · exact fun hn => (hg.target_eq n c hn).symm
    · rintro rfl
      rwa [hg.target_eq m c hm]
  have houtput : c ∈ g.outgoing n ↔ n = c.source := by
    rw [mem_outgoing_iff]
    exact ⟨fun h => h.2.symm, fun h => ⟨⟨m, hm⟩, h.symm⟩⟩
  rw [(hg.nodup_inputs n).count, (hg.nodup_outgoing n).count]
  simp only [hinput, houtput, and_self]

/-- Only the root has no outgoing connections. -/
theorem WellFormed.outgoing_eq_nil_iff (hg : g.WellFormed) {n : NodeId} (hn : n < g.size) :
    g.outgoing n = [] ↔ n = g.root := by
  constructor
  · intro hnil
    rcases Relation.ReflTransGen.cases_head (hg.to_root n hn) with heq | ⟨m, ⟨c, hc, hcn⟩, -⟩
    · exact heq
    · have hmem : c ∈ g.outgoing n := mem_outgoing_iff.2 ⟨⟨m, hc⟩, hcn⟩
      rw [hnil] at hmem
      simp at hmem
  · rintro rfl
    refine List.eq_nil_iff_forall_not_mem.2 ?_
    intro c hc
    obtain ⟨⟨m, hm⟩, hcr⟩ := mem_outgoing_iff.1 hc
    -- What reads the root would have to reach it.
    exact hg.not_reaches_source hm (hcr ▸ hg.to_root m (lt_size_of_mem hm))

/-- The node is the union put in for an input position of an operator: it joins the producers of
the position, and the one connection that leaves it enters the position. -/
structure Gathers (g : Graph) (u : NodeId) (op : Operator) (position : Nat) : Prop where
  joins : g.Joins u (op.inputs.getD position [])
  only : ∃ c, g.outgoing u = [c] ∧ (g.node c.target).op = some op.id ∧ c.position = position

/-- The inputs of an operator that is no union stand at their positions. -/
theorem Wires.position_eq {n : NodeId} {op : Operator} (h : g.Wires n op) (hg : g.WellFormed)
    (hunion : op.kind.isUnion = false) {i : Nat} {c : Connection}
    (hc : (g.node n).inputs[i]? = some c) : c.position = i := by
  have haccepted := hg.accepted n (lt_size_of_mem (List.mem_of_getElem? hc))
  rw [h.kind_eq] at haccepted
  have hget : ((g.node n).inputs.map (·.position))[i]? = some c.position := by
    rw [List.getElem?_map, hc]
    rfl
  rw [haccepted.1 hunion] at hget
  obtain ⟨hi, hrange⟩ := List.getElem?_eq_some_iff.1 hget
  rw [← hrange, List.getElem_range]

/-- A position that reads a node that was put in has several producers, and the node is the union
put in for it; and a position with several producers reads such a node. -/
theorem Assembles.gathers (h : g.Assembles job.operators) (hg : g.WellFormed) {n : NodeId}
    {op : Operator} (hop : (g.node n).op = some op.id) (hwires : g.Wires n op)
    (hunion : op.kind.isUnion = false) {i : Nat} {c : Connection}
    (hc : (g.node n).inputs[i]? = some c)
    (hmany : (g.node c.source).op = none ∨ 1 < (op.inputs.getD i []).length) :
    1 < (op.inputs.getD i []).length ∧ g.Gathers c.source op i := by
  have hmem := List.mem_of_getElem? hc
  obtain ⟨ids, hids, hdelivers⟩ := getElem?_of_forall₂ (hwires.positions hunion) hc
  have hget : op.inputs.getD i [] = ids := by
    rw [List.getD_eq_getElem?_getD, hids]
    rfl
  rw [hget] at hmany ⊢
  cases hdelivers with
  | direct hlabel =>
    rcases hmany with hnone | hmany
    · rw [hnone] at hlabel
      simp at hlabel
    · simp at hmany
  | joined several hjoins =>
    refine ⟨several, ⟨hget ▸ hjoins, c, ?_, ?_, hwires.position_eq hg hunion hc⟩⟩
    · rcases h.put_in c.source (hg.source_lt_size hmem) hjoins.op_eq with hjoiner | hread
      · rw [hjoins.kind_eq] at hjoiner
        simp at hjoiner
      · obtain ⟨e, he⟩ := List.length_eq_one_iff.1 hread.once
        have hout : c ∈ g.outgoing c.source := mem_outgoing_iff.2 ⟨⟨n, hmem⟩, rfl⟩
        rw [he] at hout ⊢
        rw [List.mem_singleton.1 hout]
    · rw [hg.target_eq n c hmem]
      exact hop

theorem Assembles.wires_of_op (h : g.Assembles job.operators) (hdepicts : g.Depicts job)
    {op : Operator} (hop : op ∈ job.operators) {n : NodeId} (hn : (g.node n).op = some op.id) :
    g.Wires n op := by
  obtain ⟨op', hop', hid, hwires⟩ := h.wires n (lt_size_of_op hn) op.id hn
  obtain rfl := hdepicts.ids op' hop' op hop hid
  exact hwires

/-- One union is put in for a position with several producers. -/
theorem Assembles.existsUnique_gathers (h : g.Assembles job.operators) (hg : g.WellFormed)
    (hdepicts : g.Depicts job) {op : Operator} (hop : op ∈ job.operators)
    (hunion : op.kind.isUnion = false) {i : Nat} (hmany : 1 < (op.inputs.getD i []).length) :
    ∃! u, u < g.size ∧ g.Gathers u op i := by
  obtain ⟨n, ⟨hn, hlabel⟩, hunique⟩ := hdepicts.unique op hop
  have hnode := h.wires_of_op hdepicts hop hlabel
  have hi : op.inputs[i]? = some (op.inputs.getD i []) := by
    rw [List.getD_eq_getElem?_getD] at hmany ⊢
    cases hget : op.inputs[i]? with
    | none =>
      rw [hget] at hmany
      simp at hmany
    | some ids => rfl
  obtain ⟨c, hc, -⟩ := getElem?_of_forall₂ (hnode.positions hunion).flip hi
  obtain ⟨-, hgathers⟩ := h.gathers hg hlabel hnode hunion hc (.inr hmany)
  refine ⟨c.source, ⟨hg.source_lt_size (List.mem_of_getElem? hc), hgathers⟩, ?_⟩
  rintro u ⟨-, -, e, hout, htarget, hposition⟩
  -- What leaves the union enters the same position, so it is the same connection.
  have he : e ∈ g.outgoing u := hout ▸ List.mem_cons_self
  obtain ⟨⟨m, hm⟩, rfl⟩ := mem_outgoing_iff.1 he
  rw [hg.target_eq m e hm] at htarget
  obtain rfl := hunique m ⟨lt_size_of_mem hm, htarget⟩
  obtain ⟨j, hj⟩ := List.mem_iff_getElem?.1 hm
  obtain rfl : j = i := (hnode.position_eq hg hunion hj).symm.trans hposition
  rw [hc] at hj
  rw [Option.some.inj hj]

/-- A node that stands for no operator is a joiner, or the union put in for some position. -/
theorem Assembles.putIn (h : g.Assembles job.operators) (hg : g.WellFormed) {n : NodeId}
    (hn : n < g.size) (hlabel : (g.node n).op = none) : (g.node n).kind = .sinkJoiner ∨
      ∃ op ∈ job.operators, op.kind.isUnion = false ∧ ∃ i,
        1 < (op.inputs.getD i []).length ∧ g.Gathers n op i := by
  rcases h.put_in n hn hlabel with hjoiner | hread
  · exact .inl hjoiner
  · obtain ⟨m, hm, c, hc, rfl⟩ := hread.reader
    obtain ⟨id, hid⟩ := Option.ne_none_iff_exists'.1 hm
    obtain ⟨op, hop, rfl, hnode⟩ := h.wires m (lt_size_of_mem hc) id hid
    -- A declared union reads nodes of operators only.
    have hunion : op.kind.isUnion = false := by
      by_contra hunion
      have hlabels := hnode.union (by simpa using hunion)
      have hmem : (g.node c.source).op ∈ op.producers.map some := by
        rw [← hlabels]
        exact List.mem_map_of_mem hc
      rw [hlabel] at hmem
      simp at hmem
    obtain ⟨i, hi⟩ := List.mem_iff_getElem?.1 hc
    exact .inr ⟨op, hop, hunion, i, h.gathers hg hid hnode hunion hi (.inl hlabel)⟩

/-- A graph holds what its job declares, each part once: connections run from smaller numbers to
larger ones and stand once at either end; there is a node for each operator, which reads what the
operator reads; besides there is a union for each position of another operator with several
producers, and a joiner for each sink but one; and everything flows into the root alone. -/
structure Conserves (g : Graph) (job : Job) : Prop where
  ascending : ∀ c ∈ g.connections, c.source < c.target ∧ c.target < g.size
  once : ∀ c ∈ g.connections, ∀ n,
    (g.node n).inputs.count c = (if n = c.target then 1 else 0) ∧
      (g.outgoing n).count c = if n = c.source then 1 else 0
  operators : ∀ op ∈ job.operators, ∃! n, n < g.size ∧ (g.node n).op = some op.id
  wires : ∀ op ∈ job.operators, ∀ n, (g.node n).op = some op.id → g.Wires n op
  unions : ∀ op ∈ job.operators, op.kind.isUnion = false → ∀ i,
    1 < (op.inputs.getD i []).length → ∃! u, u < g.size ∧ g.Gathers u op i
  joiners : g.nodes.countP (·.kind.isJoiner) + 1 = job.operators.countP (·.kind.isSink)
  /-- There are no other nodes. -/
  nodes : ∀ n < g.size, (∃ op ∈ job.operators, (g.node n).op = some op.id) ∨
    (g.node n).kind = .sinkJoiner ∨
      ∃ op ∈ job.operators, op.kind.isUnion = false ∧ ∃ i,
        1 < (op.inputs.getD i []).length ∧ g.Gathers n op i
  positions : ∀ n < g.size, ∀ kind, (g.node n).kind = .operator kind → kind.isUnion = false →
    (g.node n).inputs.map (·.position) = List.range kind.arity
  joined : ∀ n < g.size, (g.node n).kind = .sinkJoiner →
    (g.node n).inputs.map (·.position) = [0, 1]
  root_only : ∀ n < g.size, g.outgoing n = [] ↔ n = g.root
  to_root : ∀ n < g.size, g.Reaches n g.root

/-- Layout loses nothing that a job declares, and duplicates nothing. -/
theorem conserves_of_build {config : Config} {job : Job} {g : Graph}
    (h : Graph.build config job = .ok g) : g.Conserves job := by
  have hg := wellFormed_of_build h
  have hdepicts := depicts_of_build h
  have hassembles := assembles_of_build h
  refine ⟨?_, fun c hc n => hg.count_eq hc n, hdepicts.unique,
    fun op hop n => hassembles.wires_of_op hdepicts hop,
    fun op hop hunion i => hassembles.existsUnique_gathers hg hdepicts hop hunion,
    hassembles.joiners, ?_, ?_, ?_, fun n hn => hg.outgoing_eq_nil_iff hn, hg.to_root⟩
  · intro c hc
    obtain ⟨n, hn⟩ := mem_connections_iff.1 hc
    rw [hg.target_eq n c hn]
    exact ⟨hg.source_lt n c hn, lt_size_of_mem hn⟩
  · intro n hn
    cases hlabel : (g.node n).op with
    | some id =>
      obtain ⟨op, hop, rfl, -⟩ := hassembles.wires n hn id hlabel
      exact .inl ⟨op, hop, rfl⟩
    | none => exact .inr (hassembles.putIn hg hn hlabel)
  · intro n hn kind hkind hunion
    have haccepted := hg.accepted n hn
    rw [hkind] at haccepted
    exact haccepted.1 hunion
  · intro n hn hkind
    have haccepted := hg.accepted n hn
    rwa [hkind] at haccepted

/-- A join that reads one source on both sides and twice on the second, and a declared union that
reads the join and a source twice, each with a sink. -/
def repeatedProducers : Job where
  operators :=
    [{ id := 1, name := "left", kind := .source {} },
     { id := 2, name := "right", kind := .source {} },
     { id := 3, name := "pairs", kind := .equiJoin, inputs := [[1, 2], [2, 2]]
       keys := [[0], [0]] },
     { id := 4, name := "all", kind := .union, inputs := [[3, 1, 1]] },
     { id := 5, name := "out", kind := .sink, inputs := [[4]] },
     { id := 6, name := "log", kind := .sink, inputs := [[3]] }]

/-- Nine nodes stand for its six operators: two unions are put in for the positions of the join, and
one joiner for the two sinks. -/
theorem conserves_of_build_repeatedProducers : ∃ g, Graph.build {} repeatedProducers = .ok g ∧
    g.size = 9 ∧ g.nodes.countP (·.kind.isJoiner) = 1 ∧
      (g.nodes.filter (fun node => node.op == none && !node.kind.isJoiner)).size = 2 ∧
        g.connections.length = 13 ∧ g.Conserves repeatedProducers := by
  obtain ⟨g, hbuild, hcheck⟩ := exists_ok_of_any (r := Graph.build {} repeatedProducers)
    (f := fun g => g.size == 9 && g.nodes.countP (·.kind.isJoiner) == 1 &&
      (g.nodes.filter (fun node => node.op == none && !node.kind.isJoiner)).size == 2 &&
        g.connections.length == 13) (by decide +kernel)
  simp only [Bool.and_eq_true, beq_iff_eq] at hcheck
  obtain ⟨⟨⟨hsize, hjoiners⟩, hunions⟩, hconnections⟩ := hcheck
  exact ⟨g, hbuild, hsize, hjoiners, hunions, hconnections, conserves_of_build hbuild⟩

end Graph

end FlowPlanner
