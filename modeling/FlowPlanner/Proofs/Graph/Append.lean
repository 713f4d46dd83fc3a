/-
FlowPlanner.Proofs.Graph.Append — the graph of a job with one more sink.

The sink is laid out after all other operators and before the joiners, which read sinks
and joiners only (`Draft.joinSinks_frame`). So all nodes up to then stay, with the
connections that leave them, but for the one node that the sink reads
(`Graph.exists_grows_of_build`).
-/
import FlowPlanner.Proofs.Graph.Growth
import FlowPlanner.Proofs.Job.Append

namespace FlowPlanner

namespace Draft

variable {d : Draft}

/-! ## §1 Tying sinks -/

theorem outgoing_push (d : Draft) (node : Node) (feeds : List Feed) (n : NodeId) :
    (d.push node feeds).graph.outgoing n =
      d.graph.outgoing n ++ (connect d.connectionCount d.next feeds).filter (·.source == n) := by
  unfold Graph.outgoing
  rw [connections_push, List.filter_append]

/-- Tying sinks together keeps the nodes there are, and what leaves those that are not tied. -/
theorem joinSinks_frame (config : Config) : ∀ (sinks : List NodeId) (i : Nat) (root : NodeId)
    (d : Draft), d.next ≤ (joinSinks config i root sinks d).1.next ∧ ∀ n < d.next,
      (joinSinks config i root sinks d).1.graph.node n = d.graph.node n ∧
        (n ∉ root :: sinks →
          (joinSinks config i root sinks d).1.graph.outgoing n = d.graph.outgoing n)
  | [], _, _, _ => ⟨Nat.le_refl _, fun _ _ => ⟨rfl, fun _ => rfl⟩⟩
  | sink :: rest, i, root, d => by
    unfold joinSinks
    dsimp only
    generalize ({ id := 0, name := _, kind := .sinkJoiner, parallelism := _
                  memoryBytes := _ } : Node) = joiner
    generalize hfeeds : [(⟨root, 0, .unset, []⟩ : Feed), ⟨sink, 1, .unset, []⟩] = feeds
    have hlt := next_lt_next_push d joiner feeds
    obtain ⟨hle, hframe⟩ := joinSinks_frame config rest (i + 1) d.next (d.push joiner feeds)
    refine ⟨Nat.le_trans (Nat.le_of_lt hlt) hle, fun n hn => ?_⟩
    obtain ⟨hnode, hout⟩ := hframe n (lt_next_push hn joiner feeds)
    refine ⟨hnode.trans (node_push_of_lt hn joiner feeds), fun hnot => ?_⟩
    rw [List.mem_cons, List.mem_cons, not_or, not_or] at hnot
    obtain ⟨hroot, hsink, hrest⟩ := hnot
    have hnone : (connect d.connectionCount d.next feeds).filter (·.source == n) = [] := by
      subst hfeeds
      simp [connect, Ne.symm hroot, Ne.symm hsink]
    rw [hout (by simp [Nat.ne_of_lt hn, hrest]), outgoing_push, hnone, List.append_nil]

/-! ## §2 Placing the sink -/

theorem placed_feedAll (op : Operator) (shell : Node) (pins : List Pin) :
    ∀ (inputs : List (List OpId)) (position : Nat) (d : Draft),
      (feedAll op shell pins position inputs d).1.placed = d.placed
  | [], _, _ => rfl
  | producers :: rest, position, d => by
    unfold feedAll
    dsimp only
    rw [placed_feedAll op shell pins rest, placed_feedPosition]

/-- Every operator that was placed has a node. -/
theorem mem_placed_of_placeAll {config : Config} : ∀ {ops : List Operator} {d d' : Draft},
    ops.foldlM (place config) d = .ok d' → ∀ id,
      id ∈ d.placed.map (·.1) ∨ id ∈ ops.map (·.id) → id ∈ d'.placed.map (·.1)
  | [], d, d', h, id, hid => by
    obtain rfl := Except.ok.inj h
    simpa using hid
  | op :: ops, d, d', h, id, hid => by
    rw [List.foldlM_cons] at h
    obtain ⟨d₁, hplace, h⟩ := exists_ok_of_bind h
    obtain ⟨hints, shell, d₂, feeds, -, -, -, -, -, hfed, rfl⟩ := place_ok hplace
    have hplaced : d₂.placed = d.placed := by
      rw [← placed_feedAll op shell hints.pins op.inputs 0 d, hfed]
    refine mem_placed_of_placeAll h id ?_
    rw [show ({ d₂.push shell feeds with
      placed := (op.id, d₂.next) :: d₂.placed
      sinks := if op.kind.isSink then d₂.sinks ++ [d₂.next] else d₂.sinks } : Draft).placed =
        (op.id, d₂.next) :: d₂.placed from rfl, hplaced, List.map_cons, List.mem_cons]
    rw [List.map_cons, List.mem_cons] at hid
    tauto

/-- A tap becomes one node that reads the node of its input. -/
theorem place_tap (config : Config) {op : Operator} {input : OpId} (htaps : op.Taps input)
    {n : NodeId} (hn : d.nodeOf? input = some n) : ∃ shell pin keys placed,
      shell.kind = .operator .sink ∧ d.place config op = .ok { d.push shell [⟨n, 0, pin, keys⟩] with
        placed, sinks := d.sinks ++ [d.next] } := by
  obtain ⟨hints, hhints⟩ := htaps.exists_resolveHints
  have hfeed : feedAll op (op.shell config hints) hints.pins 0 op.inputs d =
      (d, [⟨n, 0, hints.pins.getD 0 .unset, op.keysOf 0⟩]) := by
    rw [htaps.inputs_eq]
    unfold feedAll feedPosition
    simp [hn, feedAll]
  have hput : d.put op (op.shell config hints) hints.pins =
      { d.push (op.shell config hints) [⟨n, 0, hints.pins.getD 0 .unset, op.keysOf 0⟩] with
        placed := (op.id, d.next) :: d.placed, sinks := d.sinks ++ [d.next] } := by
    unfold put
    rw [hfeed, htaps.kind_eq]
    rfl
  refine ⟨op.shell config hints, hints.pins.getD 0 .unset, op.keysOf 0,
    (op.id, d.next) :: d.placed, congrArg NodeKind.operator htaps.kind_eq, ?_⟩
  rw [place_eq, hhints]
  exact congrArg Except.ok hput

end Draft

namespace Graph

/-! ## §3 The graph of the job -/

/-- The end of a branch is no use to an operator other than a sink. -/
theorem Drains.not_works {g : Graph} (h : g.Drains) {n : NodeId} (hn : g.EndsAt n) :
    ¬ g.Works n := by
  rintro ⟨m, hm, hworks⟩
  have hends : g.EndsAt m := by
    rcases h.eq_or_joiner hm hn with rfl | hjoiner
    · exact hn
    · exact .inr hjoiner
  rcases hends with hsink | hjoiner
  · cases hkind : (g.node m).kind with
    | sinkJoiner => simp [hkind, NodeKind.works] at hworks
    | operator kind =>
      rw [hkind] at hsink hworks
      simp_all [NodeKind.works, NodeKind.isSink]
  · simp [hjoiner, NodeKind.works] at hworks

variable {config : Config} {job : Job} {g : Graph}

/-- A finished graph keeps the nodes of its draft, and what leaves those that end no branch. -/
structure Frames (g : Graph) (d : Draft) : Prop where
  le_size : d.next ≤ g.size
  node_eq : ∀ m < d.next, g.node m = d.graph.node m
  outgoing_eq : ∀ m < d.next, ¬ g.EndsAt m → g.outgoing m = d.graph.outgoing m

theorem frames_of_drains {d : Draft} {first : NodeId} {rest : List NodeId}
    (hsinks : d.sinks = first :: rest)
    (hg : g = { nodes := (Draft.joinSinks config 0 first rest d).1.nodes, sinks := d.sinks
                root := (Draft.joinSinks config 0 first rest d).2 }) (hdrains : g.Drains) :
    g.Frames d := by
  obtain ⟨hle, hframe⟩ := Draft.joinSinks_frame config rest 0 first d
  -- Only ends of branches are tied.
  have htied : ∀ m, ¬ g.EndsAt m → m ∉ first :: rest := by
    intro m hm hmem
    have hlist : g.sinks = first :: rest := by rw [hg, hsinks]
    rw [← hlist, hdrains.sinks_eq] at hmem
    exact hm (.inl (mem_sinkNodes.1 hmem).2)
  refine ⟨?_, ?_, fun m hm hends => ?_⟩
  · rw [hg]
    exact hle
  · rw [hg]
    exact fun m hm => (hframe m hm).1
  · have hnot := htied m hends
    rw [hg]
    exact (hframe m hm).2 hnot

theorem Frames.of_nodes_eq {d d' : Draft} (h : g.Frames d) (hnodes : d.nodes = d'.nodes) :
    g.Frames d' := by
  have hnext : d'.next = d.next := congrArg Array.size hnodes.symm
  refine ⟨?_, ?_, ?_⟩
  · rw [hnext]
    exact h.le_size
  · intro m hm
    rw [hnext] at hm
    exact (h.node_eq m hm).trans (node_of_nodes_eq hnodes m)
  · intro m hm hends
    rw [hnext] at hm
    exact (h.outgoing_eq m hm hends).trans (outgoing_of_nodes_eq hnodes m)

/-- Of two finished graphs one has a draft to which the other one's draft adds a sink that reads one
of its nodes. -/
structure AddsSink (g g' : Graph) (d : Draft) (shell : Node) (feed : Feed) : Prop where
  sound : d.Sound
  frames : g.Frames d
  frames' : g'.Frames (d.push shell [feed])
  source_lt : feed.source < d.next
  kind_eq : shell.kind = .operator .sink

/-- The sink adds one connection to those that leave the nodes of the draft. -/
theorem AddsSink.grows {g' : Graph} {d : Draft} {shell : Node} {feed : Feed}
    (h : g.AddsSink g' d shell feed) (hg : g.Numbered) (hg' : g'.Numbered) (hdrains : g.Drains)
    (hdrains' : g'.Drains) (hworks : (g.node feed.source).kind.works = true) :
    g.Grows g' d.next feed.source := by
  have hnext := Draft.next_lt_next_push d shell [feed]
  have hsame : ∀ m < d.next, g'.node m = g.node m := by
    intro m hm
    rw [h.frames'.node_eq m (Nat.lt_trans hm hnext), h.frames.node_eq m hm,
      Draft.node_push_of_lt hm]
  have hsink := (h.frames'.node_eq _ hnext).trans (Draft.node_push_next d shell [feed])
  have hends : ∀ m < d.next, g'.EndsAt m ↔ g.EndsAt m := by
    intro m hm
    unfold EndsAt
    rw [hsame m hm]
  refine ⟨hg, hg', h.frames.le_size, Nat.le_trans (Nat.le_of_lt hnext) h.frames'.le_size,
    h.source_lt, hworks, hsame, ?_,
    ⟨⟨d.connectionCount, feed.source, d.next, feed.position, feed.pin, feed.keys⟩, ?_,
      ⟨d.next, ?_⟩, ?_⟩, ?_⟩
  · intro m hm hnot c hc
    rw [h.frames.outgoing_eq m hm hnot] at hc
    obtain ⟨⟨t, ht⟩, -⟩ := mem_outgoing_iff.1 hc
    rw [h.sound.numbered.target_eq t c ht]
    exact lt_size_of_mem ht
  · refine hdrains'.not_works (.inl ?_)
    rw [hsink, h.kind_eq]
    rfl
  · rw [hsink]
    exact List.mem_singleton.2 rfl
  · intro m hm hnot
    rw [h.frames'.outgoing_eq m (Nat.lt_trans hm hnext) fun hend => hnot ((hends m hm).1 hend),
      h.frames.outgoing_eq m hm hnot, Draft.outgoing_push]
    by_cases hmn : m = feed.source
    · simp [Draft.connect, hmn]
    · simp [Draft.connect, hmn, Ne.symm hmn]
  · exact fun m hm hend => ⟨hdrains.not_works hend, hdrains'.not_works ((hends m hm).2 hend)⟩

variable {op producer : Operator}

/-- A sink that is declared at the end and reads one operator is added to the draft of the job. -/
theorem exists_addsSink_of_build (h : Graph.build config job = .ok g)
    (hfresh : ∀ op' ∈ job.operators, op'.id ≠ op.id) (hproducer : producer ∈ job.operators)
    (hkind : producer.kind.isSink = false) (htaps : op.Taps producer.id) :
    ∃ g' d shell feed, Graph.build config (job.append op) = .ok g' ∧
      (g.node feed.source).op = some producer.id ∧ g.AddsSink g' d shell feed := by
  obtain ⟨positions, d, first, rest, horder, hplace, hsinks, hg⟩ := build_ok_iff.1 h
  obtain ⟨hlisting, hperm⟩ := Job.listing_of_order horder
  obtain ⟨hd, -⟩ := Draft.placeAll_listing hlisting hplace
  have hwired := Draft.wired_empty.placeAll Draft.sound_empty hlisting.shaped
    hlisting.producers_first hplace
  obtain ⟨n, hn⟩ := Draft.exists_nodeOf?_of_mem (Draft.mem_placed_of_placeAll hplace producer.id
    (.inr (List.mem_map_of_mem (hperm.mem_iff.2 hproducer))))
  have hlt := hd.placed_lt _ n hn
  obtain ⟨shell, pin, keys, placed, hshell, htap⟩ := Draft.place_tap config htaps hn
  generalize hd' : ({ d.push shell [⟨n, 0, pin, keys⟩] with
    placed, sinks := d.sinks ++ [d.next] } : Draft) = d' at htap
  have hnodes : d'.nodes = (d.push shell [⟨n, 0, pin, keys⟩]).nodes := by rw [← hd']
  have hsinks' : d'.sinks = first :: (rest ++ [d.next]) := by
    rw [← hd']
    show d.sinks ++ [d.next] = _
    rw [hsinks, List.cons_append]
  obtain ⟨g', hg'⟩ : ∃ g' : Graph, g' =
      { nodes := (Draft.joinSinks config 0 first (rest ++ [d.next]) d').1.nodes, sinks := d'.sinks
        root := (Draft.joinSinks config 0 first (rest ++ [d.next]) d').2 } := ⟨_, rfl⟩
  have hbuild : Graph.build config (job.append op) = .ok g' := by
    refine build_ok_iff.2 ⟨_, d', first, rest ++ [d.next],
      Job.order_append horder hfresh hproducer hkind htaps, ?_, hsinks', hg'⟩
    rw [Job.filterMap_append horder, List.foldlM_append, hplace]
    show List.foldlM (Draft.place config) d [op] = _
    rw [List.foldlM_cons, htap]
    rfl
  have hframes := frames_of_drains hsinks hg (drains_of_build h)
  have hframes' := frames_of_drains hsinks' hg' (drains_of_build hbuild)
  refine ⟨g', d, shell, ⟨n, 0, pin, keys⟩, hbuild, ?_, hd, hframes, hframes'.of_nodes_eq hnodes,
    hlt, hshell⟩
  rw [hframes.node_eq n hlt]
  exact hwired.labelled _ n hn

/-- With the sink one more connection leaves the node of the operator that it reads. -/
theorem exists_grows_of_build (h : Graph.build config job = .ok g)
    (hfresh : ∀ op' ∈ job.operators, op'.id ≠ op.id) (hproducer : producer ∈ job.operators)
    (hkind : producer.kind.isSink = false) (htaps : op.Taps producer.id) :
    ∃ g' k n, Graph.build config (job.append op) = .ok g' ∧
      (g.node n).op = some producer.id ∧ g.Grows g' k n := by
  obtain ⟨g', d, shell, feed, h', hlabel, hadds⟩ :=
    exists_addsSink_of_build h hfresh hproducer hkind htaps
  have hworks : (g.node feed.source).kind.works = true := by
    rw [((conserves_of_build h).wires producer hproducer feed.source hlabel).kind_eq]
    simp [NodeKind.works, hkind]
  exact ⟨g', d.next, feed.source, h', hlabel, hadds.grows (wellFormed_of_build h).toNumbered
    (wellFormed_of_build h').toNumbered (drains_of_build h) (drains_of_build h') hworks⟩

end Graph

end FlowPlanner
