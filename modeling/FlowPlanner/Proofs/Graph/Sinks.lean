/-
FlowPlanner.Proofs.Graph.Sinks — where the data of a job ends.

The sinks of a graph are its nodes of that kind, in the order of their numbers. Nothing
reads a sink but joiners, which tie the sinks together one by one (`Graph.Ties`) and read
nothing else. So sinks and joiners stand below everything else, and every other node is
read by a node that is no joiner (`Graph.Drains`).
-/
import FlowPlanner.Proofs.Graph.Conservation

namespace FlowPlanner

/-! ## §1 The list of sinks -/

/-- The nodes that are sinks, by number. -/
def Graph.sinkNodes (g : Graph) : List NodeId :=
  (List.range g.size).filter fun n => (g.node n).kind.isSink

theorem Graph.mem_sinkNodes {g : Graph} {n : NodeId} :
    n ∈ g.sinkNodes ↔ n < g.size ∧ (g.node n).kind.isSink = true := by
  unfold sinkNodes
  rw [List.mem_filter, List.mem_range]

namespace Draft

variable {d d' : Draft}

theorem sinkNodes_push (d : Draft) (node : Node) (feeds : List Feed) :
    (d.push node feeds).graph.sinkNodes =
      d.graph.sinkNodes ++ if node.kind.isSink then [d.next] else [] := by
  have hsize : (d.push node feeds).graph.size = d.graph.size + 1 := next_push d node feeds
  unfold Graph.sinkNodes
  rw [hsize, List.range_succ, List.filter_append]
  congr 1
  · refine List.filter_congr fun n hn => ?_
    rw [node_push_of_lt (List.mem_range.1 hn)]
  · rw [show d.graph.size = d.next from rfl, List.filter_cons, node_push_next, List.filter_nil]

/-- Feeding an operator adds no sink. -/
theorem feedAll_sinkNodes (op : Operator) (shell : Node) (pins : List Pin) :
    ∀ (inputs : List (List OpId)) (position : Nat) (d : Draft),
      (feedAll op shell pins position inputs d).1.sinks = d.sinks ∧
        (feedAll op shell pins position inputs d).1.graph.sinkNodes = d.graph.sinkNodes
  | [], _, _ => ⟨rfl, rfl⟩
  | producers :: inputs, position, d => by
    have hfirst : ∀ pin, (d.feedPosition op shell pin position producers).1.sinks = d.sinks ∧
        (d.feedPosition op shell pin position producers).1.graph.sinkNodes =
          d.graph.sinkNodes := by
      intro pin
      unfold feedPosition
      dsimp only
      split
      · exact ⟨rfl, rfl⟩
      · exact ⟨rfl, (sinkNodes_push d _ _).trans (List.append_nil _)⟩
    obtain ⟨hsinks, hnodes⟩ := hfirst (pins.getD position .unset)
    obtain ⟨hsinks', hnodes'⟩ := feedAll_sinkNodes op shell pins inputs (position + 1)
      (d.feedPosition op shell (pins.getD position .unset) position producers).1
    exact ⟨hsinks'.trans hsinks, hnodes'.trans hnodes⟩

/-- Placing operators keeps the list of sinks complete. -/
theorem placeAll_sinks {config : Config} : ∀ {ops : List Operator} {d d' : Draft},
    d.sinks = d.graph.sinkNodes → ops.foldlM (place config) d = .ok d' →
      d'.sinks = d'.graph.sinkNodes
  | [], d, d', hd, h => by
    obtain rfl := Except.ok.inj h
    exact hd
  | op :: ops, d, d', hd, h => by
    rw [List.foldlM_cons, place_eq] at h
    obtain ⟨d₁, hplace, h⟩ := exists_ok_of_bind h
    refine placeAll_sinks ?_ h
    cases hhints : op.resolveHints with
    | error e =>
      rw [hhints] at hplace
      cases hplace
    | ok hints =>
      rw [hhints] at hplace
      obtain rfl := Except.ok.inj hplace
      obtain ⟨hsinks, hnodes⟩ :=
        feedAll_sinkNodes op (op.shell config hints) hints.pins op.inputs 0 d
      show (if op.kind.isSink then _ ++ [_] else _) = (push _ _ _).graph.sinkNodes
      rw [sinkNodes_push, hsinks, hnodes, hd,
        show (op.shell config hints).kind.isSink = op.kind.isSink from rfl]
      split
      · rfl
      · exact (List.append_nil _).symm

end Draft

/-! ## §2 Joiners -/

namespace Graph

/-- What the root draws together: a sink, or what another root draws together and one more sink. -/
inductive Ties (g : Graph) : NodeId → List NodeId → Prop
  | sink {s : NodeId} (kind : (g.node s).kind.isSink = true) : Ties g s [s]
  | join {j r s : NodeId} {ss : List NodeId} (kind : (g.node j).kind = .sinkJoiner)
      (sources : (g.node j).inputs.map (·.source) = [r, s]) (first : Ties g r ss)
      (last : (g.node s).kind.isSink = true) : Ties g j (ss ++ [s])

/-- The node ends a branch: it is a sink, or ties sinks together. -/
def EndsAt (g : Graph) (n : NodeId) : Prop :=
  (g.node n).kind.isSink = true ∨ (g.node n).kind = .sinkJoiner

theorem Ties.endsAt {g : Graph} {n : NodeId} {ss : List NodeId} (h : g.Ties n ss) : g.EndsAt n := by
  cases h with
  | sink kind => exact .inl kind
  | join kind => exact .inr kind

/-- Nodes that are kept are tied together as before. -/
theorem Ties.mono {g g' : Graph} (hg : g.Numbered) (hkept : ∀ n < g.size, g'.node n = g.node n)
    {n : NodeId} {ss : List NodeId} (h : g.Ties n ss) (hn : n < g.size) : g'.Ties n ss := by
  induction h with
  | sink kind => exact .sink (by rw [hkept _ hn, kind])
  | @join j r s ss kind sources _ last ih =>
    have hlt : ∀ m ∈ [r, s], m < g.size := by
      intro m hm
      rw [← sources] at hm
      obtain ⟨c, hc, rfl⟩ := List.mem_map.1 hm
      exact hg.source_lt_size hc
    refine .join ?_ ?_ (ih (hlt r (by simp))) ?_
    · rw [hkept j hn, kind]
    · rw [hkept j hn, sources]
    · rw [hkept s (hlt s (by simp)), last]

/-- Any sink that a root draws together with others is in its list. -/
theorem Ties.mem_of_reaches {g : Graph} (hstop : ∀ a b, g.Reaches a b → g.EndsAt a →
    (g.node b).kind.isSink = true → a = b) {n m : NodeId} {ss : List NodeId} (h : g.Ties n ss)
    (hm : (g.node m).kind.isSink = true) (hmn : g.Reaches m n) : m ∈ ss := by
  induction h with
  | sink kind => exact List.mem_singleton.2 (hstop m _ hmn (.inl hm) kind)
  | @join j r s ss kind sources _ last ih =>
    rcases hmn.cases_target with rfl | ⟨c, hc, hmc⟩
    · rw [kind] at hm
      simp [NodeKind.isSink] at hm
    · have hmem := List.mem_map_of_mem (f := (·.source)) hc
      rw [sources] at hmem
      rcases List.mem_cons.1 hmem with heq | hmem
      · exact List.mem_append_left _ (ih (heq ▸ hmc))
      · rw [List.mem_singleton.1 hmem] at hmc
        exact List.mem_append_right _ (List.mem_singleton.2 (hstop m s hmc (.inl hm) last))

/-- Joiners read nothing but ends of branches. -/
def JoinersReadEnds (g : Graph) : Prop :=
  ∀ n, (g.node n).kind = .sinkJoiner → ∀ c ∈ (g.node n).inputs, g.EndsAt c.source

end Graph

namespace Draft

variable {d : Draft}

/-- Tying the sinks after a root to it one by one. -/
theorem joinSinks_ties (config : Config) : ∀ {sinks : List NodeId} {i : Nat} {root : NodeId}
    {d : Draft} {before : List NodeId}, d.Sound → root < d.next →
      (∀ s ∈ sinks, s < d.next ∧ (d.graph.node s).kind.isSink = true) →
        d.graph.Ties root before → d.graph.JoinersReadEnds →
          (joinSinks config i root sinks d).1.graph.Ties (joinSinks config i root sinks d).2
              (before ++ sinks) ∧
            (joinSinks config i root sinks d).1.graph.JoinersReadEnds ∧
              (joinSinks config i root sinks d).1.graph.sinkNodes = d.graph.sinkNodes
  | [], i, root, d, before, _, _, _, hties, hends => by
    rw [List.append_nil]
    exact ⟨hties, hends, rfl⟩
  | sink :: rest, i, root, d, before, hd, hroot, hsinks, hties, hends => by
    unfold joinSinks
    dsimp only
    generalize hjoiner : ({ id := 0, name := _, kind := .sinkJoiner, parallelism := _
                            memoryBytes := _ } : Node) = joiner
    have hkind : joiner.kind = .sinkJoiner := by rw [← hjoiner]
    obtain ⟨hsink, hsinkkind⟩ := hsinks sink List.mem_cons_self
    have hpush := hd.tie hroot hsink hkind
    generalize hfeeds : [(⟨root, 0, .unset, []⟩ : Feed), ⟨sink, 1, .unset, []⟩] = feeds at hpush ⊢
    have hkept : ∀ n < d.graph.size, (d.push joiner feeds).graph.node n = d.graph.node n :=
      fun n hn => node_push_of_lt hn joiner feeds
    have hnew := node_push_next d joiner feeds
    have hsources : ((d.push joiner feeds).graph.node d.next).inputs.map (·.source) =
        [root, sink] := by
      rw [hnew, map_source_connect, ← hfeeds]
      rfl
    have hroot' := (hties.mono hd.numbered hkept hroot)
    have hsink' : ((d.push joiner feeds).graph.node sink).kind.isSink = true := by
      rw [hkept sink hsink, hsinkkind]
    have hties' : (d.push joiner feeds).graph.Ties d.next (before ++ [sink]) :=
      .join (by rw [hnew, hkind]) hsources hroot' hsink'
    have hends' : (d.push joiner feeds).graph.JoinersReadEnds := by
      intro n hn c hc
      rcases lt_or_eq_of_lt_next_push (Graph.lt_size_of_mem hc) with hlt | rfl
      · rw [hkept n hlt] at hn hc
        unfold Graph.EndsAt
        rw [hkept _ (hd.numbered.source_lt_size hc)]
        exact hends n hn c hc
      · have hmem := List.mem_map_of_mem (f := (·.source)) hc
        rw [hsources] at hmem
        rcases List.mem_cons.1 hmem with heq | hmem
        · rw [heq]
          exact hroot'.endsAt
        · rw [List.mem_singleton.1 hmem]
          exact .inl hsink'
    obtain ⟨htied, hread, hnodes⟩ := joinSinks_ties config (i := i + 1) hpush
      (next_lt_next_push d joiner feeds) (by
        intro s hs
        obtain ⟨hs, hkind⟩ := hsinks s (List.mem_cons_of_mem sink hs)
        rw [hkept s hs]
        exact ⟨lt_next_push hs joiner feeds, hkind⟩) hties' hends'
    rw [List.append_cons]
    refine ⟨htied, hread, hnodes.trans ?_⟩
    rw [sinkNodes_push, hkind]
    exact List.append_nil _

end Draft

/-! ## §3 What reads what -/

/-- An operator that another one reads is no sink. -/
theorem Job.exists_producer {job : Job} {positions : List Nat} (h : job.order = .ok positions)
    {op : Operator} (hop : op ∈ job.operators) {id : OpId} (hid : id ∈ op.producers) :
    ∃ producer ∈ job.operators, producer.id = id ∧ producer.kind.isSink = false := by
  unfold order at h
  split at h
  · simp at h
  · obtain ⟨⟨⟩, hcheck, -⟩ := exists_ok_of_bind h
    obtain ⟨⟨⟩, -, hproducers⟩ := exists_ok_of_bind (ok_of_forM_ok hcheck op hop)
    have hproducer := ok_of_forM_ok hproducers id hid
    unfold checkProducer at hproducer
    split at hproducer
    · simp at hproducer
    · rename_i producer hfind
      split at hproducer
      · simp at hproducer
      · rename_i hsink
        refine ⟨producer, List.mem_of_find?_eq_some hfind, ?_, by simpa using hsink⟩
        simpa using List.find?_some hfind

namespace Graph

/-- Everything ends in sinks, which are tied together: joiners read sinks and joiners, and no other
node does. -/
structure Drains (g : Graph) : Prop where
  sinks_eq : g.sinks = g.sinkNodes
  ties : g.Ties g.root g.sinks
  reads : ∀ n, ∀ c ∈ (g.node n).inputs, (g.node n).kind = .sinkJoiner ↔ g.EndsAt c.source

/-- From the end of a branch one gets to joiners only. -/
theorem Drains.eq_or_joiner {g : Graph} (h : g.Drains) {a b : NodeId} (hab : g.Reaches a b)
    (ha : g.EndsAt a) : a = b ∨ (g.node b).kind = .sinkJoiner := by
  induction hab with
  | refl => exact .inl rfl
  | tail _ hfeeds ih =>
    obtain ⟨c, hc, rfl⟩ := hfeeds
    refine .inr ((h.reads _ c hc).2 ?_)
    rcases ih with rfl | hjoiner
    · exact ha
    · exact .inr hjoiner

/-- No sink stands above another one. -/
theorem Drains.eq_of_reaches {g : Graph} (h : g.Drains) {a b : NodeId} (hab : g.Reaches a b)
    (ha : g.EndsAt a) (hb : (g.node b).kind.isSink = true) : a = b := by
  rcases h.eq_or_joiner hab ha with heq | hjoiner
  · exact heq
  · rw [hjoiner] at hb
    simp [NodeKind.isSink] at hb

variable {config : Config} {job : Job} {g : Graph}

/-- What a node reads that is no joiner ends no branch. -/
theorem not_endsAt_source (h : Graph.build config job = .ok g) {n : NodeId} {c : Connection}
    (hc : c ∈ (g.node n).inputs) (hn : (g.node n).kind ≠ .sinkJoiner) : ¬ g.EndsAt c.source := by
  have hconserves := conserves_of_build h
  obtain ⟨positions, -, -, -, horder, -⟩ := build_ok_iff.1 h
  have hproducer : ∀ op ∈ job.operators, ∀ id ∈ op.producers, ∀ m, (g.node m).op = some id →
      ¬ g.EndsAt m := by
    rintro op hop id hid m hm hends
    obtain ⟨producer, hmem, rfl, hsink⟩ := Job.exists_producer horder hop hid
    have hkind := (hconserves.wires producer hmem m hm).kind_eq
    rcases hends with hends | hends
    · rw [hkind] at hends
      exact absurd hends (by simpa [NodeKind.isSink] using hsink)
    · rw [hkind] at hends
      simp at hends
  have hunion : ∀ m, (g.node m).kind = .operator .union → ¬ g.EndsAt m := by
    rintro m hm (hends | hends) <;> rw [hm] at hends <;>
      simp [NodeKind.isSink, Kind.isSink] at hends
  rcases hconserves.nodes n (lt_size_of_mem hc) with ⟨op, hop, hlabel⟩ | hjoiner | hput
  · have hwires := hconserves.wires op hop n hlabel
    cases hkind : op.kind.isUnion with
    | true =>
      have hmem := List.mem_map_of_mem (f := fun c => (g.node c.source).op) hc
      rw [hwires.union hkind] at hmem
      obtain ⟨id, hid, heq⟩ := List.mem_map.1 hmem
      exact hproducer op hop id hid _ heq.symm
    | false =>
      obtain ⟨ids, hids, hdelivers⟩ := exists_of_forall₂_left (hwires.positions hkind) hc
      cases hdelivers with
      | direct hlabel =>
        exact hproducer op hop _ (List.mem_flatten_of_mem hids List.mem_cons_self) _ hlabel
      | joined _ hjoins => exact hunion _ hjoins.kind_eq
  · exact absurd hjoiner hn
  · obtain ⟨op, hop, -, i, hmany, hgathers⟩ := hput
    have hmem := List.mem_map_of_mem (f := fun c => (g.node c.source).op) hc
    rw [hgathers.joins.reads] at hmem
    obtain ⟨id, hid, heq⟩ := List.mem_map.1 hmem
    refine hproducer op hop id ?_ _ heq.symm
    rw [List.getD_eq_getElem?_getD] at hid
    cases hget : op.inputs[i]? with
    | none =>
      rw [hget] at hid
      simp at hid
    | some ids =>
      rw [hget] at hid
      exact List.mem_flatten_of_mem (List.mem_of_getElem? hget) hid

/-- Layout makes all data end in the sinks and ties these together. -/
theorem drains_of_build (h : Graph.build config job = .ok g) : g.Drains := by
  obtain ⟨ops, d, first, rest, hlisting, -, hplace, hsinks, hgraph⟩ := build_ok h
  obtain ⟨hd, -⟩ := Draft.placeAll_listing hlisting hplace
  have hwired := Draft.wired_empty.placeAll Draft.sound_empty hlisting.shaped
    hlisting.producers_first hplace
  have hlisted : d.sinks = d.graph.sinkNodes := Draft.placeAll_sinks (by rfl) hplace
  have hsink : ∀ s ∈ first :: rest, s < d.next ∧ (d.graph.node s).kind.isSink = true := by
    intro s hs
    rw [← hsinks, hlisted] at hs
    exact mem_sinkNodes.1 hs
  have hnone : d.graph.JoinersReadEnds := by
    intro n hn c hc
    have hno := Array.countP_eq_zero.1 hwired.no_joiner _
      (Array.mem_toList_iff.1 (node_mem (g := d.graph) (lt_size_of_mem hc)))
    rw [hn] at hno
    simp [NodeKind.isJoiner] at hno
  obtain ⟨hties, hends, hnodes⟩ := Draft.joinSinks_ties config (i := 0) hd
    (hsink first List.mem_cons_self).1 (fun s hs => hsink s (List.mem_cons_of_mem first hs))
    (.sink (hsink first List.mem_cons_self).2) hnone
  obtain ⟨hdone, hroot, -⟩ := Draft.joinSinks_spec config (i := 0) hd
    (hsink first List.mem_cons_self).1
    (fun s hs => (hsink s (List.mem_cons_of_mem first hs)).1)
  have hreads : ∀ n, ∀ c ∈ (g.node n).inputs, (g.node n).kind ≠ .sinkJoiner →
      ¬ g.EndsAt c.source := fun n c hc hn => not_endsAt_source h hc hn
  subst hgraph
  refine ⟨hlisted.trans hnodes.symm, ?_, ?_⟩
  · show Ties _ _ d.sinks
    rw [hsinks]
    refine Ties.mono hdone.numbered ?_ hties hroot
    exact fun _ _ => rfl
  · intro n c hc
    refine ⟨fun hn => hends n hn c hc, fun hsource => ?_⟩
    by_contra hn
    exact hreads n c hc hn hsource

end Graph

end FlowPlanner
