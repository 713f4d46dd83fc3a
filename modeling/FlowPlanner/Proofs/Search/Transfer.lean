/-
FlowPlanner.Proofs.Search.Transfer — the same strategies over other producers.

A family has one plan for every node. If the plans of one family are exchanged for
those of another one with the same output, each node can still do what it did.
Where data only ends up in sinks the output does not matter either: there channels
are taken as they come (`exists_copy`).
-/
import FlowPlanner.Proofs.Search.Agreement
import FlowPlanner.Proofs.Search.Over

namespace FlowPlanner

variable {α : Type}

namespace Problem

variable [Quantity α] {p : Problem α}

/-- What a node costs is decided by its driver and by the strategies of its channels. -/
theorem ownCost_congr {node : Node} {alt alt' : Alternative α} (hdriver : alt.driver = alt'.driver)
    (hinputs : alt.inputs.map (·.strategy) = alt'.inputs.map (·.strategy)) :
    p.ownCost node alt = p.ownCost node alt' := by
  have hcost : ∀ alt : Alternative α, p.ownCost node alt =
      ((alt.inputs.map (·.strategy)).foldl (fun cost s =>
        let size := p.analysis.estimates s.1
        cost + p.model.shipPrice s.2.2.1 size node.parallelism
          + p.model.localPrice s.2.2.2 size node.memoryBytes) .zero)
        + p.model.driverPrice alt.driver
          ((alt.inputs.map (·.strategy)).map fun s => p.analysis.estimates s.1)
          node.memoryBytes := by
    intro alt
    rw [List.foldl_map, List.map_map]
    rfl
  rw [hcost, hcost, hdriver, hinputs]

/-- An alternative of a node on channels over the plans that a family has for its producers. -/
structure Built (p : Problem α) (τ : NodeId → Plan α) (n : NodeId) (t : List (Channel (Plan α)))
    (alt : Alternative α) : Prop where
  offered : List.Forall₂ (fun ch c => ch ∈ p.offers c (τ c.source)) t (p.graph.node n).inputs
  alt_mem : alt ∈ p.alternatives (p.graph.node n) t

/-- A plan runs its node as an alternative says. -/
structure Runs (p : Problem α) (q : Plan α) (alt : Alternative α) : Prop where
  driver : q.driver = alt.driver
  strategy : q.inputs.map (·.strategy) = alt.inputs.map (·.strategy)
  output : (q.placement, q.arrangement) = (p.graph.node q.node).output alt
  own : q.own = p.ownCost (p.graph.node q.node) alt

theorem alternatives_of_not_works {node : Node} (h : node.kind.works = false) :
    ∃ driver, ∀ t, p.alternatives node t = [⟨driver, t⟩] := by
  unfold alternatives Node.alternatives
  cases hkind : node.kind with
  | sinkJoiner => exact ⟨.sinkJoiner, fun t => rfl⟩
  | operator kind =>
    rw [hkind] at h
    cases kind with
    | sink => exact ⟨.dataSink, fun t => rfl⟩
    | _ => simp [NodeKind.works, Kind.isSink] at h

variable {σ τ : NodeId → Plan α} {n : NodeId} {t : List (Channel (Plan α))} {alt : Alternative α}

/-- The channels on which a node runs read the plans of its producers. -/
theorem Built.mem_inputs (hg : p.graph.WellFormed) (hn : n < p.graph.size) (h : p.Built τ n t alt)
    {ch : Channel (Plan α)} (hch : ch ∈ alt.inputs) :
    ∃ c ∈ (p.graph.node n).inputs, ch.source = τ c.source := by
  have hbecomes := Node.becomes_of_mem_alternatives (hg.accepted n hn) h.offered.length_eq
    h.alt_mem
  obtain ⟨d, hd, hroute⟩ := exists_of_forall₂_left hbecomes.flip hch
  obtain ⟨c, hc, hoffer⟩ := exists_of_forall₂_left h.offered hd
  exact ⟨c, hc,
    (Channel.source_eq_of_route hroute.route).trans (source_eq_of_mem_offers hoffer)⟩

/-- What a node can do over one family it can do over another one with the same output. -/
theorem Built.exists_copy_of_sameOutput (hp : p.Prepared) (hn : n < p.graph.size)
    (h : p.Built σ n t alt) (hσ : ∀ c ∈ (p.graph.node n).inputs, (σ c.source).node = c.source)
    (hsame : ∀ c ∈ (p.graph.node n).inputs, (σ c.source).SameOutput (τ c.source)) :
    ∃ t' alt', p.Built τ n t' alt' ∧ alt'.driver = alt.driver ∧
      alt'.inputs.map (·.strategy) = alt.inputs.map (·.strategy) ∧
        (p.graph.node n).output alt' = (p.graph.node n).output alt := by
  have hsource : ∀ c ∈ (p.graph.node n).inputs, ∀ ch : Channel (Plan α),
      ch.source = σ c.source → ch.source.SameOutput (τ ch.source.node) := by
    intro c hc ch hch
    rw [hch, hσ c hc]
    exact hsame c hc
  -- What stands for a plan is the plan that the other family has for its node.
  refine ⟨t.map (·.upon fun q => τ q.node), alt.upon fun q => τ q.node, ⟨?_, ?_⟩, rfl, ?_,
    Node.output_upon alt⟩
  · rw [List.forall₂_map_left_iff]
    refine forall₂_imp_of_mem h.offered ?_
    intro ch c hc hoffer
    have hsame' := hsource c hc ch (source_eq_of_mem_offers hoffer)
    rw [source_eq_of_mem_offers hoffer] at hsame'
    have hover := List.mem_map_of_mem (f := (·.upon fun q => τ q.node)) hoffer
    rwa [map_offers (.refl p c) hsame', hσ c hc] at hover
  · unfold alternatives
    rw [Node.alternatives_upon _ fun _ _ => rfl]
    · exact List.mem_map_of_mem h.alt_mem
    · intro ch hch
      obtain ⟨c, hc, hoffer⟩ := exists_of_forall₂_left h.offered hch
      exact hsource c hc ch (source_eq_of_mem_offers hoffer)
  · unfold Alternative.upon
    rw [List.map_map]
    refine List.map_congr_left ?_
    intro ch hch
    obtain ⟨c, hc, hch⟩ := h.mem_inputs hp.wellFormed hn hch
    exact Channel.strategy_upon (hsource c hc ch hch)

/-- What a sink or a joiner can do over one family it can do over any other one. -/
theorem Built.exists_copy_of_not_works (hp : p.Prepared) (hworks : ¬ p.graph.Works n)
    (h : p.Built σ n t alt) (hσ : ∀ c ∈ (p.graph.node n).inputs, (σ c.source).node = c.source)
    (hτ : ∀ c ∈ (p.graph.node n).inputs, (τ c.source).node = c.source) :
    ∃ t' alt', p.Built τ n t' alt' ∧ alt'.driver = alt.driver ∧
      alt'.inputs.map (·.strategy) = alt.inputs.map (·.strategy) := by
  have hkind : (p.graph.node n).kind.works = false := by
    by_contra hkind
    exact hworks ⟨n, Graph.Reaches.refl _ n, by simpa using hkind⟩
  obtain ⟨driver, hdriver⟩ := p.alternatives_of_not_works hkind
  have hoffers : ∀ c ∈ (p.graph.node n).inputs, ∀ q, p.offers c q = [p.baseChannel c q] := by
    intro c hc q
    unfold offers
    rw [hp.analysis_eq, Graph.requestsOver_eq_nil hp.wellFormed.toNumbered p.model hc hworks]
    rfl
  have ht : (p.graph.node n).inputs.map (fun c => p.baseChannel c (σ c.source)) = t := by
    have hforall : List.Forall₂ (fun ch c => ch = p.baseChannel c (σ c.source)) t
        (p.graph.node n).inputs := by
      refine forall₂_imp_of_mem h.offered ?_
      intro ch c hc hoffer
      rw [hoffers c hc, List.mem_singleton] at hoffer
      exact hoffer
    rw [← List.forall₂_map_right_iff, List.forall₂_eq_eq_eq] at hforall
    exact hforall.symm
  have halt := h.alt_mem
  rw [hdriver t, List.mem_singleton] at halt
  refine ⟨(p.graph.node n).inputs.map fun c => p.baseChannel c (τ c.source),
    ⟨driver, (p.graph.node n).inputs.map fun c => p.baseChannel c (τ c.source)⟩, ⟨?_, ?_⟩, ?_, ?_⟩
  · rw [List.forall₂_map_left_iff, List.forall₂_same]
    intro c _
    exact List.mem_cons_self
  · rw [hdriver]
    exact List.mem_singleton.2 rfl
  · rw [halt]
  · rw [halt, ← ht, List.map_map, List.map_map]
    refine List.map_congr_left ?_
    intro c hc
    rw [Function.comp_apply, Function.comp_apply, strategy_baseChannel, strategy_baseChannel,
      hσ c hc, hτ c hc]

/-- What a node can do over one family it can do over another one that has plans of the same nodes,
and with the same output where an operator other than a sink reads it. -/
theorem Built.exists_copy (hp : p.Prepared) (hn : n < p.graph.size) (h : p.Built σ n t alt)
    (hσ : ∀ c ∈ (p.graph.node n).inputs, (σ c.source).node = c.source)
    (hτ : ∀ c ∈ (p.graph.node n).inputs, (τ c.source).node = c.source)
    (hsame : p.graph.Works n →
      ∀ c ∈ (p.graph.node n).inputs, (σ c.source).SameOutput (τ c.source)) :
    ∃ t' alt', p.Built τ n t' alt' ∧ alt'.driver = alt.driver ∧
      alt'.inputs.map (·.strategy) = alt.inputs.map (·.strategy) ∧
        (p.graph.Works n → (p.graph.node n).output alt' = (p.graph.node n).output alt) := by
  by_cases hworks : p.graph.Works n
  · obtain ⟨t', alt', hbuilt, hdriver, hstrategy, houtput⟩ :=
      h.exists_copy_of_sameOutput hp hn hσ (hsame hworks)
    exact ⟨t', alt', hbuilt, hdriver, hstrategy, fun _ => houtput⟩
  · obtain ⟨t', alt', hbuilt, hdriver, hstrategy⟩ := h.exists_copy_of_not_works hp hworks hσ hτ
    exact ⟨t', alt', hbuilt, hdriver, hstrategy, fun h => absurd h hworks⟩

end Problem

end FlowPlanner
