/-
FlowPlanner.Proofs.Search.Blueprint — one search following the plans of another.

A whole plan has one plan for each node, and each runs its node on the others
(`Problem.Scheme`). While another search of the same graph goes on, such a scheme
can be followed node by node: among the candidates of a node there is one that
does what the scheme says, reading the plans that followed it so far
(`Blueprint.exists_copy`). A search that drops nothing keeps it, and so finds every
plan that any other search finds (`exists_blueprint`).
-/
import FlowPlanner.Proofs.Search.Feasibility
import FlowPlanner.Proofs.Search.Transfer

namespace FlowPlanner

variable {α : Type}

/-- One kept plan for each settled node, all reading each other. -/
structure Blueprint (st : Stage α) (τ : NodeId → Plan α) : Prop where
  kept : ∀ n ∈ st.done, τ n ∈ st.kept n
  sources : ∀ n ∈ st.done, ∀ ch ∈ (τ n).inputs, ch.source = τ ch.source.node

variable [Quantity α] {p : Problem α} {st : Stage α} {σ τ : NodeId → Plan α} {n : NodeId}

namespace Blueprint

/-! ## §1 The plans of a blueprint -/

theorem made (hg : p.graph.WellFormed) (hst : p.Reachable st) (h : Blueprint st τ)
    (hn : n ∈ st.done) : τ n ∈ st.search.made :=
  ((hst.consistent hg).kept_made n _ (h.kept n hn)).1

theorem node_eq (hg : p.graph.WellFormed) (hst : p.Reachable st) (h : Blueprint st τ)
    (hn : n ∈ st.done) : (τ n).node = n :=
  ((hst.consistent hg).kept_made n _ (h.kept n hn)).2

/-- Plans of a blueprint use plans of the blueprint only. -/
theorem eq_of_uses (hg : p.graph.WellFormed) (hst : p.Reachable st) (h : Blueprint st τ)
    (hn : n ∈ st.done) {r : Plan α} (hr : (τ n).Uses r) : r = τ r.node := by
  induction hr with
  | refl => rw [h.node_eq hg hst hn]
  | @tail b c hb hbc ih =>
    obtain ⟨ch, hch, rfl⟩ := hbc
    have hreach := (hst.catalogue hg).reaches_of_uses (h.made hg hst hn) hb
    rw [h.node_eq hg hst hn] at hreach
    exact h.sources b.node (hst.done_of_reaches hn hreach) ch (ih ▸ hch)

/-- Plans of a blueprint use all of its plans above theirs. -/
theorem uses (hg : p.graph.WellFormed) (hst : p.Reachable st) (h : Blueprint st τ)
    (hn : n ∈ st.done) {m : NodeId} (hm : p.graph.Reaches m n) :
    (τ n).Uses (τ m) ∧ (τ m).node = m := by
  obtain ⟨r, hr, rfl⟩ :=
    (hst.catalogue hg).exists_uses hm (h.made hg hst hn) (h.node_eq hg hst hn)
  rw [← h.eq_of_uses hg hst hn hr]
  exact ⟨hr, rfl⟩

/-- Plans of a blueprint agree on all forks. -/
theorem agree (hg : p.graph.WellFormed) (hst : p.Reachable st) (h : Blueprint st τ)
    {m n : NodeId} (hm : m ∈ st.done) (hn : n ∈ st.done) :
    Choices.Agree (τ m).choices (τ n).choices := by
  intro fork x y hx hy
  have hcat := hst.catalogue hg
  obtain ⟨r, hr, hrf, rfl, -⟩ :=
    hcat.exists_uses_of_find?_choices hg (h.made hg hst hm) hx
  obtain ⟨s, hs, hsf, rfl, -⟩ :=
    hcat.exists_uses_of_find?_choices hg (h.made hg hst hn) hy
  rw [h.eq_of_uses hg hst hm hr, h.eq_of_uses hg hst hn hs, hrf, hsf]

end Blueprint

namespace Problem

/-! ## §2 Schemes -/

/-- One plan for each node, running it on the plans of its producers. -/
structure Scheme (p : Problem α) (σ : NodeId → Plan α) : Prop where
  node_eq : ∀ n < p.graph.size, (σ n).node = n
  runs : ∀ n < p.graph.size, ∃ t alt, p.Built σ n t alt ∧ p.Runs (σ n) alt

/-- A plan runs its node as another one does, with the same output where an operator other than a
sink is involved. -/
structure Follows (p : Problem α) (q r : Plan α) : Prop where
  node : q.node = r.node
  driver : q.driver = r.driver
  strategy : q.inputs.map (·.strategy) = r.inputs.map (·.strategy)
  own : q.own = r.own
  output : p.graph.Works r.node → r.SameOutput q

/-- The plans that a kept plan of the root uses are a scheme. -/
theorem Reachable.exists_scheme (hp : p.Prepared) (hst : p.Reachable st) {q : Plan α}
    (hq : q ∈ st.kept p.graph.root) : ∃ σ, p.Scheme σ ∧ ∀ n < p.graph.size, q.Uses (σ n) := by
  have hg := hp.wellFormed
  have hcons := hst.consistent hg
  have hcat := hst.catalogue hg
  obtain ⟨hmade, hroot⟩ := hcons.kept_made _ q hq
  obtain ⟨σ, huses⟩ := hcat.exists_uses_all hmade
  have hσ : ∀ n < p.graph.size, q.Uses (σ n) ∧ (σ n).node = n :=
    fun n hn => huses n (hroot ▸ hg.to_root n hn)
  have hcoh := hcat.coherent hg hp.forks_eq hmade
  refine ⟨σ, ⟨fun n hn => (hσ n hn).2, ?_⟩, fun n hn => (hσ n hn).1⟩
  intro n hn
  obtain ⟨hu, hnode⟩ := hσ n hn
  have hderived := hcons.derived (σ n) (hcat.of_uses hmade hu)
  obtain ⟨t, choices, hder, -⟩ := hderived.exists_derives
  rw [hnode] at hder
  refine ⟨t, _, ⟨?_, hder.alt_mem⟩, rfl, rfl, hderived.founded.output, hderived.founded.own⟩
  have hlen := (forall₂_of_picks hcons.kept_id_inj hder.picks).length_eq
  have hbecomes := Node.becomes_of_mem_alternatives (hg.accepted n hn) hlen hder.alt_mem
  -- A channel of the combination reads what the plan reads over the connection.
  have hsource : ∀ ch ∈ t, q.Uses ch.source := by
    intro ch hch
    obtain ⟨d, hd, hroute⟩ := exists_of_forall₂_left hbecomes hch
    rw [← Channel.source_eq_of_route hroute.route]
    exact hu.trans (Plan.uses_of_mem hd)
  have hpicks := (List.forall₂_and_left _ _).2
    ⟨hsource, List.forall₂_map_right_iff.1 hder.picks⟩
  refine forall₂_imp_of_mem hpicks ?_
  rintro ch c hc ⟨husesource, hch⟩
  obtain ⟨r, hr, hoffer⟩ := (mem_channels_iff (hcons.kept_id_inj c.source)).1 hch
  have hlt := hg.source_lt_size hc
  have heq : r = σ c.source := by
    refine hcoh r (σ c.source) ?_ (hσ _ hlt).1 ?_
    · rw [← source_eq_of_mem_offers hoffer]
      exact husesource
    · rw [(hσ _ hlt).2, (hcons.kept_made _ r hr).2]
  show ch ∈ p.offers c (σ c.source)
  rw [← heq]
  exact hoffer

end Problem

/-! ## §3 Following a scheme -/

namespace Blueprint

open Problem

/-- Among the candidates of a due node there is one that does what the scheme says, on the plans of
the blueprint. -/
theorem exists_copy (hp : p.Prepared) (hbudget : p.config.budget = none)
    (hdeadline : p.config.deadlineMs = none) (hst : p.Reachable st) (h : Blueprint st τ)
    (hσ : p.Scheme σ) (hdue : p.Due st n)
    (hsame : p.graph.Works n →
      ∀ c ∈ (p.graph.node n).inputs, (σ c.source).SameOutput (τ c.source)) :
    ∃ x ∈ (p.found (p.graph.node n) (p.channelsAt st n) st.search).plans, p.Follows x (σ n) ∧
      ∀ ch ∈ x.inputs, ch.source = τ ch.source.node := by
  have hg := hp.wellFormed
  have hcons := hst.consistent hg
  obtain ⟨t₀, alt₀, hbuilt₀, hruns⟩ := hσ.runs n hdue.lt_size
  have hnode := hσ.node_eq n hdue.lt_size
  have hτ : ∀ c ∈ (p.graph.node n).inputs, (τ c.source).node = c.source :=
    fun c hc => h.node_eq hg hst (hdue.sources c hc)
  obtain ⟨t, alt, hbuilt, hdriver, hstrategy, houtput⟩ := hbuilt₀.exists_copy hp hdue.lt_size
    (fun c hc => hσ.node_eq _ (hg.source_lt_size hc)) hτ hsame
  have hsource : ∀ ch ∈ t, ∃ c ∈ (p.graph.node n).inputs, ch.source = τ c.source := by
    intro ch hch
    obtain ⟨c, hc, hoffer⟩ := exists_of_forall₂_left hbuilt.offered hch
    exact ⟨c, hc, source_eq_of_mem_offers hoffer⟩
  have hpicks : Picks t (p.channelsAt st n) := by
    refine List.forall₂_map_right_iff.2 (forall₂_imp_of_mem hbuilt.offered ?_)
    intro ch c hc hoffer
    exact (mem_channels_iff (hcons.kept_id_inj c.source)).2
      ⟨τ c.source, h.kept _ (hdue.sources c hc), hoffer⟩
  have hagree : t.Pairwise fun a b => Choices.Agree a.choices b.choices := by
    refine List.pairwise_of_forall_mem_list ?_
    intro a ha b hb
    obtain ⟨c, hc, hca⟩ := hsource a ha
    obtain ⟨d, hd, hdb⟩ := hsource b hb
    unfold Channel.choices
    rw [hca, hdb]
    exact h.agree hg hst (hdue.sources c hc) (hdue.sources d hd)
  obtain ⟨choices, hmerged⟩ :=
    Option.isSome_iff_exists.1 (Channel.isSome_mergeChoices?_iff.2 hagree)
  obtain ⟨id, hx⟩ := exists_of_combine (found_exhausted_eq_false hbudget hdeadline
    (hst.exhausted_eq_false hbudget hdeadline)) hpicks hmerged hbuilt.alt_mem
  have hxnode : (p.plan (p.graph.node n) choices id alt).node = n := hg.node_id n hdue.lt_size
  refine ⟨_, hx, ⟨hxnode.trans hnode.symm, hdriver.trans hruns.driver.symm,
    hstrategy.trans hruns.strategy.symm, ?_, ?_⟩, ?_⟩
  · rw [hruns.own, hnode]
    exact ownCost_congr hdriver hstrategy
  · intro hworks
    rw [hnode] at hworks
    have hout : (p.graph.node n).output alt = ((σ n).placement, (σ n).arrangement) := by
      rw [houtput hworks, hruns.output, hnode]
    exact ⟨hnode.trans hxnode.symm, (congrArg Prod.fst hout).symm, (congrArg Prod.snd hout).symm⟩
  · intro ch hch
    obtain ⟨c, hc, hsource⟩ := hbuilt.mem_inputs hg hdue.lt_size hch
    rw [hsource, hτ c hc]

/-- A blueprint continues with any plan kept for the next node that reads its plans. -/
theorem settle (h : Blueprint st τ) (hg : p.graph.WellFormed) (hst : p.Reachable st)
    (hdue : p.Due st n) {kept : List (Plan α)} {s : Search α} {x : Plan α} (hx : x ∈ kept)
    (hnode : ∀ ch ∈ x.inputs, ch.source.node ∈ st.done)
    (hsource : ∀ ch ∈ x.inputs, ch.source = τ ch.source.node) :
    Blueprint (st.settle n kept s) (Function.update τ n x) := by
  have hold : ∀ m ∈ st.done, m ≠ n := fun m hm => hdue.ne_of_done hm
  refine ⟨?_, ?_⟩
  · intro m hm
    rcases List.mem_cons.1 hm with rfl | hm
    · rw [Stage.kept_settle_self, Function.update_self]
      exact hx
    · rw [Stage.kept_settle_of_ne (hold m hm), Function.update_of_ne (hold m hm)]
      exact h.kept m hm
  · intro m hm ch hch
    rcases List.mem_cons.1 hm with rfl | hm
    · rw [Function.update_self] at hch
      rw [Function.update_of_ne (hold _ (hnode ch hch))]
      exact hsource ch hch
    · rw [Function.update_of_ne (hold m hm)] at hch
      obtain ⟨c, hc, -, hcn⟩ := (hst.catalogue hg).exists_connection (h.made hg hst hm) hch
      rw [h.node_eq hg hst hm] at hc
      rw [Function.update_of_ne (hold _ (hcn ▸ hst.done_of_reaches hm (Graph.reaches_of_mem hc)))]
      exact h.sources m hm ch hch

end Blueprint

namespace Problem

/-- A search that drops nothing follows every scheme. -/
theorem Reachable.exists_blueprint (hp : p.Prepared) (hbudget : p.config.budget = none)
    (hdeadline : p.config.deadlineMs = none) (hprune : p.config.prune = false)
    (hσ : p.Scheme σ) (hst : p.Reachable st) :
    ∃ τ, Blueprint st τ ∧ ∀ n ∈ st.done, p.Follows (τ n) (σ n) := by
  have hg := hp.wellFormed
  refine Reachable.induct (P := fun st => ∃ τ, Blueprint st τ ∧ ∀ n ∈ st.done,
    p.Follows (τ n) (σ n)) ⟨σ, ⟨by simp, by simp⟩, by simp⟩ ?_ hst
  rintro st n kept s hst ⟨τ, hτ, hfollows⟩ hdue hs
  have hsource : ∀ c ∈ (p.graph.node n).inputs, (σ c.source).node = c.source :=
    fun c hc => hσ.node_eq _ (hg.source_lt_size hc)
  obtain ⟨x, hx, hxfollows, hxsources⟩ :=
    hτ.exists_copy hp hbudget hdeadline hst hσ hdue (by
      intro hworks c hc
      refine (hfollows _ (hdue.sources c hc)).output ?_
      rw [hsource c hc]
      exact hworks.of_reaches (Graph.reaches_of_mem hc))
  have hsettles := settle_ok hs
  have hkept : x ∈ kept := by
    rw [hsettles.kept_eq]
    unfold survivors
    rw [hprune]
    exact Array.mem_toList_iff.2 hx
  have hst' : p.Reachable (st.settle n kept s) := hst.tail (.settle hdue hs)
  have hmade : x ∈ (st.settle n kept s).search.made := hsettles.mem_made_of_found hx
  have hnode : x.node = n := hxfollows.node.trans (hσ.node_eq n hdue.lt_size)
  refine ⟨Function.update τ n x, hτ.settle hg hst hdue hkept ?_ hxsources, ?_⟩
  · intro ch hch
    obtain ⟨c, hc, -, hcn⟩ := (hst'.catalogue hg).exists_connection hmade hch
    rw [hcn]
    exact hdue.sources c (hnode ▸ hc)
  · intro m hm
    rcases List.mem_cons.1 hm with rfl | hold
    · rw [Function.update_self]
      exact hxfollows
    · rw [Function.update_of_ne (hdue.ne_of_done hold)]
      exact hfollows m hold

end Problem

end FlowPlanner
