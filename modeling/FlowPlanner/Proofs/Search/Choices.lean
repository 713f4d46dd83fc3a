/-
FlowPlanner.Proofs.Search.Choices — what the choices of a plan record.

Which forks a node must answer for is found out on the graph, before there are any plans;
the choices of a plan are put together from those of its inputs, and cut down to these
forks. Both agree at every node: a plan decides the forks that are tracked at its node, no
more and no fewer (`Catalogue.mem_keys_choices_iff`). A choice names a plan in use, and
there is one such plan, since plans do not mix candidates (`Catalogue.coherent`).
-/
import FlowPlanner.Proofs.Search.Inventory
import FlowPlanner.Proofs.Search.Limits
import FlowPlanner.Proofs.Table

namespace FlowPlanner

variable {α : Type}

namespace Problem.Catalogue

variable {p : Problem α} {S : Plan α → Prop}

/-- A plan decides only forks that are tracked at its node. -/
theorem tracks_of_find?_choices (h : p.Catalogue S)
    (hforks : p.analysis.forks = p.graph.forkStates) {q : Plan α} (hq : S q) {fork : NodeId}
    {x : PlanId} (hx : q.choices.find? fork = some x) : Tracks p q.node fork := by
  obtain ⟨merged, hchoices, -⟩ := h.choices q hq
  rw [hchoices, find?_choicesAt] at hx
  split at hx
  · rename_i hself
    exact .inl ⟨hself.2.symm, hself.2 ▸ hself.1⟩
  · split at hx
    · rename_i hopen
      exact .inr ((isOpen_forkState_iff hforks).1 hopen)
    · simp at hx

/-- A plan decides exactly the forks that are tracked at its node. -/
theorem mem_keys_choices_iff (h : p.Catalogue S) (hg : p.graph.WellFormed)
    (hforks : p.analysis.forks = p.graph.forkStates) {q : Plan α} (hq : S q) {fork : NodeId} :
    fork ∈ q.choices.keys ↔ Tracks p q.node fork := by
  rw [Table.mem_keys_iff]
  constructor
  · rintro ⟨x, hx⟩
    exact h.tracks_of_find?_choices hforks hq hx
  · intro htracks
    obtain ⟨r, -, -, hfind⟩ := h.exists_uses_of_tracks hg hforks hq htracks
    exact ⟨r.id, hfind⟩

end Problem.Catalogue

/-- The choices of a plan are made at the forks open at its node and at its node itself if that is a
fork, and each names the one plan of the fork among all that the plan needs. -/
structure Plan.Chooses (q : Plan α) (p : Problem α) : Prop where
  mem_keys_iff : ∀ fork, fork ∈ q.choices.keys ↔
    (p.analysis.forkState q.node).isOpen fork = true ∨
      (fork = q.node ∧ p.graph.isFork q.node = true)
  names : ∀ fork x, q.choices.find? fork = some x → ∃ r ∈ q.topological, r.node = fork ∧ r.id = x ∧
    ∀ s ∈ q.topological, s.node = fork → s = r

theorem Problem.Catalogue.chooses {p : Problem α} {S : Plan α → Prop} (h : p.Catalogue S)
    (hg : p.graph.WellFormed) (hforks : p.analysis.forks = p.graph.forkStates) {q : Plan α}
    (hq : S q) : q.Chooses p where
  mem_keys_iff fork := by
    rw [h.mem_keys_choices_iff hg hforks hq, isOpen_forkState_iff hforks]
    constructor
    · rintro (⟨rfl, hfork⟩ | hopen)
      · exact .inr ⟨rfl, hfork⟩
      · exact .inl hopen
    · rintro (hopen | ⟨rfl, hfork⟩)
      · exact .inr hopen
      · exact .inl ⟨rfl, hfork⟩
  names fork x hx := by
    obtain ⟨r, hr, hnode, hid, -⟩ := h.exists_uses_of_find?_choices hg hq hx
    have hmem := (h.topological_spec hg hq).2
    refine ⟨r, (hmem r).2 hr, hnode, hid, ?_⟩
    intro s hs hsnode
    exact h.coherent hg hforks hq s r ((hmem s).1 hs) hr (hsnode.trans hnode.symm)

/-- However a search ends, every plan that it made chooses at exactly the forks tracked at its node,
and its choices name the plans that it is built on. -/
theorem made_plans_choose [Quantity α] {o : Optimizer α} {job : Job} {p : Problem α}
    (h : o.prepare job = .ok p) (clock : Nat → Nat) :
    ∀ q ∈ ({ p with clock }.candidates p.graph.root {}).2.made, q.Chooses p := by
  intro q hq
  obtain ⟨hp, st, hst, hmade⟩ := o.exists_stage h clock
  rw [hmade] at hq
  have hchooses := (hst.catalogue hp.wellFormed).chooses hp.wellFormed hp.forks_eq hq
  exact ⟨hchooses.mem_keys_iff, hchooses.names⟩

/-- The search that ends without a plan leaves each of the two sinks one plan; they are built on
different candidates of the map, and say so. -/
theorem made_plans_choose_crossedBranches :
    ∃ p, (Optimizer.ofDefaults.withBudget 14).prepare crossedBranches = .ok p ∧
      ∃ q ∈ (p.candidates p.graph.root {}).2.made, ∃ q' ∈ (p.candidates p.graph.root {}).2.made,
        q.name = "out0" ∧ q.choices.entries = [(2, 4)] ∧ q.Chooses p ∧
          q'.name = "out1" ∧ q'.choices.entries = [(2, 3)] ∧ q'.Chooses p := by
  obtain ⟨p, hprepare, hcheck⟩ := exists_ok_of_any
    (r := (Optimizer.ofDefaults.withBudget 14).prepare crossedBranches)
    (f := fun p =>
      let made := (p.candidates p.graph.root {}).2.made.toList
      (made.any fun q => q.name == "out0" && q.choices.entries == [(2, 4)]) &&
        made.any fun q => q.name == "out1" && q.choices.entries == [(2, 3)]) (by decide +kernel)
  simp only [Bool.and_eq_true, List.any_eq_true, beq_iff_eq, Array.mem_toList_iff] at hcheck
  obtain ⟨⟨q, hq, hname, hentries⟩, q', hq', hname', hentries'⟩ := hcheck
  exact ⟨p, hprepare, q, hq, q', hq', hname, hentries, made_plans_choose hprepare p.clock q hq,
    hname', hentries', made_plans_choose hprepare p.clock q' hq'⟩

end FlowPlanner
