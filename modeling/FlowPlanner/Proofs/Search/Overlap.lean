/-
FlowPlanner.Proofs.Search.Overlap — what plans of two nodes have in common.

Running two plans costs what the first one costs and, besides, the own costs of what
only the second one uses. Let neither of their nodes reach the other. From a node
above both, either some connection leads to another such node, or every way to the
one leads around the other, so that the node is a fork and open there. So the choices
that a plan made settle what it shares with plans beside it, and two candidates of a
node that made the same choices can stand in for each other: with any plan beside them
they fit or do not fit alike, and it costs the same on top of either.
-/
import FlowPlanner.Proofs.Search.Inventory

namespace FlowPlanner

variable {α : Type}

/-! ## §1 Nodes beside each other -/

/-- If neither of two nodes reaches the other, a node above both without a common way down is open
at each. -/
theorem Graph.isOpenAt_of_beside {g : Graph} (hg : g.Numbered) {m n z : NodeId} (hn : n < g.size)
    (hzn : g.Reaches z n) (hzm : g.Reaches z m) (hnm : ¬ g.Reaches n m) (hmn : ¬ g.Reaches m n)
    (hcommon : ¬ ∃ e ∈ g.outgoing z, g.Reaches e.target n ∧ g.Reaches e.target m) :
    g.IsOpenAt z n := by
  have hne : z ≠ n := by
    rintro rfl
    exact hnm hzm
  rcases Relation.ReflTransGen.cases_head hzm with rfl | ⟨b, ⟨e, he, hez⟩, hbm⟩
  · exact absurd hzn hmn
  · have hout : e ∈ g.outgoing z := Graph.mem_outgoing_iff.2 ⟨⟨b, he⟩, hez⟩
    refine Graph.isOpenAt_of_leaves hg hn hzn hne hout ?_
    intro htarget
    refine hcommon ⟨e, hout, htarget, ?_⟩
    rw [hg.target_eq b e he]
    exact hbm

/-- Choices can be merged if no fork was decided in two ways. -/
theorem Choices.isSome_merge?_iff {a b : Choices} : (merge? a b).isSome = true ↔ Agree a b := by
  rw [Option.isSome_iff_exists]
  exact ⟨fun ⟨_, h⟩ => agree_of_merge? h, exists_merge?⟩

namespace Problem.Catalogue

variable {p : Problem α} {S : Plan α → Prop} {a b d : Plan α}

/-- Plans of one node that decided the other forks alike use the same plan of every node that also
reaches a node beside theirs. -/
theorem uses_of_uses_beside (h : p.Catalogue S) (hg : p.graph.WellFormed)
    (hforks : p.analysis.forks = p.graph.forkStates) (ha : S a) (hb : S b) (hab : a.node = b.node)
    (halike : ∀ fork, fork ≠ a.node → a.choices.find? fork = b.choices.find? fork) {m : NodeId}
    (ham : ¬ p.graph.Reaches a.node m) (hma : ¬ p.graph.Reaches m a.node) {r : Plan α}
    (hr : a.Uses r) (hrm : p.graph.Reaches r.node m) : b.Uses r := by
  have hra := h.reaches_of_uses ha hr
  obtain ⟨r', hr', hnode⟩ := h.exists_uses (hab ▸ hra) hb rfl
  suffices hsame : r = r' by
    rw [hsame]
    exact hr'
  refine h.uses_agree hg ha hb (h.coherent hg hforks ha) (h.coherent hg hforks hb)
    (T := fun z => p.graph.Reaches z a.node ∧ p.graph.Reaches z m) ?_ ?_ hr hr' hnode.symm
    ⟨hra, hrm⟩
  · rintro z ⟨hz, -⟩
    exact ⟨hz, hab ▸ hz⟩
  · rintro z ⟨hz, hzm⟩
    by_cases hcommon : ∃ e ∈ p.graph.outgoing z,
        p.graph.Reaches e.target a.node ∧ p.graph.Reaches e.target m
    · exact .inl hcommon
    · have hopen := Graph.isOpenAt_of_beside hg.toNumbered (h.node_lt a ha) hz hzm ham hma hcommon
      obtain ⟨s, -, -, hs⟩ := h.exists_uses_of_tracks hg hforks ha (.inr hopen)
      have hza : z ≠ a.node := by
        rintro rfl
        exact ham hzm
      exact .inr ⟨s.id, hs, halike z hza ▸ hs⟩

/-- A plan that fits a plan beside its node can be replaced by one that decided the other forks
alike. -/
theorem agree_of_agree (h : p.Catalogue S) (hg : p.graph.WellFormed) (hd : S d)
    (halike : ∀ fork, fork ≠ a.node → a.choices.find? fork = b.choices.find? fork)
    (had : ¬ p.graph.Reaches a.node d.node) (hfits : Choices.Agree a.choices d.choices) :
    Choices.Agree b.choices d.choices := by
  intro fork x y hx hy
  refine hfits fork x y ?_ hy
  rw [halike fork, hx]
  rintro rfl
  obtain ⟨r, hr, hrn, -⟩ := h.exists_uses_of_find?_choices hg hd hy
  exact had (hrn ▸ h.reaches_of_uses hd hr)

end Problem.Catalogue

/-! ## §2 What a plan adds to another one -/

/-- The plans that a plan lists and another one does not. -/
def Plan.besides (d q : Plan α) : List (Plan α) :=
  d.topological.filter fun r => r.id ∉ q.topological.map (·.id)

/-- The cost of everything that one of two plans needs, each distinct plan counted once. -/
def Plan.jointCost [Quantity α] (q d : Plan α) : Cost α :=
  Plan.cumulativeCost .zero [.forward q 0, .forward d 0]

namespace Problem.Catalogue

variable {p : Problem α} {S : Plan α → Prop} {q d r : Plan α}

theorem id_mem_topological_iff (h : p.Catalogue S) (hg : p.graph.WellFormed) (hq : S q) (hr : S r) :
    r.id ∈ q.topological.map (·.id) ↔ q.Uses r := by
  rw [List.mem_map, ← (h.topological_spec hg hq).2 r]
  constructor
  · rintro ⟨s, hs, hid⟩
    have hS : S s := h.of_uses hq (((h.topological_spec hg hq).2 s).1 hs)
    obtain rfl := h.id_inj s r hS hr hid
    exact hs
  · exact fun hr => ⟨r, hr, rfl⟩

theorem mem_besides_iff (h : p.Catalogue S) (hg : p.graph.WellFormed) (hq : S q) (hd : S d) :
    r ∈ d.besides q ↔ d.Uses r ∧ ¬ q.Uses r := by
  unfold Plan.besides
  rw [List.mem_filter, (h.topological_spec hg hd).2, decide_eq_true_eq]
  refine and_congr_right ?_
  intro hr
  rw [h.id_mem_topological_iff hg hq (h.of_uses hd hr)]

/-- Running two plans costs what the plans of the first one cost, and those that only the second one
uses. -/
theorem jointCost_eq [Quantity α] [Quantity.Exact α] (h : p.Catalogue S) (hg : p.graph.WellFormed)
    (hq : S q) (hd : S d) : q.jointCost d =
      (q.topological.map (·.own)).sum + ((d.besides q).map (·.own)).sum := by
  have hsources : ∀ ch ∈ [Channel.forward q 0, Channel.forward d 0], S ch.source := by
    simp [Channel.forward, hq, hd]
  obtain ⟨hnodup, hmem⟩ := h.walkDownAll_spec hg hsources
  have hperm : (walkDownAll {} [Channel.forward q 0, Channel.forward d 0]).visited.Perm
      (q.topological ++ d.besides q) := by
    have hq' := h.topological_spec hg hq
    have hd' := h.topological_spec hg hd
    have hbesides : (q.topological ++ d.besides q).Nodup := by
      refine List.nodup_append.2 ⟨hq'.1.of_map, hd'.1.of_map.filter _, ?_⟩
      rintro r hr s hs rfl
      exact ((h.mem_besides_iff hg hq hd).1 hs).2 ((hq'.2 r).1 hr)
    refine (List.perm_ext_iff_of_nodup hnodup.of_map hbesides).2 ?_
    intro r
    rw [hmem, List.mem_append, hq'.2, h.mem_besides_iff hg hq hd]
    by_cases hr : q.Uses r <;> simp [Channel.forward, hr]
  unfold Plan.jointCost Plan.cumulativeCost
  rw [foldr_add_own, (hperm.map (·.own)).sum_eq, List.map_append, List.sum_append]
  exact zero_add _

end Problem.Catalogue

/-! ## §3 Candidates that stand in for each other -/

/-- Beside the third plan the second plan can stand in for the first: both fit it or neither does,
they share the same plans with it, and it adds the same plans to either. -/
structure Plan.StandsIn (q q' d : Plan α) : Prop where
  fits_iff : (Choices.merge? q.choices d.choices).isSome = true ↔
    (Choices.merge? q'.choices d.choices).isSome = true
  shared_iff : ∀ r, (r ∈ q.topological ∧ r ∈ d.topological) ↔
    (r ∈ q'.topological ∧ r ∈ d.topological)
  besides_eq : d.besides q = d.besides q'

theorem Problem.Catalogue.standsIn {p : Problem α} {S : Plan α → Prop} (h : p.Catalogue S)
    (hg : p.graph.WellFormed) (hforks : p.analysis.forks = p.graph.forkStates) {q q' d : Plan α}
    (hq : S q) (hq' : S q') (hd : S d) (hnode : q.node = q'.node)
    (halike : ∀ fork, fork ≠ q.node → q.choices.find? fork = q'.choices.find? fork)
    (hqd : ¬ p.graph.Reaches q.node d.node) (hdq : ¬ p.graph.Reaches d.node q.node) :
    q.StandsIn q' d := by
  have halike' : ∀ fork, fork ≠ q'.node → q'.choices.find? fork = q.choices.find? fork :=
    fun fork hne => (halike fork (hnode ▸ hne)).symm
  have hshared : ∀ r, d.Uses r → (q.Uses r ↔ q'.Uses r) := by
    intro r hr
    have hrd := h.reaches_of_uses hd hr
    exact ⟨fun hu => h.uses_of_uses_beside hg hforks hq hq' hnode halike hqd hdq hu hrd,
      fun hu => h.uses_of_uses_beside hg hforks hq' hq hnode.symm halike' (hnode ▸ hqd)
        (hnode ▸ hdq) hu hrd⟩
  refine ⟨?_, ?_, ?_⟩
  · rw [Choices.isSome_merge?_iff, Choices.isSome_merge?_iff]
    exact ⟨h.agree_of_agree hg hd halike hqd, h.agree_of_agree hg hd halike' (hnode ▸ hqd)⟩
  · intro r
    rw [(h.topological_spec hg hq).2, (h.topological_spec hg hq').2, (h.topological_spec hg hd).2]
    exact and_congr_left (hshared r)
  · unfold Plan.besides
    refine List.filter_congr ?_
    intro r hr
    have hu := ((h.topological_spec hg hd).2 r).1 hr
    have hr' := h.of_uses hd hu
    rw [decide_eq_decide, h.id_mem_topological_iff hg hq hr', h.id_mem_topological_iff hg hq' hr',
      hshared r hu]

/-- However a search ends, two plans that it made of one node and that decided every other fork
alike can stand in for each other beside any plan of a node that neither reaches theirs nor is
reached from it; in exact arithmetic that plan costs the same on top of either. -/
theorem made_plans_stand_in [Quantity α] {o : Optimizer α} {job : Job} {p : Problem α}
    (h : o.prepare job = .ok p) (clock : Nat → Nat) {q q' d : Plan α}
    (hq : q ∈ ({ p with clock }.candidates p.graph.root {}).2.made)
    (hq' : q' ∈ ({ p with clock }.candidates p.graph.root {}).2.made)
    (hd : d ∈ ({ p with clock }.candidates p.graph.root {}).2.made) (hnode : q.node = q'.node)
    (halike : ∀ fork, fork ≠ q.node → q.choices.find? fork = q'.choices.find? fork)
    (hqd : ¬ p.graph.Reaches q.node d.node) (hdq : ¬ p.graph.Reaches d.node q.node) :
    q.StandsIn q' d ∧ ∀ [Quantity.Exact α],
      q.jointCost d = q.cumulative + ((d.besides q).map (·.own)).sum ∧
        q'.jointCost d = q'.cumulative + ((d.besides q).map (·.own)).sum := by
  obtain ⟨hp, st, hst, hmade⟩ := o.exists_stage h clock
  rw [hmade] at hq hq' hd
  have hg := hp.wellFormed
  have hcat := hst.catalogue hg
  have hstands : q.StandsIn q' d :=
    hcat.standsIn hg hp.forks_eq hq hq' hd hnode halike hqd hdq
  refine ⟨hstands, ?_⟩
  intro _
  constructor
  · rw [hcat.jointCost_eq hg hq hd, hst.cumulative_eq_sum_topological hp hq]
  · rw [hcat.jointCost_eq hg hq' hd, hst.cumulative_eq_sum_topological hp hq',
      hstands.besides_eq]

/-- A grouping that a join and a second grouping read. -/
def groupsBeside : Job where
  operators :=
    [{ id := 1, name := "in"
       kind := .source { statistics := { records := some 4, bytes := some 64 } } },
     { id := 2, name := "agg", kind := .reduce, inputs := [[1]], keys := [[0]]
       sizes := { keyCardinality := some 2 } },
     { id := 3, name := "other"
       kind := .source { statistics := { records := some 2, bytes := some 16 } } },
     { id := 4, name := "pairs", kind := .equiJoin, inputs := [[2], [3]], keys := [[0], [0]] },
     { id := 5, name := "count", kind := .reduce, inputs := [[2]], keys := [[1]] },
     { id := 6, name := "all", kind := .union, inputs := [[4, 5]] },
     { id := 7, name := "out", kind := .sink, inputs := [[6]] }]

/-- One plan of the join ships 128 bytes, another one 320, and the second grouping 128 on its own.
On top of either it ships only the 64 bytes that it reads itself. -/
theorem made_plans_stand_in_groupsBeside : ∃ p,
    Optimizer.ofUnitWeights.prepare groupsBeside = .ok p ∧
      ∃ q ∈ (p.candidates p.graph.root {}).2.made, ∃ q' ∈ (p.candidates p.graph.root {}).2.made,
        ∃ d ∈ (p.candidates p.graph.root {}).2.made,
          q.cumulative.network = some 128 ∧ q'.cumulative.network = some 320 ∧
            d.cumulative.network = some 128 ∧ (d.besides q).map (·.own.network) = [some 64] ∧
              (Choices.merge? q.choices d.choices).isSome = true ∧ q.StandsIn q' d ∧
                q.jointCost d = q.cumulative + ((d.besides q).map (·.own)).sum ∧
                  q'.jointCost d = q'.cumulative + ((d.besides q).map (·.own)).sum := by
  obtain ⟨p, hprepare, hcheck⟩ := exists_ok_of_any
    (r := Optimizer.ofUnitWeights.prepare groupsBeside)
    (f := fun p => (p.graph.node 4).inputs.all (·.source < 3) &&
      (p.candidates p.graph.root {}).2.made.toList.any fun q => q.node == 3 &&
        q.cumulative.network == some 128 &&
          (p.candidates p.graph.root {}).2.made.toList.any fun q' => q'.node == 3 &&
            q'.cumulative.network == some 320 && q.choices == q'.choices &&
              (p.candidates p.graph.root {}).2.made.toList.any fun d => d.node == 4 &&
                d.cumulative.network == some 128 &&
                  (d.besides q).map (·.own.network) == [some 64] &&
                    (Choices.merge? q.choices d.choices).isSome) (by decide +kernel)
  simp only [List.all_eq_true, List.any_eq_true, Bool.and_eq_true, beq_iff_eq, decide_eq_true_eq,
    Array.mem_toList_iff] at hcheck
  obtain ⟨hsources, q, hq, ⟨hqn, hqc⟩, q', hq', ⟨⟨hqn', hqc'⟩, hchoices⟩, d, hd,
    ⟨⟨hdn, hdc⟩, hbesides⟩, hfits⟩ := hcheck
  have hg := (Optimizer.prepared hprepare).wellFormed
  have hqd : ¬ p.graph.Reaches q.node d.node := by
    rw [hqn, hdn]
    intro hreach
    rcases hreach.cases_target with heq | ⟨c, hc, hreach⟩
    · exact absurd heq (by decide)
    · exact absurd (hg.le_of_reaches hreach) (Nat.not_le_of_lt (hsources c hc))
  have hdq : ¬ p.graph.Reaches d.node q.node := by
    rw [hqn, hdn]
    exact fun hreach => absurd (hg.le_of_reaches hreach) (by decide)
  obtain ⟨hstands, hcosts⟩ := made_plans_stand_in hprepare p.clock hq hq' hd (hqn.trans hqn'.symm)
    (fun fork _ => by rw [hchoices]) hqd hdq
  obtain ⟨hjoint, hjoint'⟩ := hcosts
  exact ⟨p, hprepare, q, hq, q', hq', d, hd, hqc, hqc', hdc, hbesides, hfits, hstands, hjoint,
    hjoint'⟩

end FlowPlanner
