/-
FlowPlanner.Proofs.Search.Pruning — what pruning does to the best total.

A search that prunes finds no plan that a full search does not find, so it never
ends up cheaper; it ends up as cheap exactly if a cheapest plan of the full search
survives node by node (`total_eq_iff_survives`). Plans survive in this sense as
long as one is dropped only for another one that leaves its data alike. Dominance
asks for less: it looks at the requests that are left of those made below, and a
contract between the two nodes may have stopped a request for the very columns on
which a dropped plan was hashed (`taggedJoin`).
-/
import FlowPlanner.Proofs.Search.Exchange
import FlowPlanner.Proofs.Search.Mirror

namespace FlowPlanner

variable {α : Type} [Quantity α]

/-! ## §1 Whole plans that cost no more -/

namespace Problem

variable {p : Problem α} {st : Stage α}

/-- Once the root is settled every node is. -/
theorem Reachable.toFinset_done (hp : p.Prepared) (hst : p.Reachable st)
    (hdone : p.graph.root ∈ st.done) : st.done.toFinset = p.graph.upstream p.graph.root := by
  ext n
  rw [List.mem_toFinset, hp.wellFormed.mem_upstream]
  exact ⟨fun hn => hp.wellFormed.to_root n (hst.lt_size hn), hst.done_of_reaches hdone⟩

/-- A plan of the root costs what the plans that it uses cost. -/
theorem Reachable.costOver_root [Quantity.Exact α] (hp : p.Prepared) (hst : p.Reachable st)
    {q : Plan α} (hq : q ∈ st.kept p.graph.root) {σ : NodeId → Plan α}
    (hσ : ∀ m, p.graph.Reaches m p.graph.root → q.Uses (σ m) ∧ (σ m).node = m) :
    costOver σ st.done = q.cumulative := by
  have hcons := hst.consistent hp.wellFormed
  obtain ⟨hmade, hnode⟩ := hcons.kept_made _ q hq
  have hdone := hcons.node_done q hmade
  rw [hnode] at hdone
  have hcost := hst.costOver_eq hp hmade (τ := σ) (by rwa [hnode])
  rw [hcost, hnode, hst.toFinset_done hp hdone, sdiff_self]
  exact add_zero _

/-- Whatever whole plan a search finds, a search that compares plans only if they leave their data
alike finds one that costs no more. -/
theorem exists_noMore [Quantity.Exact α] (hp : p.Prepared) (hkeeps : p.model.KeepsOrder)
    {c : Config} (hbudget : c.budget = none) (hdeadline : c.deadlineMs = none)
    (hst : p.Reachable st) {clock : Nat → Nat} {st' : Stage α}
    (hst' : (p.rerun c clock).Reachable st') (hdone : p.graph.root ∈ st'.done)
    (halike : p.ComparesAlike st'.search.made) {q : Plan α} (hq : q ∈ st.kept p.graph.root) :
    ∃ r ∈ st'.kept p.graph.root,
      NoMore (p.model.total r.cumulative) (p.model.total q.cumulative) := by
  have hp' : (p.rerun c clock).Prepared := hp.rerun
  have hg := hp.wellFormed
  obtain ⟨σ, hσ, huses⟩ := hst.exists_scheme hp hq
  obtain ⟨τ, hτ⟩ := hst'.exists_affords hp' hkeeps hbudget hdeadline hσ.rerun halike
  refine ⟨τ p.graph.root, hτ.blueprint.kept _ hdone, ?_⟩
  have hqcost : costOver σ st.done = q.cumulative := by
    refine hst.costOver_root hp hq ?_
    intro n hn
    have hlt := hg.lt_size_of_reaches hg.root_lt hn
    exact ⟨huses n hlt, hσ.node_eq n hlt⟩
  have hrcost : costOver τ st'.done = (τ p.graph.root).cumulative :=
    hst'.costOver_root hp' (hτ.blueprint.kept _ hdone)
      fun n hn => hτ.blueprint.uses hp'.wellFormed hst' hdone hn
  -- Both searches settled every node in the end.
  have hqdone : p.graph.root ∈ st.done := by
    obtain ⟨hqmade, hqnode⟩ := (hst.consistent hg).kept_made _ q hq
    exact hqnode ▸ (hst.consistent hg).node_done q hqmade
  have hsame : costOver σ st'.done = costOver σ st.done := by
    unfold costOver
    rw [hst.toFinset_done hp hqdone, hst'.toFinset_done hp' hdone]
    rfl
  have hcost := hτ.noMore
  rw [hrcost, hsame, hqcost] at hcost
  exact hcost

end Problem

/-! ## §2 Best totals -/

namespace Optimizer

/-- The optimizer with pruning switched on or off. -/
def withPruning (o : Optimizer α) (prune : Bool) : Optimizer α :=
  { o with config := { o.config with prune }, valid := o.valid }

variable [Quantity.Exact α] {o : Optimizer α} {job : Job} {p : Problem α}

/-- A run ended with the best of the candidates that were kept for the root. -/
structure Ended (o : Optimizer α) (p : Problem α) (out : Outcome α) (st : Stage α) : Prop where
  problem : out.problem = p
  reachable : p.Reachable st
  search : out.search = st.search
  done : p.graph.root ∈ st.done
  rootPlans : p.rootPlans = st.kept p.graph.root
  attained : ∃ q ∈ st.kept p.graph.root, o.model.total q.cumulative = out.total
  least : ∀ q ∈ st.kept p.graph.root, NoMore out.total (o.model.total q.cumulative)

theorem exists_ended (h : o.prepare job = .ok p) (hbudget : o.config.budget = none)
    (hdeadline : o.config.deadlineMs = none) (clock : Nat → Nat) :
    ∃ out st, o.run job clock = .ok out ∧ o.Ended { p with clock } out st := by
  obtain ⟨out, hrun⟩ := exists_run h hbudget hdeadline clock
  obtain ⟨hproblem, hsearch, -⟩ := ranks_of_run h hrun
  obtain ⟨hattained, hleast⟩ := total_spec h hrun
  obtain ⟨plans, s, -, -, hcand, -, -⟩ := o.run_ok h hrun
  obtain ⟨st, hst, hdone, rfl, rfl⟩ :=
    Problem.exists_stage_of_ok ((prepared h).withClock clock).wellFormed hcand
  have hroot : { p with clock }.rootPlans = st.kept p.graph.root := Problem.rootPlans_eq hcand
  rw [hroot] at hattained hleast
  rw [hcand] at hsearch
  exact ⟨out, st, hrun, hproblem, hst, hsearch, hdone, hroot, hattained, hleast⟩

end Optimizer

/-- Without limits a pruning run finds only plans that a full run also finds, and so no better
total. It finds the same total if and only if some cheapest plan of the full run survives, node by
node; and it does if plans are dropped only for plans that leave their data alike, provided that
totals keep their order when the same is added, as those of weighted costs do. -/
theorem total_eq_iff_survives [Quantity.Exact α] (o : Optimizer α) {job : Job} {g : Graph}
    (hbuild : Graph.build o.config job = .ok g) (hbudget : o.config.budget = none)
    (hdeadline : o.config.deadlineMs = none) (clock clock' : Nat → Nat) :
    ∃ pruned full, (o.withPruning true).run job clock = .ok pruned ∧
      (o.withPruning false).run job clock' = .ok full ∧
      (∀ q ∈ pruned.problem.rootPlans,
        ∃ r ∈ full.problem.rootPlans, r.RunsAlike q ∧ r.cumulative = q.cumulative) ∧
      NoMore full.total pruned.total ∧
      (pruned.total = full.total ↔
        ∃ r ∈ full.problem.rootPlans, o.model.total r.cumulative = full.total ∧
          ∃ q ∈ pruned.problem.rootPlans, q.RunsAlike r) ∧
      (o.model.KeepsOrder → pruned.problem.ComparesAlike pruned.search.made →
        pruned.total = full.total) := by
  have hbuilds : ∀ b, Graph.build (o.withPruning b).config job = .ok g := by
    intro b
    rw [← hbuild]
    exact @Graph.build_congr (o.withPruning b).config o.config rfl rfl job
  have hprepare₁ := (o.withPruning true).prepare_eq (hbuilds true)
  have hprepare₂ := (o.withPruning false).prepare_eq (hbuilds false)
  have hp := (Optimizer.prepared hprepare₁).withClock clock
  have hp' := (Optimizer.prepared hprepare₂).withClock clock'
  obtain ⟨pruned, st, hpruned, hend⟩ := Optimizer.exists_ended hprepare₁ hbudget hdeadline clock
  obtain ⟨full, st', hfull, hend'⟩ := Optimizer.exists_ended hprepare₂ hbudget hdeadline clock'
  refine ⟨pruned, full, hpruned, hfull, ?_⟩
  rw [hend.problem, hend'.problem, hend.search, hend.rootPlans, hend'.rootPlans]
  obtain ⟨q₀, hq₀, htotal₀⟩ := hend.attained
  obtain ⟨r₀, hr₀, htotal₀'⟩ := hend'.attained
  have hst := hend.reachable
  have hst' := hend'.reachable
  have hcopies : ∀ q ∈ st.kept g.root,
      ∃ r ∈ st'.kept g.root, r.RunsAlike q ∧ r.cumulative = q.cumulative := by
    intro q hq
    obtain ⟨r, hr, halike⟩ := Problem.exists_runsAlike hp (c := (o.withPruning false).config)
      hbudget hdeadline rfl hst hst' hend'.done hq
    have hqmade := ((hst.consistent hp.wellFormed).kept_made _ q hq).1
    have hrmade := ((hst'.consistent hp'.wellFormed).kept_made _ r hr).1
    exact ⟨r, hr, halike,
      Problem.cumulative_eq_of_runsAlike hp' (c := (o.withPruning true).config) hst' hst hrmade
        hqmade halike⟩
  have hnoMore : NoMore full.total pruned.total := by
    obtain ⟨r, hr, -, hcumulative⟩ := hcopies q₀ hq₀
    have hle := hend'.least r hr
    rw [hcumulative] at hle
    rw [← htotal₀]
    exact hle
  refine ⟨hcopies, hnoMore, ⟨?_, ?_⟩, ?_⟩
  · intro heq
    obtain ⟨r, hr, halike, hcumulative⟩ := hcopies q₀ hq₀
    refine ⟨r, hr, ?_, q₀, hq₀, halike.symm⟩
    rw [hcumulative, ← heq]
    exact htotal₀
  · rintro ⟨r, hr, htotal, q, hq, halike⟩
    refine NoMore.antisymm ?_ hnoMore
    have hqmade := ((hst.consistent hp.wellFormed).kept_made _ q hq).1
    have hrmade := ((hst'.consistent hp'.wellFormed).kept_made _ r hr).1
    have hle := hend.least q hq
    rw [Problem.cumulative_eq_of_runsAlike hp (c := (o.withPruning false).config) hst hst' hqmade
      hrmade halike] at hle
    rw [← htotal]
    exact hle
  · intro hkeeps halike
    refine NoMore.antisymm ?_ hnoMore
    obtain ⟨q, hq, hle⟩ := Problem.exists_noMore hp' hkeeps (c := (o.withPruning true).config)
      hbudget hdeadline hst' hst hend.done halike hr₀
    rw [← htotal₀']
    exact (hend.least q hq).trans hle

/-- No candidate of the join leaves its data placed or arranged in any way, so that plans are
compared alike, and many of them are dropped. -/
theorem total_eq_plainJoin : ∃ pruned full,
    (Optimizer.ofUnitWeights.withPruning true).run plainJoin = .ok pruned ∧
      (Optimizer.ofUnitWeights.withPruning false).run plainJoin = .ok full ∧
      pruned.problem.ComparesAlike pruned.search.made ∧ pruned.search.pruned ≠ 0 ∧
      pruned.total = full.total := by
  obtain ⟨g, hbuild⟩ := exists_ok_of_isOk
    (r := Graph.build Optimizer.ofUnitWeights.config plainJoin) (by decide +kernel)
  obtain ⟨p, hprepare, hcheck⟩ := exists_ok_of_any
    (r := (Optimizer.ofUnitWeights.withPruning true).prepare plainJoin)
    (f := fun p => (p.candidates p.graph.root {}).2.pruned != 0 &&
      (p.candidates p.graph.root {}).2.made.all fun q =>
        q.placement == .any && q.arrangement == .unordered) (by decide +kernel)
  obtain ⟨pruned, full, hpruned, hfull, -, -, -, htotal⟩ :=
    total_eq_iff_survives Optimizer.ofUnitWeights hbuild rfl rfl (fun _ => 0) fun _ => 0
  obtain ⟨-, hsearch, -⟩ := Optimizer.ranks_of_run_still hprepare hpruned
  have hkeeps : Optimizer.ofUnitWeights.model.KeepsOrder :=
    CostModel.keepsOrder_of_weighs fun _ => rfl
  rw [Bool.and_eq_true, Array.all_eq_true_iff_forall_mem] at hcheck
  have halike : pruned.problem.ComparesAlike pruned.search.made := by
    rw [hsearch]
    intro q hq r hr hnode _ _
    have hq := hcheck.2 q hq
    have hr := hcheck.2 r hr
    simp only [Bool.and_eq_true, beq_iff_eq] at hq hr
    exact ⟨hnode, hq.1.trans hr.1.symm, hq.2.trans hr.2.symm⟩
  refine ⟨pruned, full, hpruned, hfull, halike, ?_, htotal hkeeps halike⟩
  rw [hsearch]
  simpa using hcheck.1

/-- All dimensions of a cost are known, and none is negative. -/
def Cost.isNonnegative (c : Cost α) : Bool :=
  [c.network, c.disk, c.cpu].all fun q => q.any (Quantity.le (Quantity.ofNat 0))

/-- The join goes through a map that keeps column 0, and what comes out is grouped on columns 0
and 1. -/
def taggedJoin : Job where
  operators := singleRecords ++
    [{ id := 3, name := "join", kind := .equiJoin, inputs := [[1], [2]], keys := [[0], [0]]
       contract := .sameKeyFirst },
     { id := 4, name := "tag", kind := .map, inputs := [[3]], keys := [[0]], contract := .sameKey
       sizes := { bytesPerRecord := some 5000.0 } },
     { id := 5, name := "agg", kind := .reduce, inputs := [[4]], keys := [[0, 1]] },
     { id := 6, name := "out", kind := .sink, inputs := [[5]] }]

/-- All costs are known and none is negative. A join that hashes both sides on column 0 leaves
nothing to be shipped before the grouping; but the map stops the request for that, so the cheaper
join with a copied side takes its place. -/
theorem pruning_misses_best_taggedJoin : ∃ pruned full,
    (Optimizer.ofUnitWeights.withPruning true).run taggedJoin = .ok pruned ∧
      (Optimizer.ofUnitWeights.withPruning false).run taggedJoin = .ok full ∧
      (∀ q ∈ full.search.made, q.own.isNonnegative = true) ∧
      pruned.total = some 5403 ∧ full.total = some 1103 := by
  obtain ⟨p, hprepare, hcheck⟩ := exists_ok_of_any
    (r := (Optimizer.ofUnitWeights.withPruning true).prepare taggedJoin)
    (f := fun p => p.rootPlans.all fun q =>
      Optimizer.ofUnitWeights.model.total q.cumulative == some 5403) (by decide +kernel)
  obtain ⟨p', hprepare', hcheck'⟩ := exists_ok_of_any
    (r := (Optimizer.ofUnitWeights.withPruning false).prepare taggedJoin)
    (f := fun p => ((p.candidates p.graph.root {}).2.made.all fun q => q.own.isNonnegative) &&
      ((p.rootPlans.any fun q => Optimizer.ofUnitWeights.model.total q.cumulative == some 1103) &&
        p.rootPlans.all fun q => (Ranked.compareTotals (some 1103)
          (Optimizer.ofUnitWeights.model.total q.cumulative)).isLE)) (by decide +kernel)
  obtain ⟨pruned, hpruned⟩ := Optimizer.exists_run hprepare rfl rfl fun _ => 0
  obtain ⟨full, hfull⟩ := Optimizer.exists_run hprepare' rfl rfl fun _ => 0
  obtain ⟨hproblem, -, hranks⟩ := Optimizer.ranks_of_run_still hprepare hpruned
  obtain ⟨hproblem', hsearch, hranks'⟩ := Optimizer.ranks_of_run_still hprepare' hfull
  obtain ⟨hbest, -⟩ := hproblem ▸ hranks.least
  obtain ⟨hbest', hleast⟩ := hproblem' ▸ hranks'.least
  rw [Bool.and_eq_true, Bool.and_eq_true, Array.all_eq_true_iff_forall_mem, List.any_eq_true,
    List.all_eq_true] at hcheck'
  obtain ⟨hnonnegative, ⟨a, ha, hcheapest⟩, hall⟩ := hcheck'
  refine ⟨pruned, full, hpruned, hfull, ?_, ?_, ?_⟩
  · rw [hsearch]
    exact hnonnegative
  · rw [hranks.total_eq]
    exact beq_iff_eq.1 (List.all_eq_true.1 hcheck _ hbest)
  · rw [hranks'.total_eq]
    refine NoMore.antisymm ?_ ?_
    · have hle := hleast a ha
      rwa [show (Optimizer.ofUnitWeights.withPruning false).model.total a.cumulative = some 1103
        from beq_iff_eq.1 hcheapest] at hle
    · exact hall _ hbest'

end FlowPlanner
