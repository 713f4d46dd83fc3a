/-
FlowPlanner.Proofs.Optimizer — a run in terms of its search.

A run that gets past layout succeeds exactly when its search does, and ranks
what the search found at the root. The clock is the run's own: preparing a job does
not look at it (`Prepared.withClock`).
-/
import FlowPlanner.Proofs.Cost
import FlowPlanner.Proofs.Graph.Layout
import FlowPlanner.Proofs.Search.Catalogue

namespace FlowPlanner

variable {α : Type} [Quantity α]

/-- A problem that was laid out and analysed. -/
structure Problem.Prepared (p : Problem α) : Prop where
  wellFormed : p.graph.WellFormed
  analysis_eq : p.analysis = .complete p.graph p.model

theorem Problem.Prepared.forks_eq {p : Problem α} (hp : p.Prepared) :
    p.analysis.forks = p.graph.forkStates := by
  rw [hp.analysis_eq]
  rfl

/-- What was prepared may be searched on any clock. -/
theorem Problem.Prepared.withClock {p : Problem α} (hp : p.Prepared) (clock : Nat → Nat) :
    { p with clock }.Prepared := ⟨hp.wellFormed, hp.analysis_eq⟩

namespace Problem

/-- The candidates of the root. -/
def rootPlans (p : Problem α) : List (Plan α) :=
  match (p.candidates p.graph.root {}).1 with
  | .ok plans => plans
  | .error _ => []

theorem rootPlans_eq {p : Problem α} {plans : List (Plan α)} {s : Search α}
    (h : p.candidates p.graph.root {} = (.ok plans, s)) : p.rootPlans = plans := by
  unfold rootPlans
  rw [h]

/-- The candidates of the root were kept at some stage. -/
theorem exists_stage_of_mem_rootPlans {p : Problem α} (hg : p.graph.WellFormed) {q : Plan α}
    (hq : q ∈ p.rootPlans) : ∃ st, p.Reachable st ∧ q ∈ st.kept p.graph.root := by
  cases hcand : p.candidates p.graph.root {} with
  | mk r s =>
    cases r with
    | error e =>
      unfold rootPlans at hq
      rw [hcand] at hq
      simp at hq
    | ok plans =>
      rw [rootPlans_eq hcand] at hq
      obtain ⟨st, hst, -, rfl, -⟩ := exists_stage_of_ok hg hcand
      exact ⟨st, hst, hq⟩

end Problem

namespace Optimizer

variable {o : Optimizer α} {job : Job} {p : Problem α} {clock : Nat → Nat}

theorem prepare_eq {g : Graph} (h : Graph.build o.config job = .ok g) :
    o.prepare job = .ok { graph := g, analysis := .complete g o.model, config := o.config
                          model := o.model } := by
  unfold prepare
  rw [h]
  rfl

theorem prepare_eq_error {e : Failure} (h : Graph.build o.config job = .error e) :
    o.prepare job = .error e := by
  unfold prepare
  rw [h]
  rfl

theorem prepare_ok (h : o.prepare job = .ok p) : ∃ g, Graph.build o.config job = .ok g ∧
    p = { graph := g, analysis := .complete g o.model, config := o.config, model := o.model } := by
  unfold prepare at h
  obtain ⟨g, hbuild, h⟩ := exists_ok_of_bind h
  exact ⟨g, hbuild, (Except.ok.inj h).symm⟩

theorem prepared (h : o.prepare job = .ok p) : p.Prepared := by
  obtain ⟨g, hbuild, rfl⟩ := prepare_ok h
  exact ⟨Graph.wellFormed_of_build hbuild, rfl⟩

theorem config_eq (h : o.prepare job = .ok p) : p.config = o.config := by
  obtain ⟨g, -, rfl⟩ := prepare_ok h
  rfl

/-- Unless a run brings its own, the clock stands still. -/
theorem withClock_eq (h : o.prepare job = .ok p) : { p with clock := fun _ => 0 } = p := by
  obtain ⟨g, -, rfl⟩ := prepare_ok h
  rfl

/-- The optimizer with default settings and prices. -/
def ofDefaults : Optimizer Float := ⟨{}, .standard defaultWeights, by rfl⟩

/-- The optimizer that counts all three dimensions of a cost alike, in rational numbers. -/
def ofUnitWeights : Optimizer ℚ :=
  ⟨{ weights := ⟨1.0, 1.0, 1.0⟩ },
    .standard ((⟨1.0, 1.0, 1.0⟩ : Weights Float).map Quantity.ofFloat), by rfl⟩

/-- The root's candidates with their totals, as they are ranked. -/
def ranking (o : Optimizer α) (plans : List (Plan α)) : List (Ranked α) :=
  Ranked.sort (plans.map fun plan => ⟨plan, o.model.total plan.cumulative⟩)

theorem mem_ranking {plans : List (Plan α)} {r : Ranked α} :
    r ∈ o.ranking plans ↔ r.plan ∈ plans ∧ r.total = o.model.total r.plan.cumulative := by
  unfold ranking Ranked.sort
  rw [List.mem_mergeSort, List.mem_map]
  constructor
  · rintro ⟨q, hq, rfl⟩
    exact ⟨hq, rfl⟩
  · rintro ⟨hq, htotal⟩
    exact ⟨r.plan, hq, by rw [← htotal]⟩

/-- Nothing but the totals decides how plans are ranked. -/
theorem map_ranking {β : Type} (f : Plan α → β) (plans : List (Plan α)) :
    (o.ranking plans).map (fun r => (f r.plan, r.total)) =
      (plans.map fun plan => (f plan, o.model.total plan.cumulative)).mergeSort
        fun a b => (Ranked.compareTotals a.2 b.2).isLE := by
  have hlabel : (plans.map fun plan => (f plan, o.model.total plan.cumulative)) =
      (plans.map fun plan => (⟨plan, o.model.total plan.cumulative⟩ : Ranked α)).map
        fun r => (f r.plan, r.total) := by
    rw [List.map_map]
    rfl
  rw [hlabel]
  exact List.map_mergeSort fun _ _ _ _ => rfl

theorem ranking_ne_nil {plans : List (Plan α)} (h : plans ≠ []) : o.ranking plans ≠ [] := by
  intro hnil
  have hlen := congrArg List.length hnil
  unfold ranking Ranked.sort at hlen
  rw [List.length_mergeSort, List.length_map, List.length_nil, List.length_eq_zero_iff] at hlen
  exact h hlen

theorem run_eq_error {e : Failure} (h : o.prepare job = .error e) : o.run job clock = .error e := by
  unfold run
  rw [h]
  rfl

/-- What a run makes of the outcome of its search. -/
theorem run_eq (h : o.prepare job = .ok p) (clock : Nat → Nat) : o.run job clock =
    match { p with clock }.candidates p.graph.root {} with
    | (.error e, _) => .error e
    | (.ok plans, s) =>
      match o.ranking plans with
      | [] => .error (.noFeasiblePlan (p.graph.node p.graph.root).name)
      | first :: rest =>
        .ok ⟨{ p with clock }, first.plan, (first :: rest).take o.config.maxRanked, s⟩ := by
  unfold run
  rw [h]
  simp only [bind, Except.bind]
  cases { p with clock }.candidates p.graph.root {} with
  | mk r s =>
    cases r with
    | error e => rfl
    | ok plans =>
      dsimp only
      rw [show Ranked.sort (plans.map fun plan => ⟨plan, o.model.total plan.cumulative⟩) =
        o.ranking plans from rfl]
      cases o.ranking plans <;> rfl

/-- A search that ends well finds at least one plan for the root. -/
theorem candidates_ne_nil (hp : p.Prepared) {plans : List (Plan α)} {s : Search α}
    (h : p.candidates p.graph.root {} = (.ok plans, s)) : plans ≠ [] := by
  obtain ⟨st, hst, hdone, rfl, -⟩ := Problem.exists_stage_of_ok hp.wellFormed h
  exact (hst.consistent hp.wellFormed).kept_ne_nil _ hdone

/-- A search that fails makes the run fail. -/
theorem run_of_candidates_error (h : o.prepare job = .ok p) {e : Failure} {s : Search α}
    (hcand : { p with clock }.candidates p.graph.root {} = (.error e, s)) :
    o.run job clock = .error e := by
  rw [run_eq h, hcand]

/-- A search that ends well makes the run succeed. -/
theorem run_of_candidates_ok (h : o.prepare job = .ok p) {plans : List (Plan α)} {s : Search α}
    (hcand : { p with clock }.candidates p.graph.root {} = (.ok plans, s)) :
    ∃ first rest, o.ranking plans = first :: rest ∧ o.run job clock =
      .ok ⟨{ p with clock }, first.plan, (first :: rest).take o.config.maxRanked, s⟩ := by
  have hp := (prepared h).withClock clock
  obtain ⟨first, rest, hrank⟩ :=
    List.exists_cons_of_ne_nil (o.ranking_ne_nil (candidates_ne_nil hp hcand))
  refine ⟨first, rest, hrank, ?_⟩
  rw [run_eq h, hcand]
  dsimp only
  rw [hrank]

theorem run_ok (h : o.prepare job = .ok p) {out : Outcome α} (hrun : o.run job clock = .ok out) :
    ∃ plans s first rest, { p with clock }.candidates p.graph.root {} = (.ok plans, s) ∧
      o.ranking plans = first :: rest ∧
        out = ⟨{ p with clock }, first.plan, (first :: rest).take o.config.maxRanked, s⟩ := by
  rw [run_eq h] at hrun
  cases hcand : { p with clock }.candidates p.graph.root {} with
  | mk r s =>
    rw [hcand] at hrun
    cases r with
    | error e => simp at hrun
    | ok plans =>
      cases hrank : o.ranking plans with
      | nil =>
        dsimp only at hrun
        rw [hrank] at hrun
        simp at hrun
      | cons first rest =>
        dsimp only at hrun
        rw [hrank] at hrun
        exact ⟨plans, s, first, rest, rfl, hrank, (Except.ok.inj hrun).symm⟩

/-- A run that gets past layout succeeds exactly when its search does. -/
theorem run_ok_iff (h : o.prepare job = .ok p) : (∃ out, o.run job clock = .ok out) ↔
    ∃ plans s, { p with clock }.candidates p.graph.root {} = (.ok plans, s) := by
  constructor
  · rintro ⟨out, hrun⟩
    obtain ⟨plans, s, -, -, hcand, -, -⟩ := run_ok h hrun
    exact ⟨plans, s, hcand⟩
  · rintro ⟨plans, s, hcand⟩
    obtain ⟨first, rest, -, hrun⟩ := run_of_candidates_ok h hcand
    exact ⟨_, hrun⟩

omit [Quantity α] in
/-- Settings that pass their check rank at least one plan. -/
theorem maxRanked_ne_zero (o : Optimizer α) : o.config.maxRanked ≠ 0 := by
  intro hzero
  have hvalid := o.valid
  unfold Config.validate at hvalid
  rw [hzero] at hvalid
  split at hvalid
  · simp at hvalid
  · split at hvalid
    · simp at hvalid
    · split at hvalid <;> simp at hvalid

theorem ranked_ne_nil (h : o.prepare job = .ok p) {out : Outcome α}
    (hrun : o.run job clock = .ok out) : out.ranked ≠ [] := by
  obtain ⟨plans, s, first, rest, -, -, rfl⟩ := o.run_ok h hrun
  obtain ⟨k, hk⟩ := Nat.exists_eq_succ_of_ne_zero o.maxRanked_ne_zero
  simp [hk]

/-- A run ends with the first plan of the root in the order of their totals, and ranks as many as it
is to rank. -/
structure Ranks (o : Optimizer α) (out : Outcome α) : Prop where
  best : (o.ranking out.problem.rootPlans).head?.map (·.plan) = some out.best
  ranked : out.ranked = (o.ranking out.problem.rootPlans).take o.config.maxRanked

/-- What a run found it found in its search. -/
theorem ranks_of_run (h : o.prepare job = .ok p) {out : Outcome α}
    (hrun : o.run job clock = .ok out) :
    out.problem = { p with clock } ∧ out.search = ({ p with clock }.candidates p.graph.root {}).2 ∧
      o.Ranks out := by
  obtain ⟨plans, s, first, rest, hcand, hrank, rfl⟩ := o.run_ok h hrun
  have hroot : { p with clock }.rootPlans = plans := Problem.rootPlans_eq hcand
  refine ⟨rfl, by rw [hcand], ?_, ?_⟩
  · dsimp only
    rw [hroot, hrank]
    rfl
  · dsimp only
    rw [hroot, hrank]

/-- Unless it brings its own clock, a run searches the problem just as it was prepared. -/
theorem ranks_of_run_still (h : o.prepare job = .ok p) {out : Outcome α}
    (hrun : o.run job = .ok out) :
    out.problem = p ∧ out.search = (p.candidates p.graph.root {}).2 ∧ o.Ranks out := by
  have hranks := ranks_of_run h hrun
  rwa [withClock_eq h] at hranks

namespace Ranks

variable {out : Outcome α}

/-- The list is never cut off before its first plan. -/
theorem head?_ranked (h : o.Ranks out) :
    out.ranked.head? = (o.ranking out.problem.rootPlans).head? := by
  rw [h.ranked, List.head?_take, if_neg o.maxRanked_ne_zero]

theorem total_eq (h : o.Ranks out) : out.total = o.model.total out.best.cumulative := by
  obtain ⟨first, hhead, hbest⟩ := Option.map_eq_some_iff.1 h.best
  unfold Outcome.total
  rw [h.head?_ranked, hhead, ← hbest]
  exact (o.mem_ranking.1 (List.mem_of_mem_head? hhead)).2

theorem map_ranked (h : o.Ranks out) {β : Type} (f : Plan α → β) :
    out.ranked.map (fun r => (f r.plan, r.total)) =
      ((out.problem.rootPlans.map fun q => (f q, o.model.total q.cumulative)).mergeSort
        fun a b => (Ranked.compareTotals a.2 b.2).isLE).take o.config.maxRanked := by
  rw [h.ranked, List.map_take, map_ranking]

/-- No candidate of the root has a total that ranks before that of the best plan. -/
theorem least [Quantity.Ordered α] (h : o.Ranks out) :
    out.best ∈ out.problem.rootPlans ∧ ∀ q ∈ out.problem.rootPlans,
      NoMore (o.model.total out.best.cumulative) (o.model.total q.cumulative) := by
  have hsorted : (o.ranking out.problem.rootPlans).Pairwise fun a b => NoMore a.total b.total := by
    refine List.pairwise_mergeSort ?_ ?_ _
    · intro a b c hab hbc
      exact NoMore.trans hab hbc
    · intro a b
      exact Bool.or_eq_true_iff.2 (NoMore.total a.total b.total)
  obtain ⟨first, hhead, hbest⟩ := Option.map_eq_some_iff.1 h.best
  obtain ⟨rest, hrank⟩ := List.head?_eq_some_iff.1 hhead
  obtain ⟨hmem, htotal⟩ := o.mem_ranking.1 (List.mem_of_mem_head? hhead)
  rw [hrank, List.pairwise_cons] at hsorted
  rw [← hbest, ← htotal]
  refine ⟨hmem, ?_⟩
  intro q hq
  have hmem : (⟨q, o.model.total q.cumulative⟩ : Ranked α) ∈ o.ranking out.problem.rootPlans :=
    o.mem_ranking.2 ⟨hq, rfl⟩
  rw [hrank] at hmem
  rcases List.mem_cons.1 hmem with heq | hmem
  · rw [← heq]
    exact NoMore.refl _
  · exact hsorted.1 _ hmem

end Ranks

/-- The best total is the least among the candidates of the root. -/
theorem total_spec [Quantity.Ordered α] (h : o.prepare job = .ok p) {out : Outcome α}
    (hrun : o.run job clock = .ok out) :
    (∃ q ∈ { p with clock }.rootPlans, o.model.total q.cumulative = out.total) ∧
      ∀ q ∈ { p with clock }.rootPlans, NoMore out.total (o.model.total q.cumulative) := by
  obtain ⟨hproblem, -, hranks⟩ := ranks_of_run h hrun
  have hleast := hranks.least
  rw [hproblem] at hleast
  exact ⟨⟨out.best, hleast.1, hranks.total_eq.symm⟩, hranks.total_eq ▸ hleast.2⟩

end Optimizer

namespace Problem

/-- The plans that a search made are those of some stage, however the search ended. -/
theorem exists_stage {p : Problem α} (hp : p.Prepared) : ∃ st, p.Reachable st ∧
    (p.candidates p.graph.root {}).2.made = st.search.made := by
  rcases p.candidates_ok_or_fails hp.wellFormed with
    ⟨plans, s, hcand⟩ | ⟨st, n, e, s, hcand, hfails, -⟩
  · obtain ⟨st, hst, -, -, rfl⟩ := exists_stage_of_ok hp.wellFormed hcand
    rw [hcand]
    exact ⟨st, hst, rfl⟩
  · obtain ⟨hempty, -, rfl⟩ := settle_error hfails.fails
    obtain ⟨hmade, -⟩ := p.found_spec (p.graph.node n) (p.channelsAt st n) st.search
    have hnil : (p.found (p.graph.node n) (p.channelsAt st n) st.search).plans = #[] := by
      simpa using hempty
    refine ⟨st, hfails.reachable, ?_⟩
    rw [hcand]
    show (p.found (p.graph.node n) (p.channelsAt st n) st.search).search.made = st.search.made
    rw [hmade, hnil, Array.append_empty]

end Problem

/-- On any clock, a job that was prepared is searched in stages. -/
theorem Optimizer.exists_stage {o : Optimizer α} {job : Job} {p : Problem α}
    (h : o.prepare job = .ok p) (clock : Nat → Nat) : { p with clock }.Prepared ∧
      ∃ st, { p with clock }.Reachable st ∧
        ({ p with clock }.candidates p.graph.root {}).2.made = st.search.made := by
  have hp := (o.prepared h).withClock clock
  exact ⟨hp, Problem.exists_stage hp⟩

end FlowPlanner
