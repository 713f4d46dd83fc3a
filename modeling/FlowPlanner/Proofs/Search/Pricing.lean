/-
FlowPlanner.Proofs.Search.Pricing — what prices decide.

The cost of a plan is worked out when the plan is made, and only pruning and ranking
look at it. So without pruning a search is the search of a problem in which no price
is known (`Problem.unpriced`), but for the costs that are written on its plans:
leaving them out before or after a step gives the same (`candidates_unpriced`). Two
optimizers that differ in nothing but prices have this problem in common. They find
the same plans under the same numbers, or fail alike, and each of them ranks what
both found at the root (`unpruned_runs_agree`).
-/
import FlowPlanner.Proofs.Property.Delivery
import FlowPlanner.Proofs.Search.Feasibility
import FlowPlanner.Proofs.Search.Mirror
import FlowPlanner.Proofs.Search.Over
import FlowPlanner.Proofs.Table

namespace FlowPlanner

variable {α : Type}

/-! ## §1 Plans and searches without costs -/

namespace Plan

/-- The plan with no cost known, neither of it nor of any plan that it needs. -/
def unpriced : Plan α → Plan α :=
  throughout fun q => { q with own := .unknown, cumulative := .unknown }

theorem unpriced_eq (q : Plan α) : q.unpriced =
    { q with inputs := q.inputs.map (·.upon unpriced), own := .unknown, cumulative := .unknown } :=
  throughout_eq _ q

theorem id_unpriced (q : Plan α) : q.unpriced.id = q.id := by rw [unpriced_eq]

theorem choices_unpriced (q : Plan α) : q.unpriced.choices = q.choices := by rw [unpriced_eq]

theorem sameOutput_unpriced (q : Plan α) : q.SameOutput q.unpriced := by
  rw [unpriced_eq]
  exact ⟨rfl, rfl, rfl⟩

end Plan

theorem Channel.choices_upon_unpriced (c : Channel (Plan α)) :
    (c.upon Plan.unpriced).choices = c.choices := c.source.choices_unpriced

/-- The search with no cost known of its plans; its counts stay. -/
def Search.unpriced (s : Search α) : Search α :=
  { s with
    made := s.made.map Plan.unpriced
    forks := s.forks.mapValues fun _ => List.map Plan.unpriced }

namespace Problem

/-- The candidates found so far with no cost known. -/
def Found.unpriced (f : Found α) : Found α := ⟨f.plans.map Plan.unpriced, f.search.unpriced⟩

theorem Found.isEmpty_unpriced (f : Found α) : f.unpriced.plans.isEmpty = f.plans.isEmpty := by
  unfold Found.unpriced
  rw [Bool.eq_iff_iff, Array.isEmpty_iff_size_eq_zero, Array.isEmpty_iff_size_eq_zero,
    Array.size_map]

variable [Quantity α]

/-- The problem with no price known, the weights left open, and the clock too unless there is a
deadline. -/
def unpriced (p : Problem α) : Problem α :=
  { p with
    analysis := p.analysis.unpriced
    config := { p.config with weights := defaultWeights }
    model := .blind (defaultWeights.map Quantity.ofFloat)
    clock := match p.config.deadlineMs with
      | some _ => p.clock
      | none => fun _ => 0 }

variable {p : Problem α} {node : Node}

/-! ## §2 Channels and candidates -/

theorem offersAlike_unpriced (p : Problem α) (c : Connection) : p.OffersAlike p.unpriced c := by
  refine ⟨rfl, rfl, ?_⟩
  show (p.analysis.unpriced.requestsOver c.id).map Request.unpriced = _
  rw [Analysis.requestsOver_unpriced, List.map_map]
  rfl

theorem channels_unpriced (p : Problem α) (c : Connection) (producers : List (Plan α)) :
    p.unpriced.channels c (producers.map Plan.unpriced) =
      (p.channels c producers).map (·.upon Plan.unpriced) := by
  refine (map_channels (p.offersAlike_unpriced c) (fun q _ => q.sameOutput_unpriced) ?_).symm
  intro q _ r _
  rw [Plan.id_unpriced, Plan.id_unpriced]

theorem alternatives_unpriced (p : Problem α) (node : Node) (t : List (Channel (Plan α))) :
    p.unpriced.alternatives node (t.map (·.upon Plan.unpriced)) =
      (p.alternatives node t).map (·.upon Plan.unpriced) :=
  Node.alternatives_upon (fun c _ => c.source.sameOutput_unpriced) fun _ _ => rfl

/-- Where no price is known, no cost is. -/
theorem ownCost_unpriced (p : Problem α) (node : Node) (alt : Alternative α) :
    p.unpriced.ownCost node alt = .unknown := by
  have hunknown : ∀ c : Cost α, c + .unknown = .unknown := by
    rintro ⟨n, d, p⟩
    cases n <;> cases d <;> cases p <;> rfl
  exact hunknown _

theorem cumulativeCost_unknown (inputs : List (Channel (Plan α))) :
    Plan.cumulativeCost .unknown inputs = .unknown := by
  unfold Plan.cumulativeCost
  induction (walkDownAll {} inputs).visited with
  | nil => rfl
  | cons q qs ih =>
    rw [List.foldr_cons, ih]
    rfl

theorem plan_unpriced (p : Problem α) (node : Node) (choices : Choices) (id : PlanId)
    (alt : Alternative α) : (p.plan node choices id alt).unpriced =
      p.unpriced.plan node choices id (alt.upon Plan.unpriced) := by
  rw [Plan.unpriced_eq]
  simp only [plan, Node.output_upon, ownCost_unpriced, cumulativeCost_unknown]
  rfl

theorem make_unpriced (p : Problem α) (node : Node) (choices : Choices) (f : Found α)
    (alt : Alternative α) : (p.make node choices f alt).unpriced =
      p.unpriced.make node choices f.unpriced (alt.upon Plan.unpriced) := by
  have hsize : f.unpriced.search.made.size = f.search.made.size := Array.size_map
  unfold make
  rw [hsize, ← plan_unpriced]
  unfold Found.unpriced Search.unpriced
  rw [Array.map_push, Array.map_push]

theorem checkLimits_unpriced (p : Problem α) (s : Search α) :
    (p.checkLimits s).unpriced = p.unpriced.checkLimits s.unpriced := by
  have hsize : s.unpriced.made.size = s.made.size := Array.size_map
  -- A clock is looked at only for a deadline, and then it is the problem's own.
  have hexhausted : p.unpriced.isExhausted s.unpriced = p.isExhausted s := by
    unfold isExhausted unpriced
    rw [hsize]
    cases p.config.deadlineMs <;> rfl
  unfold checkLimits
  rw [hexhausted]
  rfl

/-- Channel by channel, the same combinations are tried, fit together and become candidates. -/
theorem combine_unpriced (p : Problem α) (node : Node) :
    ∀ (rest : List (List (Channel (Plan α)))) (chosen : List (Channel (Plan α)))
      (choices : Choices) (f : Found α),
      (p.combine node rest chosen choices f).unpriced =
        p.unpriced.combine node (rest.map (·.map (·.upon Plan.unpriced)))
          (chosen.map (·.upon Plan.unpriced)) choices f.unpriced
  | [], chosen, choices, f => by
    rw [List.map_nil, combine_nil, combine_nil, alternatives_unpriced, List.foldl_map]
    refine (List.foldl_hom Found.unpriced ?_).symm
    intro f alt
    exact (p.make_unpriced node choices f alt).symm
  | channels :: rest, chosen, choices, f => by
    rw [List.map_cons, combine_cons, combine_cons, List.foldl_map]
    refine (List.foldl_hom Found.unpriced ?_).symm
    intro f c
    have hlimits : (if f.unpriced.plans.isEmpty then f.unpriced
          else { f.unpriced with search := p.unpriced.checkLimits f.unpriced.search }) =
        (if f.plans.isEmpty then f
          else { f with search := p.checkLimits f.search }).unpriced := by
      rw [Found.isEmpty_unpriced, apply_ite Found.unpriced]
      congr 1
      exact congrArg (Found.mk _) (p.checkLimits_unpriced f.search).symm
    unfold tryChannel
    dsimp only
    rw [hlimits, Channel.choices_upon_unpriced]
    generalize (if f.plans.isEmpty then f else { f with search := p.checkLimits f.search }) = f'
    have hstop : (!f'.unpriced.plans.isEmpty && f'.unpriced.search.exhausted) =
        (!f'.plans.isEmpty && f'.search.exhausted) := by
      rw [Found.isEmpty_unpriced]
      rfl
    rw [hstop, apply_ite Found.unpriced]
    congr 1
    cases Choices.merge? choices c.choices with
    | none => rfl
    | some merged =>
      dsimp only
      rw [combine_unpriced p node rest, List.map_append]
      rfl

/-! ## §3 Searches -/

theorem record_unpriced (p : Problem α) (n : NodeId) (created : Nat) (kept : List (Plan α))
    (s : Search α) : (p.record n created kept s).unpriced =
      p.unpriced.record n created (kept.map Plan.unpriced) s.unpriced := by
  have hforks : (if p.graph.isFork n then s.forks.insert n kept else s.forks).mapValues
        (fun _ => List.map Plan.unpriced) =
      if p.graph.isFork n then
        (s.forks.mapValues fun _ => List.map Plan.unpriced).insert n (kept.map Plan.unpriced)
      else s.forks.mapValues fun _ => List.map Plan.unpriced := by
    rw [apply_ite (Table.mapValues _),
      ← Table.insert_mapValues (fun _ => List.map Plan.unpriced)]
  unfold record Search.unpriced
  dsimp only
  rw [hforks, List.length_map]
  rfl

/-- What a part of a search yields, with no cost known. -/
def yieldUnpriced {β : Type} (f : β → β) (r : Except Failure β × Search α) :
    Except Failure β × Search α := (r.1.map f, r.2.unpriced)

/-- Nothing is dropped for its price, so a node has the same candidates. -/
theorem settle_unpriced (hprune : p.config.prune = false) (node : Node)
    (inputs : List (List (Channel (Plan α)))) (s : Search α) :
    p.unpriced.settle node (inputs.map (·.map (·.upon Plan.unpriced))) s.unpriced =
      yieldUnpriced (List.map Plan.unpriced) (p.settle node inputs s) := by
  have hcombine : p.unpriced.combine node (inputs.map (·.map (·.upon Plan.unpriced))) []
      Table.empty { search := s.unpriced } =
        (p.combine node inputs [] Table.empty { search := s }).unpriced := by
    have hstart : ({ search := s } : Found α).unpriced = { search := s.unpriced } := by
      unfold Found.unpriced
      rw [Array.map_empty]
    rw [combine_unpriced, hstart, List.map_nil]
  have hprune' : p.unpriced.config.prune = false := hprune
  unfold settle
  rw [hcombine, hprune, hprune']
  generalize p.combine node inputs [] Table.empty { search := s } = f
  dsimp only
  rw [Found.isEmpty_unpriced, apply_ite (yieldUnpriced _)]
  congr 1
  unfold yieldUnpriced
  rw [if_neg Bool.false_ne_true, if_neg Bool.false_ne_true, record_unpriced]
  unfold Found.unpriced
  dsimp only
  rw [Array.size_map, Array.toList_map]
  rfl

theorem feed_unpriced
    {candidatesOf candidatesOf' : NodeId → Search α → Except Failure (List (Plan α)) × Search α}
    (h : ∀ id s, candidatesOf' id s.unpriced =
      yieldUnpriced (List.map Plan.unpriced) (candidatesOf id s)) :
    ∀ (cs : List Connection) (s : Search α), p.unpriced.feed candidatesOf' cs s.unpriced =
      yieldUnpriced (List.map (·.map (·.upon Plan.unpriced))) (p.feed candidatesOf cs s)
  | [], _ => rfl
  | c :: cs, s => by
    unfold feed
    rw [h]
    cases candidatesOf c.source s with
    | mk r s₁ =>
      cases r with
      | error e => rfl
      | ok producers =>
        dsimp only [yieldUnpriced, Except.map]
        rw [feed_unpriced h cs s₁, channels_unpriced]
        cases p.feed candidatesOf cs s₁ with
        | mk r s₂ => cases r <;> rfl

theorem candidatesWithin_unpriced (hprune : p.config.prune = false) :
    ∀ (depth : Nat) (id : NodeId) (s : Search α),
      p.unpriced.candidatesWithin depth id s.unpriced =
        yieldUnpriced (List.map Plan.unpriced) (p.candidatesWithin depth id s)
  | 0, _, _ => rfl
  | depth + 1, id, s => by
    have hfind : s.unpriced.forks.find? id =
        (s.forks.find? id).map (List.map Plan.unpriced) := Table.find?_mapValues _ _ _
    unfold candidatesWithin
    rw [hfind]
    cases s.forks.find? id with
    | some plans => rfl
    | none =>
      have hfeed := feed_unpriced (p := p) (candidatesWithin_unpriced hprune depth)
        (p.graph.node id).inputs s
      dsimp only [Option.map]
      rw [show p.unpriced.graph = p.graph from rfl, hfeed]
      cases p.feed (p.candidatesWithin depth) (p.graph.node id).inputs s with
      | mk r s₁ =>
        cases r with
        | error e => rfl
        | ok inputs => exact settle_unpriced hprune (p.graph.node id) inputs s₁

/-- Without pruning, leaving out the costs before or after a search gives the same. -/
theorem candidates_unpriced (hprune : p.config.prune = false) (id : NodeId) (s : Search α) :
    p.unpriced.candidates id s.unpriced =
      yieldUnpriced (List.map Plan.unpriced) (p.candidates id s) :=
  candidatesWithin_unpriced hprune p.graph.size id s

/-- Two problems are the same up to prices, and so is what their searches yield at the root and all
that they made, counted and remembered on the way, well or not. -/
structure SearchedAlike (p p' : Problem α) : Prop where
  problem : p'.unpriced = p.unpriced
  candidates :
    yieldUnpriced (List.map Plan.unpriced) (p'.candidates p'.graph.root {}) =
      yieldUnpriced (List.map Plan.unpriced) (p.candidates p.graph.root {})

variable {p' : Problem α}

/-- Unpruned searches of problems that differ in nothing but prices go alike. -/
theorem searchedAlike_of_unpriced (h : p'.unpriced = p.unpriced) (hprune : p.config.prune = false) :
    p.SearchedAlike p' := by
  have hroot : p'.graph.root = p.graph.root := congrArg (·.graph.root) h
  have hprune' : p'.config.prune = false := (congrArg (·.config.prune) h).trans hprune
  refine ⟨h, ?_⟩
  rw [hroot, ← candidates_unpriced hprune, ← candidates_unpriced hprune', h]

namespace SearchedAlike

theorem search (h : p.SearchedAlike p') :
    (p'.candidates p'.graph.root {}).2.unpriced = (p.candidates p.graph.root {}).2.unpriced :=
  congrArg Prod.snd h.candidates

theorem fails_iff (h : p.SearchedAlike p') {e : Failure} :
    (p.candidates p.graph.root {}).1 = .error e ↔
      (p'.candidates p'.graph.root {}).1 = .error e := by
  have hmap : ∀ r : Except Failure (List (Plan α)),
      r.map (List.map Plan.unpriced) = .error e ↔ r = .error e := by
    rintro (e' | plans) <;> simp [Except.map]
  have hyield := congrArg Prod.fst h.candidates
  dsimp only [yieldUnpriced] at hyield
  rw [← hmap, ← hyield, hmap]

theorem rootPlans (h : p.SearchedAlike p') :
    p'.rootPlans.map Plan.unpriced = p.rootPlans.map Plan.unpriced := by
  have hrootPlans : ∀ p : Problem α, p.rootPlans.map Plan.unpriced =
      (yieldUnpriced (List.map Plan.unpriced)
        (p.candidates p.graph.root {})).1.toOption.getD [] := by
    intro p
    unfold Problem.rootPlans yieldUnpriced
    cases (p.candidates p.graph.root {}).1 <;> rfl
  rw [hrootPlans, hrootPlans, h.candidates]

end SearchedAlike

end Problem

/-! ## §4 Runs -/

variable [Quantity α]

namespace Optimizer

variable {o o' : Optimizer α} {job : Job} {clock clock' : Nat → Nat}

/-- Optimizers that differ in nothing but prices prepare the same problem, but for the prices, or
fail alike. -/
theorem prepare_unpriced (job : Job)
    (hconfig : o'.config = { o.config with weights := o'.config.weights })
    (hclock : o.config.deadlineMs = none ∨ clock' = clock) :
    (∀ e, o.prepare job = .error e → o'.prepare job = .error e) ∧
      ∀ p, o.prepare job = .ok p → ∃ p', o'.prepare job = .ok p' ∧
        { p' with clock := clock' }.unpriced = { p with clock }.unpriced := by
  have hparallelism : o'.config.parallelism = o.config.parallelism := by rw [hconfig]
  have hmemory : o'.config.memoryBytes = o.config.memoryBytes := by rw [hconfig]
  have hbuild := Graph.build_congr hparallelism hmemory job
  constructor
  · intro e h
    cases hg : Graph.build o.config job with
    | error e' =>
      rw [prepare_eq_error hg] at h
      exact (prepare_eq_error (hbuild.trans hg)).trans h
    | ok g =>
      rw [prepare_eq hg] at h
      simp at h
  · intro p h
    obtain ⟨g, hg, rfl⟩ := prepare_ok h
    refine ⟨_, prepare_eq (hbuild.trans hg), ?_⟩
    have hconfig' : { o'.config with weights := defaultWeights } =
        { o.config with weights := defaultWeights } := by rw [hconfig]
    have hdeadline : o'.config.deadlineMs = o.config.deadlineMs := by rw [hconfig]
    unfold Problem.unpriced
    dsimp only
    rw [hconfig', hdeadline, Analysis.complete_unpriced g o.model o'.model]
    rcases hclock with hnone | rfl
    · simp only [hnone]
    · rfl

/-- A run fails where its search does. -/
theorem run_eq_error_iff {p : Problem α} (h : o.prepare job = .ok p) {e : Failure} :
    o.run job clock = .error e ↔ ({ p with clock }.candidates p.graph.root {}).1 = .error e := by
  cases hcand : { p with clock }.candidates p.graph.root {} with
  | mk r s =>
    cases r with
    | error e' =>
      rw [run_of_candidates_error h hcand]
      simp
    | ok plans =>
      obtain ⟨first, rest, -, hrun⟩ := run_of_candidates_ok h hcand
      rw [hrun]
      simp

end Optimizer

/-- Without pruning, prices decide nothing but the ranking. Let two optimizers have the same
settings except for the weights, whatever their cost models are, and the same clock unless there is
no deadline. Then a run of one fails just if a run of the other does, and for the same reason. Both
prepare the same problem, make the same plans in the same order and count the same, up to prices,
even if they fail. Else they find the same plans for the root, up to prices and in the same order,
and what each run ranks is the order that its own totals give to these, cut off at the same number
of plans, the best plan first. -/
theorem unpruned_runs_agree {o o' : Optimizer α} {job : Job} {clock clock' : Nat → Nat}
    (hconfig : o'.config = { o.config with weights := o'.config.weights })
    (hprune : o.config.prune = false)
    (hclock : o.config.deadlineMs = none ∨ clock' = clock) :
    (∀ e, o.run job clock = .error e ↔ o'.run job clock' = .error e) ∧
      (∀ p, o.prepare job = .ok p → ∃ p', o'.prepare job = .ok p' ∧
        { p with clock }.SearchedAlike { p' with clock := clock' }) ∧
      ∀ out, o.run job clock = .ok out → ∃ out', o'.run job clock' = .ok out' ∧
        out'.problem.unpriced = out.problem.unpriced ∧
        out'.search.unpriced = out.search.unpriced ∧
        out'.problem.rootPlans.map Plan.unpriced = out.problem.rootPlans.map Plan.unpriced ∧
        o.Ranks out ∧ o'.Ranks out' := by
  obtain ⟨herror, hok⟩ := Optimizer.prepare_unpriced job hconfig hclock
  cases h : o.prepare job with
  | error e =>
    rw [Optimizer.run_eq_error h, Optimizer.run_eq_error (herror e h)]
    exact ⟨fun _ => Iff.rfl, by simp, by simp⟩
  | ok p =>
    obtain ⟨p', h', hunpriced⟩ := hok p h
    have halike : { p with clock }.SearchedAlike { p' with clock := clock' } := by
      refine Problem.searchedAlike_of_unpriced hunpriced ?_
      rw [← hprune, ← Optimizer.config_eq h]
    have hfails : ∀ e, o.run job clock = .error e ↔ o'.run job clock' = .error e := by
      intro e
      rw [Optimizer.run_eq_error_iff h, Optimizer.run_eq_error_iff h']
      exact halike.fails_iff
    refine ⟨hfails, fun p₁ h₁ => ?_, fun out hrun => ?_⟩
    · obtain rfl := Except.ok.inj h₁
      exact ⟨p', h', halike⟩
    · cases hrun' : o'.run job clock' with
      | error e =>
        rw [(hfails e).2 hrun'] at hrun
        simp at hrun
      | ok out' =>
        obtain ⟨hproblem, hsearch, hranks⟩ := Optimizer.ranks_of_run h hrun
        obtain ⟨hproblem', hsearch', hranks'⟩ := Optimizer.ranks_of_run h' hrun'
        refine ⟨out', rfl, ?_, ?_, ?_, hranks, hranks'⟩
        · rw [hproblem, hproblem']
          exact halike.problem
        · rw [hsearch, hsearch']
          exact halike.search
        · rw [hproblem, hproblem']
          exact halike.rootPlans

/-- Two groupings in a row are planned on two clocks, with prices and without. Both runs make the
same 14 plans and find the same four for the root. Two that were found last are cheaper and are
ranked first; where no price is known, the four stay as they were found. -/
theorem unpruned_runs_agree_regrouped : ∃ (o o' : Optimizer ℚ) (out out' : Outcome ℚ),
    o'.config = { o.config with weights := o'.config.weights } ∧ o.config.prune = false ∧
      o.config.deadlineMs = none ∧
      o.run regrouped (fun _ => 0) = .ok out ∧ o'.run regrouped (fun made => made) = .ok out' ∧
      out.search.made.size = 14 ∧ out'.search.unpriced = out.search.unpriced ∧
      out'.problem.rootPlans.map Plan.unpriced = out.problem.rootPlans.map Plan.unpriced ∧
      out.ranked.map (fun r => (r.plan.id, r.total)) =
        [(12, some 88), (13, some 88), (10, some 152), (11, some 152)] ∧
      out'.ranked.map (fun r => (r.plan.id, r.total)) =
        [(10, none), (11, none), (12, none), (13, none)] := by
  let o := Optimizer.ofUnitWeights.withLimits false none none
  let o' : Optimizer ℚ :=
    ⟨{ prune := false }, .blind (defaultWeights.map Quantity.ofFloat), by rfl⟩
  obtain ⟨p, hprepare, hcheck⟩ := exists_ok_of_any (r := o.prepare regrouped)
    (f := fun p => (p.candidates p.graph.root {}).2.made.size == 14 &&
      p.rootPlans.map (fun q => (q.id, o.model.total q.cumulative)) ==
        [(10, some 152), (11, some 152), (12, some 88), (13, some 88)]) (by decide +kernel)
  obtain ⟨p', hprepare', hroot'⟩ := exists_ok_of_any (r := o'.prepare regrouped)
    (f := fun p => { p with clock := fun made => made }.rootPlans.map
      (fun q : Plan ℚ => (q.id, o'.model.total q.cumulative)) ==
        [(10, none), (11, none), (12, none), (13, none)]) (by decide +kernel)
  simp only [Bool.and_eq_true, beq_iff_eq] at hcheck hroot'
  obtain ⟨hsize, hroot⟩ := hcheck
  obtain ⟨out, hrun⟩ := Optimizer.exists_run hprepare rfl rfl fun _ => 0
  have hconfig : o'.config = { o.config with weights := o'.config.weights } := rfl
  obtain ⟨out', hrun', -, hsearch, hplans, hranks, hranks'⟩ :=
    (unpruned_runs_agree hconfig rfl (.inl rfl)).2.2 out hrun
  obtain ⟨hproblem, hmade, -⟩ := Optimizer.ranks_of_run_still hprepare hrun
  obtain ⟨hproblem', -, -⟩ := Optimizer.ranks_of_run hprepare' hrun'
  refine ⟨o, o', out, out', hconfig, rfl, rfl, hrun, hrun', ?_, hsearch, hplans, ?_, ?_⟩
  · rw [hmade]
    exact hsize
  · rw [hranks.map_ranked, hproblem, hroot, show o.config.maxRanked = 8 from rfl]
    norm_num [List.mergeSort, List.merge, Ranked.compareTotals, Quantity.rank, compareOfLessAndEq]
  · rw [hranks'.map_ranked, hproblem', hroot', show o'.config.maxRanked = 8 from rfl]
    simp [List.mergeSort, List.merge, Ranked.compareTotals]

end FlowPlanner
