/-
FlowPlanner.Proofs.Search.Mirror — one plan in two searches.

Searches of one problem, under different settings and on different clocks, give
different numbers to their plans. Two plans that run alike at every node are one
plan up to these numbers (`Plan.Mirrors`): what holds of a node's output is decided
by what runs at the node and above it, and costs are added up in the same order on
both sides. A search that drops nothing finds a plan that runs alike for whatever
plan another search finds (`exists_runsAlike`). So neither limits nor pruning make
up a plan, and none of them leads to a better total (`restricted_run_refines`).
-/
import FlowPlanner.Proofs.Search.Blueprint
import FlowPlanner.Proofs.Search.Walk

namespace FlowPlanner

variable {α : Type}

/-! ## §1 Plans that run alike -/

namespace Plan

/-- One plan that each of two plans uses, of the same node. -/
structure Counterparts (q r a b : Plan α) : Prop where
  left : q.Uses a
  right : r.Uses b
  node : a.node = b.node

/-- Two plans use the same driver and the same channel strategies at every node. -/
structure RunsAlike (q r : Plan α) : Prop where
  node : q.node = r.node
  alike : ∀ a b, q.Uses a → r.Uses b → a.node = b.node →
    a.driver = b.driver ∧ a.inputs.map (·.strategy) = b.inputs.map (·.strategy)

theorem RunsAlike.symm {q r : Plan α} (h : q.RunsAlike r) : r.RunsAlike q := by
  refine ⟨h.node.symm, ?_⟩
  intro a b ha hb hab
  obtain ⟨hdriver, hstrategy⟩ := h.alike b a hb ha hab.symm
  exact ⟨hdriver.symm, hstrategy.symm⟩

end Plan

namespace Problem

/-- The problem under other settings and on another clock. -/
def rerun (p : Problem α) (c : Config) (clock : Nat → Nat) : Problem α :=
  { p with config := c, clock }

variable [Quantity α] {p : Problem α} {c : Config} {clock : Nat → Nat} {st st' : Stage α}

theorem Prepared.rerun (hp : p.Prepared) : (p.rerun c clock).Prepared :=
  ⟨hp.wellFormed, hp.analysis_eq⟩

theorem Scheme.rerun {σ : NodeId → Plan α} (h : p.Scheme σ) : (p.rerun c clock).Scheme σ := by
  refine ⟨h.node_eq, ?_⟩
  intro n hn
  obtain ⟨t, alt, hbuilt, hruns⟩ := h.runs n hn
  exact ⟨t, alt, ⟨hbuilt.offered, hbuilt.alt_mem⟩,
    ⟨hruns.driver, hruns.strategy, hruns.output, hruns.own⟩⟩

/-- Whatever whole plan a search finds, a search that drops nothing finds one that runs alike. -/
theorem exists_runsAlike (hp : p.Prepared) (hbudget : c.budget = none)
    (hdeadline : c.deadlineMs = none) (hprune : c.prune = false) (hst : p.Reachable st)
    (hst' : (p.rerun c clock).Reachable st') (hdone : p.graph.root ∈ st'.done)
    {q : Plan α} (hq : q ∈ st.kept p.graph.root) :
    ∃ r ∈ st'.kept p.graph.root, r.RunsAlike q := by
  have hp' : (p.rerun c clock).Prepared := hp.rerun
  have hg := hp.wellFormed
  obtain ⟨σ, hσ, huses⟩ := hst.exists_scheme hp hq
  obtain ⟨τ, hτ, hfollows⟩ := hst'.exists_blueprint hp' hbudget hdeadline hprune hσ.rerun
  obtain ⟨hqmade, hqnode⟩ := (hst.consistent hg).kept_made _ q hq
  have hroot := hτ.node_eq hp'.wellFormed hst' hdone
  refine ⟨τ p.graph.root, hτ.kept _ hdone, hroot.trans hqnode.symm, ?_⟩
  intro a b ha hb hab
  have hcoh := (hst.catalogue hg).coherent hg hp.forks_eq hqmade
  have hlt : b.node < p.graph.size := (hst.catalogue hg).node_lt b
    ((hst.catalogue hg).of_uses hqmade hb)
  have hbσ : b = σ b.node := hcoh _ _ hb (huses _ hlt) (hσ.node_eq _ hlt).symm
  have haτ := hτ.eq_of_uses hp'.wellFormed hst' hdone ha
  have hadone : a.node ∈ st'.done := by
    refine hst'.done_of_reaches hdone ?_
    have hreach := (hst'.catalogue hp'.wellFormed).reaches_of_uses
      (hτ.made hp'.wellFormed hst' hdone) ha
    rwa [hroot] at hreach
  have hf := hfollows a.node hadone
  rw [← haτ, hab, ← hbσ] at hf
  exact ⟨hf.driver, hf.strategy⟩

end Problem

/-! ## §2 One plan up to numbers -/

/-- All of a channel but the plan that it reads, of which the node is left. -/
def Channel.outline (c : Channel (Plan α)) : Channel NodeId where
  source := c.source.node
  connection := c.connection
  ship := c.ship
  forced := c.forced
  rescaled := c.rescaled
  work := c.work
  placement := c.placement
  arrangement := c.arrangement

namespace Plan

/-- Two plans are the same, up to their numbers and to which plans they read. -/
structure Resembles (q r : Plan α) : Prop where
  node : q.node = r.node
  name : q.name = r.name
  driver : q.driver = r.driver
  inputs : q.inputs.map (·.outline) = r.inputs.map (·.outline)
  placement : q.placement = r.placement
  arrangement : q.arrangement = r.arrangement
  own : q.own = r.own
  cumulative : q.cumulative = r.cumulative

/-- Two plans are the same up to numbers: one uses a plan of a node exactly if the other does, and
then each uses one only, and the two are the same. -/
structure Mirrors (q r : Plan α) : Prop where
  node : q.node = r.node
  forth : ∀ a, q.Uses a → ∃! b, q.Counterparts r a b
  back : ∀ b, r.Uses b → ∃! a, q.Counterparts r a b
  resembles : ∀ a b, q.Counterparts r a b → a.Resembles b

theorem Mirrors.cumulative_eq {q r : Plan α} (h : q.Mirrors r) : q.cumulative = r.cumulative :=
  (h.resembles q r ⟨Uses.refl q, Uses.refl r, h.node⟩).cumulative

end Plan

namespace Problem

/-- Channels that carry one connection and do the same are the same, up to the plan that they read,
if these plans have the same output. -/
theorem Carries.outline_eq {p : Problem α} {a b : Channel (Plan α)} {c : Connection}
    (ha : p.Carries a c) (hb : p.Carries b c) (hstrategy : a.strategy = b.strategy)
    (hsource : a.source.SameOutput b.source) : a.outline = b.outline := by
  have hship : a.ship = b.ship := congrArg (·.2.2.1) hstrategy
  have hwork : a.work = b.work := congrArg (·.2.2.2) hstrategy
  have hrescaled : a.rescaled = b.rescaled := ha.rescaled.trans hb.rescaled.symm
  have hplacement : a.placement = b.placement := by
    rw [ha.lawful.placement, hb.lawful.placement, hrescaled, hship,
      Channel.shippedPlacement_congr hsource]
  have harrangement : a.arrangement = b.arrangement := by
    rw [ha.lawful.arrangement, hb.lawful.arrangement, hrescaled, hship, hwork,
      Channel.shippedArrangement_congr hsource]
  unfold Channel.outline
  rw [hsource.node, ha.connection, hb.connection, hship, ha.forced, hb.forced, hrescaled, hwork,
    hplacement, harrangement]

variable [Quantity α] {p : Problem α} {c : Config} {clock : Nat → Nat} {st st' : Stage α}
  {q r a b : Plan α}

/-- Among the plans that one plan uses, numbers tell nodes apart. -/
theorem Catalogue.id_eq_iff {S : Plan α → Prop} (h : p.Catalogue S) (hp : p.Prepared) (hq : S q)
    (ha : q.Uses a) (hb : q.Uses b) : a.id = b.id ↔ a.node = b.node := by
  constructor
  · intro hid
    rw [h.id_inj a b (h.of_uses hq ha) (h.of_uses hq hb) hid]
  · intro hnode
    rw [h.coherent hp.wellFormed hp.forks_eq hq a b ha hb hnode]

/-- What the plans that a plan uses read. -/
theorem Reachable.inputs_of_uses (hg : p.graph.WellFormed) (hst : p.Reachable st)
    (hq : q ∈ st.search.made) (ha : q.Uses a) :
    List.Forall₂ (fun ch e => q.Uses ch.source ∧ p.Carries ch e ∧ ch.source.node = e.source)
      a.inputs (p.graph.node a.node).inputs := by
  have hcat := hst.catalogue hg
  have hmade := hcat.of_uses hq ha
  refine (List.forall₂_and_left _ _).2 ⟨fun ch hch => ha.trans (Plan.uses_of_mem hch), ?_⟩
  exact List.Forall₂.mp (fun ch e hcarries hrealizes => ⟨hcarries, hrealizes.2⟩)
    (hst.carries hg hmade) (hcat.inputs a hmade)

/-- Plans of two searches that run alike. -/
structure Twins (p : Problem α) (c : Config) (clock : Nat → Nat) (st st' : Stage α)
    (q r : Plan α) : Prop where
  prepared : p.Prepared
  reachable : p.Reachable st
  reachable' : (p.rerun c clock).Reachable st'
  made : q ∈ st.search.made
  made' : r ∈ st'.search.made
  alike : q.RunsAlike r

namespace Twins

theorem catalogue (h : p.Twins c clock st st' q r) : p.Catalogue (· ∈ st.search.made) :=
  h.reachable.catalogue h.prepared.wellFormed

theorem catalogue' (h : p.Twins c clock st st' q r) :
    (p.rerun c clock).Catalogue (· ∈ st'.search.made) :=
  h.reachable'.catalogue h.prepared.rerun.wellFormed

/-- Counterparts read counterparts over the same connections, in the same way. -/
theorem inputs (h : p.Twins c clock st st' q r) (hab : q.Counterparts r a b) :
    List.Forall₂ (fun x y => q.Counterparts r x.source y.source ∧ x.strategy = y.strategy ∧
      ∃ e, p.Carries x e ∧ p.Carries y e) a.inputs b.inputs := by
  have hinputs := h.reachable.inputs_of_uses h.prepared.wellFormed h.made hab.left
  have hinputs' := h.reachable'.inputs_of_uses h.prepared.rerun.wellFormed h.made' hab.right
  rw [← hab.node] at hinputs'
  have hpairs : List.Forall₂ (fun x y => q.Counterparts r x.source y.source ∧
      ∃ e, p.Carries x e ∧ p.Carries y e) a.inputs b.inputs := by
    refine forall₂_of_left hinputs'.flip hinputs.flip ?_
    rintro e y x ⟨hy, hcarries', hnode'⟩ ⟨hx, hcarries, hnode⟩
    exact ⟨⟨hx, hy, hnode.trans hnode'.symm⟩, e, hcarries,
      ⟨hcarries'.route, hcarries'.ship, hcarries'.lawful⟩⟩
  have hstrategies := (h.alike.alike a b hab.left hab.right hab.node).2
  rw [← List.forall₂_eq_eq_eq, List.forall₂_map_left_iff, List.forall₂_map_right_iff] at hstrategies
  exact List.Forall₂.mp (fun x y hstrategy hpair => ⟨hpair.1, hstrategy, hpair.2⟩) hstrategies
    hpairs

/-- Numbers tell the plans of one side apart as they do on the other side. -/
theorem renumbers (h : p.Twins c clock st st' q r) : Renumbers (q.Counterparts r) where
  sources a b hab := (h.inputs hab).imp fun _ _ hxy => hxy.1
  ids a b a' b' hab hab' := by
    rw [h.catalogue.id_eq_iff h.prepared h.made hab.left hab'.left,
      h.catalogue'.id_eq_iff h.prepared.rerun h.made' hab.right hab'.right, hab.node, hab'.node]
  below a b hab ch hch := h.catalogue.lt_of_uses_source h.prepared.wellFormed
    (h.catalogue.of_uses h.made hab.left) hch (Plan.Uses.refl _)

theorem founded (h : p.Twins c clock st st' q r) (hab : q.Counterparts r a b) :
    p.Founded a ∧ (p.rerun c clock).Founded b :=
  ⟨((h.reachable.consistent h.prepared.wellFormed).derived a
      (h.catalogue.of_uses h.made hab.left)).founded,
    ((h.reachable'.consistent h.prepared.rerun.wellFormed).derived b
      (h.catalogue'.of_uses h.made' hab.right)).founded⟩

theorem own_eq (h : p.Twins c clock st st' q r) (hab : q.Counterparts r a b) : a.own = b.own := by
  obtain ⟨hdriver, hstrategy⟩ := h.alike.alike a b hab.left hab.right hab.node
  obtain ⟨ha, hb⟩ := h.founded hab
  rw [ha.own, hb.own, hab.node]
  exact ownCost_congr hdriver hstrategy

theorem cumulative_eq (h : p.Twins c clock st st' q r) (hab : q.Counterparts r a b) :
    a.cumulative = b.cumulative := by
  obtain ⟨ha, hb⟩ := h.founded hab
  rw [ha.cumulative, hb.cumulative, h.own_eq hab]
  exact cumulativeCost_congr h.renumbers (fun _ _ => h.own_eq) (h.renumbers.sources a b hab) b.own

/-- Counterparts are offered the same channels, up to numbers, and have the same output. -/
theorem output_eq (h : p.Twins c clock st st' q r) (hab : q.Counterparts r a b) :
    a.inputs.map (·.outline) = b.inputs.map (·.outline) ∧ a.SameOutput b := by
  -- What counterparts read stands at nodes before theirs.
  induction hn : a.node using Nat.strongRecOn generalizing a b with
  | _ n ih =>
    have houtlines : a.inputs.map (·.outline) = b.inputs.map (·.outline) := by
      rw [← List.forall₂_eq_eq_eq, List.forall₂_map_left_iff, List.forall₂_map_right_iff]
      refine ((List.forall₂_and_left _ _).2 ⟨h.renumbers.below a b hab, h.inputs hab⟩).imp ?_
      rintro x y ⟨hlt, hsource, hstrategy, e, hx, hy⟩
      exact hx.outline_eq hy hstrategy (ih x.source.node (hn ▸ hlt) hsource rfl).2
    obtain ⟨ha, hb⟩ := h.founded hab
    have hproperties : a.inputs.map (·.properties) = b.inputs.map (·.properties) := by
      have hmap := congrArg (List.map fun o => (o.placement, o.arrangement)) houtlines
      rwa [List.map_map, List.map_map] at hmap
    have houtput : (a.placement, a.arrangement) = (b.placement, b.arrangement) := by
      rw [ha.output, hb.output, hab.node]
      exact Node.output_congr (h.alike.alike a b hab.left hab.right hab.node).1 hproperties
    obtain ⟨hplacement, harrangement⟩ := Prod.mk.inj houtput
    exact ⟨houtlines, hab.node, hplacement, harrangement⟩

/-- Counterparts are the same plan up to numbers. -/
theorem resembles (h : p.Twins c clock st st' q r) (hab : q.Counterparts r a b) :
    a.Resembles b where
  node := hab.node
  name := by
    obtain ⟨ha, hb⟩ := h.founded hab
    rw [ha.name, hb.name, hab.node]
    rfl
  driver := (h.alike.alike a b hab.left hab.right hab.node).1
  inputs := (h.output_eq hab).1
  placement := (h.output_eq hab).2.placement
  arrangement := (h.output_eq hab).2.arrangement
  own := h.own_eq hab
  cumulative := h.cumulative_eq hab

/-- Plans of two searches that run alike are the same plan up to numbers. -/
theorem mirrors (h : p.Twins c clock st st' q r) : q.Mirrors r := by
  have hspans := h.catalogue.spans h.prepared.wellFormed h.prepared.forks_eq h.made
  have hspans' := h.catalogue'.spans h.prepared.rerun.wellFormed h.prepared.rerun.forks_eq h.made'
  refine ⟨h.alike.node, ?_, ?_, fun _ _ => h.resembles⟩
  · intro a ha
    obtain ⟨b, ⟨hb, hnode⟩, honly⟩ := hspans'.one_plan a.node (by
      rw [← h.alike.node]
      exact hspans.within a ha)
    exact ⟨b, ⟨ha, hb, hnode.symm⟩, fun b' hb' => honly b' ⟨hb'.right, hb'.node.symm⟩⟩
  · intro b hb
    obtain ⟨a, ⟨ha, hnode⟩, honly⟩ := hspans.one_plan b.node (by
      rw [h.alike.node]
      exact hspans'.within b hb)
    exact ⟨a, ⟨ha, hb, hnode⟩, fun a' ha' => honly a' ⟨ha'.left, ha'.node⟩⟩

end Twins

/-- Plans that run alike cost the same, also across searches. -/
theorem cumulative_eq_of_runsAlike (hp : p.Prepared) (hst : p.Reachable st)
    (hst' : (p.rerun c clock).Reachable st') (hq : q ∈ st.search.made) (hr : r ∈ st'.search.made)
    (h : q.RunsAlike r) : q.cumulative = r.cumulative :=
  (Twins.mirrors ⟨hp, hst, hst', hq, hr, h⟩).cumulative_eq

/-! ## §3 Searches that drop nothing -/

/-- Whatever a search finds for the root, a search that drops nothing finds too. -/
theorem Prepared.exists_mirrors (hp : p.Prepared) (hbudget : c.budget = none)
    (hdeadline : c.deadlineMs = none) (hprune : c.prune = false) (hq : q ∈ p.rootPlans) :
    ∃ r ∈ (p.rerun c clock).rootPlans, q.Mirrors r := by
  have hp' : (p.rerun c clock).Prepared := hp.rerun
  obtain ⟨st, hst, hkept⟩ := exists_stage_of_mem_rootPlans hp.wellFormed hq
  obtain ⟨plans, s, hcand⟩ := exists_candidates_of_unlimited hp' hbudget hdeadline
  obtain ⟨st', hst', hdone, rfl, -⟩ := exists_stage_of_ok hp'.wellFormed hcand
  obtain ⟨r, hr, halike⟩ := exists_runsAlike hp hbudget hdeadline hprune hst hst' hdone hkept
  have hmade := ((hst.consistent hp.wellFormed).kept_made _ q hkept).1
  have hmade' := ((hst'.consistent hp'.wellFormed).kept_made _ r hr).1
  rw [rootPlans_eq hcand]
  exact ⟨r, hr, Twins.mirrors ⟨hp, hst, hst', hmade, hmade', halike.symm⟩⟩

end Problem

namespace Optimizer

variable [Quantity α]

/-- The optimizer with other limits, pruning or not. -/
def withLimits (o : Optimizer α) (prune : Bool) (budget deadlineMs : Option Nat) : Optimizer α :=
  { o with config := { o.config with prune, budget, deadlineMs }, valid := o.valid }

/-- Under all limits a job is laid out and analysed as without them. -/
theorem prepare_withLimits {o : Optimizer α} {job : Job} {p : Problem α}
    (h : o.prepare job = .ok p) (prune : Bool) (budget deadlineMs : Option Nat) :
    (o.withLimits prune budget deadlineMs).prepare job =
      .ok (p.rerun (o.withLimits prune budget deadlineMs).config fun _ => 0) := by
  obtain ⟨g, hbuild, rfl⟩ := prepare_ok h
  refine (o.withLimits prune budget deadlineMs).prepare_eq ?_
  rw [← hbuild]
  exact @Graph.build_congr (o.withLimits prune budget deadlineMs).config o.config rfl rfl job

end Optimizer

/-- However a search is limited, and whether it prunes or not, every candidate that it finds for the
root is found by the search that drops nothing, too, up to numbers. So none has a total that ranks
before the best total of that search, and no run reports such a total. -/
theorem restricted_run_refines [Quantity α] [Quantity.Ordered α] (o : Optimizer α) {job : Job}
    {g : Graph} (hbuild : Graph.build o.config job = .ok g) (prune : Bool)
    (budget deadlineMs : Option Nat) :
    ∃ p p', (o.withLimits prune budget deadlineMs).prepare job = .ok p ∧
      (o.withLimits false none none).prepare job = .ok p' ∧
      (∀ clock clock', ∀ q ∈ { p with clock }.rootPlans,
        ∃ r ∈ { p' with clock := clock' }.rootPlans, q.Mirrors r) ∧
      ∀ clock', ∃ full, (o.withLimits false none none).run job clock' = .ok full ∧
        (∀ clock, ∀ q ∈ { p with clock }.rootPlans,
          NoMore full.total (o.model.total q.cumulative)) ∧
        ∀ clock out, (o.withLimits prune budget deadlineMs).run job clock = .ok out →
          NoMore full.total out.total := by
  obtain ⟨p₀, hprepare⟩ : ∃ p₀, o.prepare job = .ok p₀ := ⟨_, o.prepare_eq hbuild⟩
  have hlimited := Optimizer.prepare_withLimits hprepare prune budget deadlineMs
  have hfree := Optimizer.prepare_withLimits hprepare false none none
  have hmirrors : ∀ clock clock',
      ∀ q ∈ (p₀.rerun (o.withLimits prune budget deadlineMs).config clock).rootPlans,
        ∃ r ∈ (p₀.rerun (o.withLimits false none none).config clock').rootPlans, q.Mirrors r := by
    intro clock clock' q hq
    have hp : (p₀.rerun (o.withLimits prune budget deadlineMs).config clock).Prepared :=
      (Optimizer.prepared hprepare).rerun
    exact hp.exists_mirrors (c := (o.withLimits false none none).config) rfl rfl rfl hq
  refine ⟨_, _, hlimited, hfree, hmirrors, ?_⟩
  intro clock'
  obtain ⟨full, hfull⟩ := Optimizer.exists_run hfree rfl rfl clock'
  obtain ⟨-, hleast⟩ := Optimizer.total_spec hfree hfull
  have hnoMore : ∀ clock,
      ∀ q ∈ (p₀.rerun (o.withLimits prune budget deadlineMs).config clock).rootPlans,
        NoMore full.total (o.model.total q.cumulative) := by
    intro clock q hq
    obtain ⟨r, hr, hqr⟩ := hmirrors clock clock' q hq
    rw [hqr.cumulative_eq]
    exact hleast r hr
  refine ⟨full, hfull, hnoMore, ?_⟩
  intro clock out hout
  obtain ⟨⟨q, hq, htotal⟩, -⟩ := Optimizer.total_spec hlimited hout
  rw [← htotal]
  exact hnoMore _ q hq

/-- Two sources of one record each. -/
def singleRecords : List Operator :=
  [{ id := 1, name := "a"
     kind := .source { statistics := { records := some 1, bytes := some 1000 } }
     sizes := { keyCardinality := some 1 } },
   { id := 2, name := "b"
     kind := .source { statistics := { records := some 1, bytes := some 100 } }
     sizes := { keyCardinality := some 1 } }]

/-- A join of two sources whose user code may change everything. -/
def plainJoin : Job where
  operators := singleRecords ++
    [{ id := 3, name := "join", kind := .equiJoin, inputs := [[1], [2]], keys := [[0], [0]] },
     { id := 4, name := "out", kind := .sink, inputs := [[3]] }]

/-- A limit is reached and plans are dropped; what is left has other numbers in the full search. -/
theorem restricted_run_refines_plainJoin : ∃ limited full,
    (Optimizer.ofUnitWeights.withLimits true (some 6) none).run plainJoin = .ok limited ∧
      (Optimizer.ofUnitWeights.withLimits false none none).run plainJoin = .ok full ∧
      limited.search.exhausted = true ∧ limited.search.pruned ≠ 0 ∧
      (∀ q ∈ limited.problem.rootPlans, ∃ r ∈ full.problem.rootPlans, q.Mirrors r ∧ q.id ≠ r.id) ∧
      NoMore full.total limited.total := by
  obtain ⟨g, hbuild⟩ := exists_ok_of_isOk
    (r := Graph.build Optimizer.ofUnitWeights.config plainJoin) (by decide +kernel)
  obtain ⟨p, hprepare, hcheck⟩ := exists_ok_of_any
    (r := (Optimizer.ofUnitWeights.withLimits true (some 6) none).prepare plainJoin)
    (f := fun p => (p.candidates p.graph.root {}).2.exhausted &&
      (p.candidates p.graph.root {}).2.pruned != 0 && p.rootPlans.all (·.id < 10))
    (by decide +kernel)
  obtain ⟨p', hprepare', hcheck'⟩ := exists_ok_of_any
    (r := (Optimizer.ofUnitWeights.withLimits false none none).prepare plainJoin)
    (f := fun p => p.rootPlans.all (10 ≤ ·.id)) (by decide +kernel)
  obtain ⟨limited, hlimited⟩ := exists_ok_of_isOk
    (r := (Optimizer.ofUnitWeights.withLimits true (some 6) none).run plainJoin)
    (by decide +kernel)
  obtain ⟨p₁, p₁', h₁, h₁', hmirrors, hfree⟩ :=
    restricted_run_refines Optimizer.ofUnitWeights hbuild true (some 6) none
  obtain ⟨full, hfull, -, hnoMore⟩ := hfree fun _ => 0
  obtain rfl := Except.ok.inj (h₁.symm.trans hprepare)
  obtain rfl := Except.ok.inj (h₁'.symm.trans hprepare')
  obtain ⟨hproblem, hsearch, -⟩ := Optimizer.ranks_of_run_still hprepare hlimited
  obtain ⟨hproblem', -, -⟩ := Optimizer.ranks_of_run_still hprepare' hfull
  simp only [Bool.and_eq_true, bne_iff_ne, List.all_eq_true, decide_eq_true_eq] at hcheck hcheck'
  obtain ⟨⟨hexhausted, hpruned⟩, hids⟩ := hcheck
  refine ⟨limited, full, hlimited, hfull, ?_, ?_, ?_, hnoMore _ limited hlimited⟩
  · rw [hsearch]
    exact hexhausted
  · rw [hsearch]
    exact hpruned
  · rw [hproblem, hproblem']
    intro q hq
    obtain ⟨r, hr, hqr⟩ := hmirrors p₁.clock p₁'.clock q hq
    have hlt := Nat.lt_of_lt_of_le (hids q hq) (hcheck' r hr)
    exact ⟨r, hr, hqr, Nat.ne_of_lt hlt⟩

end FlowPlanner
