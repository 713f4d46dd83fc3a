/-
FlowPlanner.Proofs.Search.Renaming — plans under other operator ids.

No plan, count or estimate mentions an operator id, and a search never asks a node which
operator it stands for. So the search of a renamed job is the very search of the job
(`Problem.candidates_relabel`): the same plans under the same numbers, and with them the
same ranking and the same description (`renamed_run_agrees`).
-/
import FlowPlanner.Description
import FlowPlanner.Proofs.Graph.Renaming
import FlowPlanner.Proofs.Search.Feasibility

namespace FlowPlanner

variable {α : Type} {f : OpId → OpId}

/-! ## §1 Searches -/

namespace Problem

/-- The problem with the nodes of renamed operators. -/
def relabel (f : OpId → OpId) (p : Problem α) : Problem α := { p with graph := p.graph.relabel f }

variable (p : Problem α)

theorem channels_relabel : (p.relabel f).channels = p.channels := by
  have hbase : (p.relabel f).baseChannel = p.baseChannel := by
    funext c producer
    unfold baseChannel
    rw [show (p.relabel f).graph = p.graph.relabel f from rfl, Graph.node_relabel,
      Graph.node_relabel]
    rfl
  funext c producers
  unfold channels
  rw [hbase]
  rfl

variable [Quantity α]

theorem plan_relabel (node : Node) : (p.relabel f).plan (node.relabel f) = p.plan node := by
  have hchoices : (p.relabel f).choicesAt = p.choicesAt := by
    funext node id choices
    unfold choicesAt
    rw [show (p.relabel f).graph = p.graph.relabel f from rfl, Graph.isFork_relabel]
    rfl
  funext choices id alt
  unfold plan
  rw [hchoices]
  rfl

theorem combine_relabel (node : Node) : ∀ (rest : List (List (Channel (Plan α))))
    (chosen : List (Channel (Plan α))) (choices : Choices) (found : Found α),
      (p.relabel f).combine (node.relabel f) rest chosen choices found =
        p.combine node rest chosen choices found
  | [], chosen, choices, found => by
    have hmake : (p.relabel f).make (node.relabel f) choices = p.make node choices := by
      funext found alt
      unfold make
      rw [plan_relabel]
    unfold combine
    rw [hmake]
    rfl
  | channels :: rest, chosen, choices, found => by
    unfold combine
    congr 1
    funext found c
    simp only [combine_relabel node rest]
    rfl

theorem settle_relabel (node : Node) :
    (p.relabel f).settle (node.relabel f) = p.settle node := by
  have hrecord : (p.relabel f).record = p.record := by
    funext node created kept s
    unfold record
    rw [show (p.relabel f).graph = p.graph.relabel f from rfl, Graph.isFork_relabel]
  funext inputs s
  unfold settle
  rw [combine_relabel, hrecord]
  rfl

omit [Quantity α] in
theorem feed_relabel
    (candidatesOf : NodeId → Search α → Except Failure (List (Plan α)) × Search α) :
    ∀ (cs : List Connection) (s : Search α),
      (p.relabel f).feed candidatesOf cs s = p.feed candidatesOf cs s
  | [], _ => rfl
  | c :: cs, s => by
    unfold feed
    simp only [feed_relabel candidatesOf cs, channels_relabel]

theorem candidatesWithin_relabel : ∀ depth : Nat,
    (p.relabel f).candidatesWithin depth = p.candidatesWithin depth
  | 0 => by
    funext id s
    unfold candidatesWithin
    rw [show (p.relabel f).graph = p.graph.relabel f from rfl, Graph.node_relabel]
    rfl
  | depth + 1 => by
    funext id s
    unfold candidatesWithin
    rw [show (p.relabel f).graph = p.graph.relabel f from rfl, Graph.node_relabel,
      candidatesWithin_relabel depth]
    dsimp only
    rw [feed_relabel, settle_relabel]
    rfl

/-- The search does not notice which operators the nodes stand for. -/
theorem candidates_relabel : (p.relabel f).candidates = p.candidates := by
  have hsize : (p.relabel f).graph.size = p.graph.size := Array.size_map
  unfold candidates
  rw [hsize, candidatesWithin_relabel]

end Problem

/-! ## §2 Runs -/

variable [Quantity α]

/-- Descriptions speak of what nodes do, not of the operators that they stand for. -/
theorem Description.ofPlan_relabel (g : Graph) (a : Analysis α) (w : Weights α) (root : Plan α) :
    ofPlan (g.relabel f) a w root = ofPlan g a w root := by
  have hlisted : listed (g.relabel f) root = listed g root := by
    unfold listed
    simp only [Graph.node_relabel]
    rfl
  have hentry : entry (g.relabel f) a = entry g a := by
    funext plans p
    unfold entry
    rw [Graph.node_relabel]
    rfl
  unfold ofPlan
  rw [hlisted, hentry]

namespace Optimizer

variable {o : Optimizer α} {job : Job}

theorem prepare_rename (hf : Set.InjOn f job.ids) : o.prepare (job.rename f) =
    ((o.prepare job).map (·.relabel f)).mapError (Failure.rename f) := by
  unfold prepare
  rw [Graph.build_rename hf]
  cases Graph.build o.config job with
  | error e => rfl
  | ok g =>
    dsimp only [Except.map, Except.mapError, bind, Except.bind, pure, Except.pure]
    rw [Graph.complete_relabel]
    rfl

/-- A search that fails names a node, by its name. -/
theorem failure_rename {p : Problem α} (hp : p.Prepared) {e : Failure} {s : Search α}
    (hcand : p.candidates p.graph.root {} = (.error e, s)) : e.rename f = e := by
  rcases p.candidates_ok_or_fails hp.wellFormed with
    ⟨plans, s', hok⟩ | ⟨st, n, e', s', herror, hfails, -⟩
  · rw [hcand] at hok
    simp at hok
  · rw [hcand] at herror
    obtain rfl := Except.error.inj (Prod.mk.inj herror).1
    obtain ⟨-, rfl, -⟩ := Problem.settle_error hfails.fails
    rfl

/-- A run of a renamed job fails just if a run of the job does, and for the same reason; else it
counts the same, finds and ranks the same plans, and describes its best plan in the same way. -/
theorem renamed_run_agrees (hf : Set.InjOn f job.ids) (clock : Nat → Nat) :
    (∀ e, o.run job clock = .error e → o.run (job.rename f) clock = .error (e.rename f)) ∧
      ∀ out, o.run job clock = .ok out → ∃ out', o.run (job.rename f) clock = .ok out' ∧
        out'.search = out.search ∧ out'.ranked = out.ranked ∧
          out'.description = out.description := by
  have hprepare := prepare_rename (o := o) hf
  cases h : o.prepare job with
  | error e =>
    rw [h] at hprepare
    rw [run_eq_error h, run_eq_error hprepare]
    exact ⟨fun e' he => by rw [Except.error.inj he], by simp⟩
  | ok p =>
    rw [h] at hprepare
    have hprepare' : o.prepare (job.rename f) = .ok (p.relabel f) := hprepare
    have hp := (prepared h).withClock clock
    have hcandidates : { p.relabel f with clock }.candidates (p.relabel f).graph.root {} =
        { p with clock }.candidates p.graph.root {} :=
      congrFun₂ ({ p with clock }.candidates_relabel) p.graph.root {}
    rw [run_eq h, run_eq hprepare', hcandidates]
    cases hcand : { p with clock }.candidates p.graph.root {} with
    | mk r s =>
      cases r with
      | error e =>
        refine ⟨?_, by simp⟩
        intro e' he
        obtain rfl := Except.error.inj he
        exact congrArg Except.error (failure_rename hp hcand).symm
      | ok plans =>
        dsimp only
        cases hrank : o.ranking plans with
        | nil => exact absurd hrank (o.ranking_ne_nil (candidates_ne_nil hp hcand))
        | cons first rest =>
          refine ⟨by simp, ?_⟩
          intro out hout
          obtain rfl := Except.ok.inj hout
          exact ⟨_, rfl, rfl, rfl, Description.ofPlan_relabel _ _ _ _⟩

/-- Counted down from 9, the ids of the job stand in the opposite order. -/
theorem renamed_run_agrees_diamond : Set.InjOn (9 - ·) diamond.ids ∧ ∃ out out',
    ofDefaults.run diamond = .ok out ∧ ofDefaults.run (diamond.rename (9 - ·)) = .ok out' ∧
      out'.search = out.search ∧ out'.ranked = out.ranked ∧
        out'.description = out.description := by
  have hops : ∀ op ∈ diamond.operators, op.id ≤ 9 ∧ ∀ x ∈ op.producers, x ≤ 9 := by decide
  have hle : ∀ x : Nat, x ∈ diamond.ids → x ≤ 9 := by
    rintro x ⟨op, hop, rfl | hx⟩
    · exact (hops op hop).1
    · exact (hops op hop).2 x hx
  have hf : Set.InjOn (9 - ·) diamond.ids := by
    intro x hx y hy heq
    have hback : 9 - (9 - x) = 9 - (9 - y) := congrArg (9 - ·) heq
    rwa [Nat.sub_sub_self (hle x hx), Nat.sub_sub_self (hle y hy)] at hback
  obtain ⟨p, hprepare⟩ := exists_ok_of_isOk (r := ofDefaults.prepare diamond) (by decide +kernel)
  obtain ⟨out, hrun⟩ := exists_run hprepare rfl rfl fun _ => 0
  obtain ⟨out', hrun', hsame⟩ := (renamed_run_agrees hf _).2 out hrun
  exact ⟨hf, out, out', hrun, hrun', hsame⟩

end Optimizer

end FlowPlanner
