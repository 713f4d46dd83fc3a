/-
FlowPlanner.Proofs.Search.Append — one more sink does not disturb what it reads.

An operator that one more sink reads may become a fork, and then its plans choose
themselves; beneath it other choices are open, and other candidates are useless. At the
operator and above it none of this matters. At the end of a search the plans of a node
are those that were found from the plans of its producers (`Problem.Settled`), and from
the sources down a second search finds from the same plans the same ones: this is shown
up to numbers (`Problem.Grows.copies`), so that it need not be known when the sink is
settled. Without numbers the plans are equal (`appended_sink_keeps_plans`).
-/
import FlowPlanner.Proofs.Graph.Append
import FlowPlanner.Proofs.Search.Accounting
import FlowPlanner.Proofs.Search.Limits
import FlowPlanner.Proofs.Search.Renumber

namespace FlowPlanner

variable {α : Type}

/-! ## §1 Settled nodes -/

/-- The number of the first plan that a search made of a node. -/
def Search.first (s : Search α) (n : NodeId) : PlanId := ((s.madeAt n).head?.map (·.id)).getD 0

theorem Search.mem_madeAt {s : Search α} {n : NodeId} {q : Plan α} :
    q ∈ s.madeAt n ↔ q ∈ s.made ∧ q.node = n := by
  unfold madeAt
  rw [List.mem_filter, Array.mem_toList_iff, beq_iff_eq]

namespace Problem

variable [Quantity α] {p : Problem α} {st : Stage α} {n : NodeId}

/-- The plans of a node were found from the plans of its producers, in a search that had reached no
limit, and are numbered from there on; those kept are the ones that survived. -/
structure Settled (p : Problem α) (st : Stage α) (n : NodeId) (s : Search α) : Prop where
  running : s.exhausted = false
  size_eq : s.made.size = st.search.first n
  madeAt_eq : st.search.madeAt n =
    (p.found (p.graph.node n) (p.channelsAt st n) s).plans.toList
  kept_eq : st.kept n = (p.survivors (p.graph.node n)
    (p.found (p.graph.node n) (p.channelsAt st n) s).plans).1

omit [Quantity α] in
theorem channelsAt_settle (hdue : p.Due st n) (kept : List (Plan α)) (s : Search α) {m : NodeId}
    (hm : ∀ c ∈ (p.graph.node m).inputs, c.source ∈ st.done) :
    p.channelsAt (st.settle n kept s) m = p.channelsAt st m := by
  refine List.map_congr_left fun c hc => ?_
  rw [Stage.kept_settle_of_ne (hdue.ne_of_done (hm c hc))]

/-- The node that a step settles is settled in the search before the step. -/
theorem Settles.settled_self (hg : p.graph.WellFormed) (hst : p.Reachable st) (hdue : p.Due st n)
    {kept : List (Plan α)} {s : Search α}
    (h : p.Settles (p.graph.node n) (p.channelsAt st n) st.search kept s)
    (hrunning : st.search.exhausted = false) :
    p.Settled (st.settle n kept s) n st.search := by
  have hmade := h.madeAt_self hg hst hdue
  have hchannels := channelsAt_settle hdue kept s hdue.sources
  have hpos : 0 < (p.found (p.graph.node n) (p.channelsAt st n) st.search).plans.size := by
    rw [Nat.pos_iff_ne_zero]
    intro hzero
    have hfound := h.found
    rw [Array.eq_empty_of_size_eq_zero hzero] at hfound
    simp at hfound
  refine ⟨hrunning, ?_, ?_, ?_⟩
  · obtain ⟨-, hplans⟩ := p.found_spec (p.graph.node n) (p.channelsAt st n) st.search
    obtain ⟨t, choices, alt, -, hplan⟩ := hplans 0 hpos
    unfold Search.first
    rw [show (st.settle n kept s).search = s from rfl, hmade, List.head?_eq_getElem?,
      Array.getElem?_toList, Array.getElem?_eq_getElem hpos, hplan]
    rfl
  · rw [hchannels]
    exact hmade
  · rw [hchannels, Stage.kept_settle_self]
    exact h.kept_eq

/-- A node that was settled before a step stays settled as it was. -/
theorem Settled.settle (hg : p.graph.WellFormed) (hst : p.Reachable st) (hdue : p.Due st n)
    {kept : List (Plan α)} {s : Search α}
    (hs : p.Settles (p.graph.node n) (p.channelsAt st n) st.search kept s) {m : NodeId}
    (hm : m ∈ st.done) {s₀ : Search α} (h : p.Settled st m s₀) :
    p.Settled (st.settle n kept s) m s₀ := by
  have hne := hdue.ne_of_done hm
  have hmade := hs.madeAt_of_ne hg hdue hne
  have hchannels := channelsAt_settle hdue kept s fun c hc =>
    hst.done_of_reaches hm (Graph.reaches_of_mem hc)
  refine ⟨h.running, ?_, ?_, ?_⟩
  · unfold Search.first
    rw [show (st.settle n kept s).search = s from rfl, hmade]
    exact h.size_eq
  · rw [hchannels]
    exact hmade.trans h.madeAt_eq
  · rw [hchannels, Stage.kept_settle_of_ne hne]
    exact h.kept_eq

/-- Without limits every node that is done is settled. -/
theorem Reachable.exists_settled (hg : p.graph.WellFormed) (hbudget : p.config.budget = none)
    (hdeadline : p.config.deadlineMs = none) (hst : p.Reachable st) (hn : n ∈ st.done) :
    ∃ s, p.Settled st n s := by
  refine Reachable.induct (P := fun st => ∀ n ∈ st.done, ∃ s, p.Settled st n s) (by simp) ?_ hst n
    hn
  intro st n kept s hst ih hdue hs m hm
  rcases List.mem_cons.1 hm with rfl | hm
  · exact ⟨st.search, (settle_ok hs).settled_self hg hst hdue
      (hst.exhausted_eq_false hbudget hdeadline)⟩
  · obtain ⟨s₀, hs₀⟩ := ih m hm
    exact ⟨s₀, hs₀.settle hg hst hdue (settle_ok hs) hm⟩

/-- The plans of a node are numbered on from the first one. -/
theorem Settled.first_le {s : Search α} (h : p.Settled st n s) {q : Plan α}
    (hq : q ∈ st.search.madeAt n) : st.search.first n ≤ q.id := by
  rw [h.madeAt_eq] at hq
  obtain ⟨i, hi, rfl⟩ := List.mem_iff_getElem.1 hq
  rw [Array.length_toList] at hi
  obtain ⟨-, hplans⟩ := p.found_spec (p.graph.node n) (p.channelsAt st n) s
  obtain ⟨t, choices, alt, -, hplan⟩ := hplans i hi
  rw [Array.getElem_toList, hplan, ← h.size_eq]
  exact Nat.le_add_right _ _

end Problem

/-! ## §2 Numbers in the second search -/

/-- The plans of every node get the numbers that a second search gives to those it makes of the
node, the first one to the first one and so on. -/
def Search.follow (s s' : Search α) : Renumbering := fun n x => s'.first n + (x - s.first n)

theorem Search.follow_add (s s' : Search α) (n : NodeId) (i : Nat) :
    s.follow s' n (s.first n + i) = s'.first n + i := by
  unfold follow
  rw [Nat.add_sub_cancel_left]

theorem Search.injOn_follow (s s' : Search α) (n : NodeId) :
    Set.InjOn (s.follow s' n) {x | s.first n ≤ x} := by
  intro x hx y hy heq
  obtain ⟨i, rfl⟩ := Nat.exists_eq_add_of_le (show s.first n ≤ x from hx)
  obtain ⟨j, rfl⟩ := Nat.exists_eq_add_of_le (show s.first n ≤ y from hy)
  rw [follow_add, follow_add] at heq
  rw [Nat.add_left_cancel heq]

namespace Problem

variable [Quantity α] {p p' : Problem α} {st st' : Stage α} {k n : NodeId}

/-- In the second problem one more connection leaves a node, towards something that asks nothing;
all else is the same, and there are no limits. -/
structure Grows (p p' : Problem α) (k n : NodeId) : Prop where
  prepared : p.Prepared
  prepared' : p'.Prepared
  graph : p.graph.Grows p'.graph k n
  config_eq : p'.config = p.config
  model_eq : p'.model = p.model
  budget_eq : p.config.budget = none
  deadline_eq : p.config.deadlineMs = none

/-- The new reader changes nothing for the node and what reaches it, but that the node may be a fork
now. -/
theorem Grows.treatsAlike (h : p.Grows p' k n) {m : NodeId} (hm : p.graph.Reaches m n) :
    p.TreatsAlike p' m := by
  have hlt := h.graph.reaches_lt hm
  refine ⟨h.model_eq, by rw [h.config_eq], h.budget_eq, by rw [h.config_eq]; exact h.budget_eq,
    h.deadline_eq, by rw [h.config_eq]; exact h.deadline_eq, h.graph.node_eq m hlt, ?_, ?_, ?_,
    h.graph.isFork_mono hm⟩
  · intro c hc
    refine ⟨?_, ?_, ?_⟩
    · rw [h.graph.node_eq _ (h.graph.source_lt hlt hc)]
    · rw [h.graph.numbered.target_eq m c hc, h.graph.node_eq m hlt]
    · rw [h.prepared.analysis_eq, h.prepared'.analysis_eq, h.model_eq,
        h.graph.requestsOver_eq p.model hlt hc]
  · rw [h.prepared.analysis_eq, h.prepared'.analysis_eq, h.model_eq,
      h.graph.requestsOn_eq p.model hlt]
  · unfold Analysis.forkState
    rw [h.prepared.forks_eq, h.prepared'.forks_eq, h.graph.forkStates_eq hm]

/-- The second search made the plans of a node that the first one made, and kept those that the
first one kept, under new numbers. -/
structure Copies (p' : Problem α) (st st' : Stage α) (m : NodeId) : Prop where
  madeAt_eq : st'.search.madeAt m =
    (st.search.madeAt m).map (Plan.renumber p'.graph (st.search.follow st'.search))
  kept_eq : st'.kept m =
    (st.kept m).map (Plan.renumber p'.graph (st.search.follow st'.search))

omit [Quantity α] in
theorem Copies.mem_made {q : Plan α} (h : Copies p' st st' q.node) (hq : q ∈ st.search.made) :
    q.renumber p'.graph (st.search.follow st'.search) ∈ st'.search.made := by
  have hcopy := List.mem_map_of_mem (f := Plan.renumber p'.graph (st.search.follow st'.search))
    (Search.mem_madeAt.2 ⟨hq, rfl⟩)
  rw [← h.madeAt_eq] at hcopy
  exact (Search.mem_madeAt.1 hcopy).1

/-- The plans that the plans of a node may read. -/
def Above (p : Problem α) (st : Stage α) (n m : NodeId) (q : Plan α) : Prop :=
  q ∈ st.search.made ∧ p.graph.Reaches q.node n ∧ q.node < m

/-! ## §3 One node after the other -/

theorem Reachable.first_le (hp : p.Prepared) (hbudget : p.config.budget = none)
    (hdeadline : p.config.deadlineMs = none) (hst : p.Reachable st) {q : Plan α}
    (hq : q ∈ st.search.made) : st.search.first q.node ≤ q.id := by
  obtain ⟨s, hs⟩ := hst.exists_settled hp.wellFormed hbudget hdeadline
    ((hst.consistent hp.wellFormed).node_done q hq)
  exact hs.first_le (Search.mem_madeAt.2 ⟨hq, rfl⟩)

/-- What a plan chose are plans that were made. -/
theorem Reachable.among (hp : p.Prepared) (hbudget : p.config.budget = none)
    (hdeadline : p.config.deadlineMs = none) (hst : p.Reachable st) {q : Plan α}
    (hq : q ∈ st.search.made) : q.choices.Among fun fork x => st.search.first fork ≤ x := by
  intro fork x hx
  have hcat := hst.catalogue hp.wellFormed
  obtain ⟨r, hr, rfl, rfl, -⟩ := hcat.exists_uses_of_find?_choices hp.wellFormed hq hx
  exact hst.first_le hp hbudget hdeadline (hcat.of_uses hq hr)

/-- As long as the plans above were copied, the new numbers tell them apart. -/
theorem Grows.faithful (h : p.Grows p' k n) (hst : p.Reachable st) (hst' : p'.Reachable st')
    {m : NodeId} (hm : p.graph.Reaches m n)
    (hcopies : ∀ a < m, p.graph.Reaches a n → Copies p' st st' a) :
    Faithful p'.graph (st.search.follow st'.search) (fun fork x => st.search.first fork ≤ x)
      (p.Above st n m) := by
  have hg := h.prepared.wellFormed
  have hcat := hst.catalogue hg
  have hcons := hst.consistent hg
  have hcons' := hst'.consistent h.prepared'.wellFormed
  have hfirst : ∀ q ∈ st.search.made, st.search.first q.node ≤ q.id := fun _ hq =>
    hst.first_le h.prepared h.budget_eq h.deadline_eq hq
  refine ⟨fun fork => st.search.injOn_follow st'.search fork,
    fun q hq => hst.among h.prepared h.budget_eq h.deadline_eq hq.1, ?_, ?_⟩
  · rintro q ⟨hq, hreach, hlt⟩
    -- Above the node nothing becomes a fork, and a plan of a fork did choose itself.
    have hne := Nat.ne_of_lt (Nat.lt_of_lt_of_le hlt (hg.le_of_reaches hm))
    rw [Plan.choices_renumber, h.graph.isFork_of_reaches hreach hne]
    split
    · rename_i hfork
      obtain ⟨merged, hchoices, -⟩ := hcat.choices q hq
      have hself : q.choices.find? q.node = some q.id := by
        rw [hchoices, find?_choicesAt, if_pos ⟨hfork, rfl⟩]
      rw [Table.insert_mapValues, Table.insert_of_find? hself]
    · rfl
  · refine ⟨?_, ?_, ?_⟩
    · rintro x y ⟨⟨hx, hreach, hlt⟩, rfl⟩
      rw [Plan.inputs_renumber, List.forall₂_map_right_iff, List.forall₂_same]
      intro c hc
      have hread := Plan.uses_of_mem hc
      exact ⟨⟨hcat.sources x hx c hc, (hcat.reaches_of_uses hx hread).trans hreach,
        Nat.lt_trans (hcat.lt_of_uses_source hg hx hc (Plan.Uses.refl _)) hlt⟩, rfl⟩
    · rintro x y x' y' ⟨hx, rfl⟩ ⟨hx', rfl⟩
      have hmade : ∀ z, p.Above st n m z →
          z.renumber p'.graph (st.search.follow st'.search) ∈ st'.search.made :=
        fun z hz => (hcopies z.node hz.2.2 hz.2.1).mem_made hz.1
      constructor
      · intro hid
        rw [hcons.id_inj hx.1 hx'.1 hid]
      · intro hid
        have heq := hcons'.id_inj (hmade x hx) (hmade x' hx') hid
        have hnode := congrArg Plan.node heq
        rw [Plan.node_renumber, Plan.node_renumber] at hnode
        rw [Plan.id_renumber, Plan.id_renumber, hnode] at hid
        have hx₁ := hfirst x hx.1
        rw [hnode] at hx₁
        exact st.search.injOn_follow st'.search x'.node hx₁ (hfirst x' hx'.1) hid
    · rintro x y ⟨⟨hx, -, -⟩, rfl⟩ c hc
      exact hcat.lt_of_uses_source hg hx hc (Plan.Uses.refl _)

theorem Grows.replays (h : p.Grows p' k n) (hst : p.Reachable st) (hst' : p'.Reachable st')
    {m : NodeId} (hm : p.graph.Reaches m n)
    (hcopies : ∀ a < m, p.graph.Reaches a n → Copies p' st st' a) :
    p.Replays p' m (st.search.follow st'.search) (fun fork x => st.search.first fork ≤ x)
      (p.Above st n m) := by
  have hsize := Nat.lt_of_lt_of_le (h.graph.reaches_lt hm) h.graph.le_size
  refine ⟨h.treatsAlike hm, h.faithful hst hst' hm hcopies, h.graph.numbered.node_id m hsize,
    h.graph.numbered.accepted m hsize, ?_⟩
  rintro q ⟨-, hreach, -⟩
  unfold Analysis.estimates
  rw [h.prepared.analysis_eq, h.prepared'.analysis_eq]
  exact h.graph.estimates_eq (h.graph.reaches_lt hreach)

/-- As long as the plans above were copied, a node is offered the same channels. -/
theorem Grows.channelsAt_eq (h : p.Grows p' k n) (hst : p.Reachable st) (hst' : p'.Reachable st')
    {m : NodeId} (hm : p.graph.Reaches m n)
    (hcopies : ∀ a < m, p.graph.Reaches a n → Copies p' st st' a) :
    (∀ cs ∈ p.channelsAt st m, ∀ ch ∈ cs, p.Above st n m ch.source) ∧
      p'.channelsAt st' m = (p.channelsAt st m).map
        (·.map (·.upon (Plan.renumber p'.graph (st.search.follow st'.search)))) := by
  have hg := h.prepared.wellFormed
  have hcons := hst.consistent hg
  have halike := h.treatsAlike hm
  have hfaithful := h.faithful hst hst' hm hcopies
  have habove : ∀ c ∈ (p.graph.node m).inputs, ∀ q ∈ st.kept c.source, p.Above st n m q := by
    intro c hc q hq
    obtain ⟨hmade, hnode⟩ := hcons.kept_made c.source q hq
    refine ⟨hmade, ?_, ?_⟩
    · rw [hnode]
      exact (Graph.reaches_of_mem hc).trans hm
    · rw [hnode]
      exact hg.source_lt m c hc
  constructor
  · intro cs hcs ch hch
    obtain ⟨c, hc, rfl⟩ := List.mem_map.1 hcs
    obtain ⟨q, hq, hoffer⟩ := (mem_channels_iff (hcons.kept_id_inj c.source)).1 hch
    rw [source_eq_of_mem_offers hoffer]
    exact habove c hc q hq
  · unfold channelsAt
    rw [halike.node_eq, List.map_map]
    refine List.map_congr_left fun c hc => ?_
    have hreach := (Graph.reaches_of_mem hc).trans hm
    rw [(hcopies c.source (hg.source_lt m c hc) hreach).kept_eq]
    refine (map_channels (halike.offers c hc) (fun q _ => q.sameOutput_renumber) ?_).symm
    intro q hq r hr
    exact (hfaithful.renumbers.ids q _ r _ ⟨habove c hc q hq, rfl⟩ ⟨habove c hc r hr, rfl⟩).symm

/-- At the end of both searches the plans of a node and of what reaches it were copied: going down
from the sources, every node finds the same from the same. -/
theorem Grows.copies (h : p.Grows p' k n) (hst : p.Reachable st) (hst' : p'.Reachable st')
    (hdone : n ∈ st.done) (hdone' : ∀ m, p.graph.Reaches m n → m ∈ st'.done) {m : NodeId}
    (hm : p.graph.Reaches m n) : Copies p' st st' m := by
  induction m using Nat.strongRecOn with
  | _ m ih =>
    have hg := h.prepared.wellFormed
    have hcopies : ∀ a < m, p.graph.Reaches a n → Copies p' st st' a := fun a ha => ih a ha
    have halike := h.treatsAlike hm
    obtain ⟨s, hs⟩ := hst.exists_settled hg h.budget_eq h.deadline_eq
      (hst.done_of_reaches hdone hm)
    obtain ⟨s', hs'⟩ := hst'.exists_settled h.prepared'.wellFormed halike.budget_eq'
      halike.deadline_eq' (hdone' m hm)
    obtain ⟨hinputs, hchannels⟩ := h.channelsAt_eq hst hst' hm hcopies
    have hreplays := h.replays hst hst' hm hcopies
    have hfound := found_renumber hreplays hinputs (List.length_map _) hs.running hs'.running (by
      intro i
      rw [hs.size_eq, hs'.size_eq]
      exact st.search.follow_add st'.search m i)
    rw [← hchannels] at hfound
    refine ⟨?_, ?_⟩
    · rw [hs.madeAt_eq, hs'.madeAt_eq, hfound]
    · rw [hs.kept_eq, hs'.kept_eq]
      refine survivors_renumber halike hreplays.node_id hreplays.injOn ?_ hfound
      intro q hq
      rw [← Array.mem_toList_iff, ← hs.madeAt_eq, Search.mem_madeAt] at hq
      exact ⟨hq.2, hst.among h.prepared h.budget_eq h.deadline_eq hq.1⟩

end Problem

/-! ## §4 Runs -/

variable [Quantity α]

namespace Optimizer

variable {o : Optimizer α} {job : Job} {p : Problem α} {clock : Nat → Nat}

/-- A run of a job on a clock ends well, and the stage is where its search ended, with all nodes
settled in the order in which the search met them. -/
structure Concludes (o : Optimizer α) (job : Job) (clock : Nat → Nat) (p : Problem α)
    (st : Stage α) : Prop where
  prepare_eq : o.prepare job = .ok p
  run_eq : ∃ out, o.run job clock = .ok out ∧ out.search = st.search
  visits : { p with clock }.Visits {} [p.graph.root] p.graph.schedule st

theorem Concludes.reachable {st : Stage α} (h : o.Concludes job clock p st) :
    { p with clock }.Reachable st := h.visits.steps

theorem Concludes.mem_done {st : Stage α} (h : o.Concludes job clock p st) {n : NodeId}
    (hn : n < p.graph.size) : n ∈ st.done :=
  h.reachable.done_of_reaches (h.visits.reached _ (List.mem_singleton.2 rfl))
    ((prepared h.prepare_eq).wellFormed.to_root n hn)

/-- Without limits a run of a job that was prepared ends well. -/
theorem exists_concludes (h : o.prepare job = .ok p) (hbudget : o.config.budget = none)
    (hdeadline : o.config.deadlineMs = none) (clock : Nat → Nat) :
    ∃ st, o.Concludes job clock p st := by
  obtain ⟨out, hrun⟩ := exists_run h hbudget hdeadline clock
  obtain ⟨plans, s, first, rest, hcand, -, rfl⟩ := o.run_ok h hrun
  have hp := (prepared h).withClock clock
  obtain ⟨st, hvisits, hs, -⟩ := (Problem.candidates_root hp.wellFormed).ok plans s hcand
  exact ⟨st, h, ⟨_, hrun, hs.symm⟩, hvisits⟩

/-- Where one more sink reads an operator, one more connection leaves the operator's node. -/
theorem exists_grows (h : o.prepare job = .ok p) (hbudget : o.config.budget = none)
    (hdeadline : o.config.deadlineMs = none) {op producer : Operator}
    (hfresh : ∀ op' ∈ job.operators, op'.id ≠ op.id) (hproducer : producer ∈ job.operators)
    (hkind : producer.kind.isSink = false) (htaps : op.Taps producer.id)
    (clock clock' : Nat → Nat) :
    ∃ p' k n, o.prepare (job.append op) = .ok p' ∧ (p.graph.node n).op = some producer.id ∧
      { p with clock }.Grows { p' with clock := clock' } k n := by
  have hp := (prepared h).withClock clock
  obtain ⟨g, hbuild, rfl⟩ := prepare_ok h
  obtain ⟨g', k, n, hbuild', hn, hgrows⟩ :=
    Graph.exists_grows_of_build hbuild hfresh hproducer hkind htaps
  have h' := prepare_eq hbuild'
  exact ⟨_, k, n, h', hn, hp, (prepared h').withClock clock', hgrows, rfl, rfl, hbudget, hdeadline⟩

end Optimizer

/-- One more sink does not disturb what it reads. If a sink with an id of its own is declared at the
end of a job and reads one operator of it that is no sink, then without limits the job is planned
as before, as far as that operator is concerned: its node and every node that reaches it is the
same node, for which as many plans are made and kept; and up to their numbers the same plans are
made and kept, in the same order. -/
theorem appended_sink_keeps_plans {o : Optimizer α} {job : Job} {p : Problem α}
    (h : o.prepare job = .ok p) (hbudget : o.config.budget = none)
    (hdeadline : o.config.deadlineMs = none) {op producer : Operator}
    (hfresh : ∀ op' ∈ job.operators, op'.id ≠ op.id) (hproducer : producer ∈ job.operators)
    (hkind : producer.kind.isSink = false) (htaps : op.Taps producer.id)
    (clock clock' : Nat → Nat) :
    ∃ p' st st', o.Concludes job clock p st ∧ o.Concludes (job.append op) clock' p' st' ∧
      ∀ n, (p.graph.node n).op = some producer.id → ∀ m, p.graph.Reaches m n →
        p'.graph.node m = p.graph.node m ∧
          st.search.perNode.find? m = some (st.count m) ∧
            st'.search.perNode.find? m = some (st.count m) ∧
              (st'.search.madeAt m).map Plan.unnumbered =
                (st.search.madeAt m).map Plan.unnumbered ∧
                (st'.kept m).map Plan.unnumbered = (st.kept m).map Plan.unnumbered := by
  obtain ⟨p', k, n, h', hn, hgrows⟩ :=
    Optimizer.exists_grows h hbudget hdeadline hfresh hproducer hkind htaps clock clock'
  obtain ⟨st, hst⟩ := Optimizer.exists_concludes h hbudget hdeadline clock
  obtain ⟨st', hst'⟩ := Optimizer.exists_concludes h' hbudget hdeadline clock'
  have hlt := Nat.lt_of_lt_of_le hgrows.graph.lt hgrows.graph.le_size
  have hlt' := Nat.lt_of_lt_of_le hgrows.graph.lt hgrows.graph.le_size'
  have hreaches : ∀ m, p.graph.Reaches m n → m ∈ st.done ∧ m ∈ st'.done := by
    intro m hm
    have hle := hgrows.graph.numbered.le_of_reaches hm
    exact ⟨hst.mem_done (Nat.lt_of_le_of_lt hle hlt), hst'.mem_done (Nat.lt_of_le_of_lt hle hlt')⟩
  refine ⟨p', st, st', hst, hst', ?_⟩
  intro n' hn' m hm
  obtain ⟨g, hbuild, rfl⟩ := Optimizer.prepare_ok h
  obtain rfl := (Graph.depicts_of_build hbuild).eq_of_op hproducer hn' hn
  obtain ⟨hdone, hdone'⟩ := hreaches m hm
  obtain ⟨hmade, hkept⟩ := hgrows.copies hst.reachable hst'.reachable
    (hreaches n' (.refl _ _)).1 (fun a ha => (hreaches a ha).2) hm
  have hcount : st'.count m = st.count m := by
    unfold Stage.count
    rw [hmade, hkept, List.length_map, List.length_map]
  have hunnumbered : ∀ qs : List (Plan α), (qs.map (Plan.renumber p'.graph
      (st.search.follow st'.search))).map Plan.unnumbered = qs.map Plan.unnumbered := by
    intro qs
    rw [List.map_map]
    exact List.map_congr_left fun q _ => q.unnumbered_renumber
  refine ⟨hgrows.graph.node_eq m (hgrows.graph.reaches_lt hm), ?_, ?_, ?_, ?_⟩
  · rw [(hst.reachable.tallied hgrows.prepared.wellFormed).find?_perNode, if_pos hdone]
  · rw [(hst'.reachable.tallied hgrows.prepared'.wellFormed).find?_perNode, if_pos hdone', hcount]
  · rw [hmade, hunnumbered]
  · rw [hkept, hunnumbered]

/-- A sink that reads what the two branches are grouped into. -/
def crossedLog : Operator := { id := 9, name := "log", kind := .sink, inputs := [[4]] }

/-- With the sink the grouping becomes a fork, beneath another one, and the root is another node;
but in either run nine plans of the grouping are made, and the same two are kept. -/
theorem appended_sink_keeps_plans_crossedBranches : ∃ p p' st st',
    Optimizer.ofUnitWeights.Concludes crossedBranches (fun _ => 0) p st ∧
      Optimizer.ofUnitWeights.Concludes (crossedBranches.append crossedLog) (fun _ => 0) p' st' ∧
      p.graph.isFork 2 = true ∧ p.graph.isFork 3 = false ∧ p'.graph.isFork 3 = true ∧
      p.graph.root ≠ p'.graph.root ∧ st.search.perNode.find? 3 = some ⟨9, 2⟩ ∧
      st'.search.perNode.find? 3 = some ⟨9, 2⟩ ∧
        (st'.kept 3).map Plan.unnumbered = (st.kept 3).map Plan.unnumbered := by
  obtain ⟨p, hprepare, hcheck⟩ := exists_ok_of_any
    (r := Optimizer.ofUnitWeights.prepare crossedBranches)
    (f := fun p => p.graph.isFork 2 && !p.graph.isFork 3 && (p.graph.node 3).op == some 4 &&
      p.graph.root == 8 && (p.candidates p.graph.root {}).2.perNode.find? 3 == some ⟨9, 2⟩)
    (by decide +kernel)
  obtain ⟨p', hprepare', hcheck'⟩ := exists_ok_of_any
    (r := Optimizer.ofUnitWeights.prepare (crossedBranches.append crossedLog))
    (f := fun p => p.graph.isFork 3 && p.graph.root == 10) (by decide +kernel)
  simp only [Bool.and_eq_true, Bool.not_eq_true', beq_iff_eq] at hcheck hcheck'
  obtain ⟨⟨⟨⟨hfork, hplain⟩, hop⟩, hroot⟩, hcount⟩ := hcheck
  obtain ⟨hfork', hroot'⟩ := hcheck'
  have hproducer : crossedBranches.operators[3] ∈ crossedBranches.operators :=
    List.getElem_mem (by decide)
  have hfresh : ∀ op' ∈ crossedBranches.operators, op'.id ≠ crossedLog.id := by decide
  obtain ⟨p₁, st, st', hst, hst', hkeeps⟩ := appended_sink_keeps_plans hprepare rfl rfl hfresh
    hproducer rfl ⟨rfl, rfl, rfl, by decide⟩ (fun _ => 0) fun _ => 0
  obtain rfl := Except.ok.inj (hst'.prepare_eq.symm.trans hprepare')
  obtain ⟨-, hfind, hfind', -, hkept⟩ := hkeeps 3 hop 3 (.refl _ _)
  obtain ⟨out, hrun, hsearch⟩ := hst.run_eq
  obtain ⟨-, hout, -⟩ := Optimizer.ranks_of_run_still hprepare hrun
  rw [← hsearch, hout, hcount] at hfind
  refine ⟨p, p₁, st, st', hst, hst', hfork, hplain, hfork', ?_, ?_, ?_, hkept⟩
  · rw [hroot, hroot']
    decide
  · rw [← hsearch, hout, hcount]
  · rw [hfind', ← hfind]

end FlowPlanner
