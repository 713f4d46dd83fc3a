/-
FlowPlanner.Proofs.Search.Feasibility — a search that no limit cuts short succeeds.

At every stage there is one choice of a candidate for each fork such that every
settled node keeps a candidate that made these choices (`Family`). The next node
finds one too: such candidates of its producers agree, its operator accepts some
channels over them, and pruning only ever compares candidates with the same
choices above. So no node is ever left without a candidate.
-/
import FlowPlanner.Proofs.Search.Agreement

namespace FlowPlanner

variable {α : Type}

namespace Choices

/-- Every choice is the one that is made for the fork. -/
def Within (c : Choices) (made : NodeId → Option PlanId) : Prop :=
  ∀ fork x, c.find? fork = some x → made fork = some x

theorem Within.agree {a b : Choices} {made : NodeId → Option PlanId} (ha : a.Within made)
    (hb : b.Within made) : Agree a b := by
  intro fork x y hx hy
  have h1 := ha fork x hx
  rw [hb fork y hy] at h1
  exact (Option.some.inj h1).symm

end Choices

namespace Problem

variable [Quantity α] {p : Problem α}

/-! ## §1 Agreeing producers -/

/-- One kept plan for each input of a node. -/
def Selects (p : Problem α) (kept : NodeId → List (Plan α)) (n : NodeId)
    (producers : List (Plan α)) : Prop :=
  List.Forall₂ (fun q c => q ∈ kept c.source) producers (p.graph.node n).inputs

/-- No two of the plans decided a fork in two ways. -/
def Compatible (producers : List (Plan α)) : Prop :=
  producers.Pairwise fun q r => Choices.Agree q.choices r.choices

/-- Producers that agree can be combined: some channels over them fit together and are accepted. -/
theorem exists_derives (hp : p.Prepared) {st : Stage α} (hst : p.Reachable st) {n : NodeId}
    (hn : n < p.graph.size) {producers : List (Plan α)}
    (hselects : p.Selects st.kept n producers) (hcompatible : Compatible producers) :
    ∃ t choices alt, p.Derives (p.graph.node n) (p.channelsAt st n) t choices alt ∧
      t.map (·.source) = producers := by
  have hcons := hst.consistent hp.wellFormed
  obtain ⟨t, ht, hsource, halts⟩ :=
    exists_picks hp.wellFormed hp.analysis_eq hn hcons.kept_id_inj hselects
  have hpairwise : t.Pairwise fun c d => Choices.Agree c.choices d.choices := by
    rw [← hsource] at hcompatible
    unfold Compatible at hcompatible
    rw [List.pairwise_map] at hcompatible
    exact hcompatible
  obtain ⟨choices, hmerged⟩ :=
    Option.isSome_iff_exists.1 (Channel.isSome_mergeChoices?_iff.2 hpairwise)
  obtain ⟨alt, halt⟩ := List.exists_mem_of_ne_nil _ halts
  exact ⟨t, choices, alt, ⟨ht, hmerged, halt⟩, hsource⟩

/-- The producers of a combination agree. -/
theorem selects_of_derives (hp : p.Prepared) {st : Stage α} (hst : p.Reachable st) {n : NodeId}
    {t : List (Channel (Plan α))} {choices : Choices} {alt : Alternative α}
    (h : p.Derives (p.graph.node n) (p.channelsAt st n) t choices alt) :
    p.Selects st.kept n (t.map (·.source)) ∧ Compatible (t.map (·.source)) := by
  have hcons := hst.consistent hp.wellFormed
  constructor
  · unfold Selects
    rw [List.forall₂_map_left_iff]
    exact (forall₂_of_picks hcons.kept_id_inj h.picks).imp fun _ _ hc => hc.2
  · unfold Compatible
    rw [List.pairwise_map]
    exact Channel.isSome_mergeChoices?_iff.1 (Option.isSome_iff_exists.2 ⟨choices, h.merged⟩)

/-! ## §2 Families -/

/-- One candidate is chosen for each fork settled so far, and every settled node keeps a candidate
that made these choices. -/
structure Family (p : Problem α) (st : Stage α) (made : NodeId → Option PlanId) : Prop where
  settled : ∀ fork x, made fork = some x → fork ∈ st.done
  kept : ∀ n ∈ st.done, ∃ q ∈ st.kept n, q.choices.Within made

omit [Quantity α] in
/-- In a family some producers of a due node agree. -/
theorem Family.exists_selects {st : Stage α} {made : NodeId → Option PlanId}
    (h : p.Family st made) {n : NodeId} (hdue : p.Due st n) : ∃ producers,
      p.Selects st.kept n producers ∧ ∀ q ∈ producers, q.choices.Within made := by
  have hbuild : ∀ cs : List Connection, (∀ c ∈ cs, c.source ∈ st.done) → ∃ producers,
      List.Forall₂ (fun q c => q ∈ st.kept c.source) producers cs ∧
        ∀ q ∈ producers, q.choices.Within made := by
    intro cs hcs
    induction cs with
    | nil => exact ⟨[], .nil, by simp⟩
    | cons c cs ih =>
      obtain ⟨producers, hforall, hwithin⟩ := ih fun d hd => hcs d (List.mem_cons_of_mem c hd)
      obtain ⟨q, hq, hqw⟩ := h.kept c.source (hcs c List.mem_cons_self)
      refine ⟨q :: producers, .cons hq hforall, ?_⟩
      intro r hr
      rcases List.mem_cons.1 hr with rfl | hr
      · exact hqw
      · exact hwithin r hr
  exact hbuild _ hdue.sources

omit [Quantity α] in
theorem compatible_of_within {producers : List (Plan α)} {made : NodeId → Option PlanId}
    (h : ∀ q ∈ producers, q.choices.Within made) : Compatible producers :=
  List.pairwise_of_forall_mem_list fun q hq r hr => (h q hq).agree (h r hr)

omit [Quantity α] in
/-- A new candidate made the choices of its producers. -/
theorem within_of_derives {t : List (Channel (Plan α))} {choices : Choices}
    {made : NodeId → Option PlanId}
    (hmerged : Channel.mergeChoices? Table.empty t = some choices)
    (h : ∀ q ∈ t.map (·.source), q.choices.Within made) : choices.Within made := by
  intro fork x hx
  rcases (Channel.find?_mergeChoices? hmerged).1 hx with hx | ⟨c, hc, hx⟩
  · simp at hx
  · exact h c.source (List.mem_map_of_mem hc) fork x hx

/-- A family continues with a plan that is kept for the next node and made the choices of the
family at all other forks. -/
theorem Family.extend (hg : p.graph.WellFormed) {st : Stage α} {made : NodeId → Option PlanId}
    (h : p.Family st made) {n : NodeId} (hdue : p.Due st n) {kept : List (Plan α)} {s : Search α}
    (hst : p.Reachable (st.settle n kept s)) {k : Plan α} (hk : k ∈ kept)
    (hother : ∀ fork x, fork ≠ n → k.choices.find? fork = some x → made fork = some x) :
    p.Family (st.settle n kept s)
      (Function.update made n (if p.graph.isFork n then some k.id else none)) := by
  have hkn : k ∈ (st.settle n kept s).kept n := by
    rw [Stage.kept_settle_self]
    exact hk
  obtain ⟨hkmade, rfl⟩ := (hst.consistent hg).kept_made n k hkn
  refine ⟨?_, ?_⟩
  · intro m x hm
    by_cases hmn : m = k.node
    · rw [hmn]
      exact List.mem_cons_self
    · rw [Function.update_of_ne hmn] at hm
      exact List.mem_cons_of_mem _ (h.settled m x hm)
  · intro m hm
    rcases List.mem_cons.1 hm with rfl | hold
    · refine ⟨k, hkn, ?_⟩
      intro fork x hx
      by_cases hfork : fork = k.node
      · subst hfork
        obtain ⟨rfl, hisFork⟩ := (hst.catalogue hg).eq_id_of_find?_choices hg hkmade hx
        rw [Function.update_self, if_pos hisFork]
      · rw [Function.update_of_ne hfork]
        exact hother fork x hfork hx
    · obtain ⟨q, hq, hwithin⟩ := h.kept m hold
      rw [Stage.kept_settle_of_ne (hdue.ne_of_done hold)]
      refine ⟨q, hq, ?_⟩
      intro fork x hx
      have hmade := hwithin fork x hx
      rw [Function.update_of_ne (hdue.ne_of_done (h.settled fork x hmade))]
      exact hmade

/-- Settling a node without reaching a limit continues the family. -/
theorem Family.settle (hp : p.Prepared) {st : Stage α} (hst : p.Reachable st)
    {made : NodeId → Option PlanId} (h : p.Family st made) {n : NodeId} (hdue : p.Due st n)
    {kept : List (Plan α)} {s : Search α}
    (hs : p.settle (p.graph.node n) (p.channelsAt st n) st.search = (.ok kept, s))
    (hex : s.exhausted = false) : ∃ made', p.Family (st.settle n kept s) made' := by
  have hsettles := settle_ok hs
  have hid := hp.wellFormed.node_id n hdue.lt_size
  obtain ⟨producers, hselects, hwithin⟩ := h.exists_selects hdue
  obtain ⟨t, choices, alt, hder, rfl⟩ :=
    exists_derives hp hst hdue.lt_size hselects (compatible_of_within hwithin)
  -- No limit was reached, so this combination is among the candidates.
  have hfound : (p.found (p.graph.node n) (p.channelsAt st n) st.search).search.exhausted =
      false := by
    rw [← hsettles.exhausted_eq]
    exact hex
  obtain ⟨id, hq⟩ := exists_of_combine hfound hder.picks hder.merged hder.alt_mem
  obtain ⟨k, hk, habove⟩ := hsettles.exists_kept hq
  rw [hid] at habove
  refine ⟨_, h.extend hp.wellFormed hdue (hst.tail (.settle hdue hs)) hk ?_⟩
  intro fork x hne hx
  have hchoices : (p.choicesAt (p.graph.node n).id id choices).find? fork = some x :=
    (find?_choices_congr habove hne).1 hx
  rw [hid] at hchoices
  exact within_of_derives hder.merged hwithin fork x (find?_of_find?_choicesAt hne hchoices)

/-! ## §3 No node is left without a candidate -/

/-- Limits that were reached stay reached. -/
theorem Settles.exhausted_of_exhausted {node : Node} {inputs : List (List (Channel (Plan α)))}
    {s s' : Search α} {kept : List (Plan α)} (h : p.Settles node inputs s kept s')
    (hs : s.exhausted = true) : s'.exhausted = true := by
  rw [h.exhausted_eq]
  exact (p.combine_grows node inputs [] Table.empty { search := s }).exhausted hs

theorem Steps.exhausted_of_exhausted {st st' : Stage α} (h : p.Steps st st')
    (hst : st.search.exhausted = true) : st'.search.exhausted = true := by
  induction h with
  | refl => exact hst
  | tail _ hlast ih =>
    cases hlast with
    | settle _ hs => exact (settle_ok hs).exhausted_of_exhausted ih

/-- If no limit was reached in the end, none was reached before. -/
theorem Steps.exhausted_eq_false {st st' : Stage α} (h : p.Steps st st')
    (hst' : st'.search.exhausted = false) : st.search.exhausted = false := by
  by_contra hst
  rw [h.exhausted_of_exhausted (by simpa using hst)] at hst'
  simp at hst'

theorem Reachable.exists_family (hp : p.Prepared) {st : Stage α} (hst : p.Reachable st)
    (hex : st.search.exhausted = false) : ∃ made, p.Family st made := by
  refine Reachable.induct (P := fun st => st.search.exhausted = false → ∃ made, p.Family st made)
    ?_ ?_ hst hex
  · intro _
    exact ⟨fun _ => none, by simp, by simp⟩
  · intro st n kept s hst ih hdue hs hex
    have hstep : p.Steps st (st.settle n kept s) := .single (.settle hdue hs)
    obtain ⟨made, hfamily⟩ := ih (hstep.exhausted_eq_false hex)
    exact hfamily.settle hp hst hdue hs hex

/-- A due node has a candidate if and only if some producers of it agree. -/
theorem found_isEmpty_iff (hp : p.Prepared) {st : Stage α} (hst : p.Reachable st) {n : NodeId}
    (hn : n < p.graph.size) :
    (p.found (p.graph.node n) (p.channelsAt st n) st.search).plans.isEmpty = true ↔
      ∀ producers, p.Selects st.kept n producers → ¬ Compatible producers := by
  unfold found
  rw [combine_isEmpty_iff]
  constructor
  · intro hnone producers hselects hcompatible
    obtain ⟨t, choices, alt, hder, -⟩ := exists_derives hp hst hn hselects hcompatible
    have halt := hder.alt_mem
    rw [hnone t choices hder.picks hder.merged] at halt
    simp at halt
  · intro hnone t choices ht hmerged
    by_contra halts
    obtain ⟨alt, halt⟩ := List.exists_mem_of_ne_nil _ halts
    obtain ⟨hselects, hcompatible⟩ := selects_of_derives hp hst ⟨ht, hmerged, halt⟩
    exact hnone _ hselects hcompatible

/-- The producers of a node that failed all disagree. -/
theorem Fails.not_compatible (hp : p.Prepared) {st : Stage α} {n : NodeId} {e : Failure}
    {s : Search α} (h : p.Fails st n e s) {producers : List (Plan α)}
    (hselects : p.Selects st.kept n producers) : ¬ Compatible producers := by
  obtain ⟨hempty, -, -⟩ := settle_error h.fails
  exact (found_isEmpty_iff hp h.reachable h.due.lt_size).1 hempty producers hselects

/-- Where there is a family, no node fails. -/
theorem Fails.not_family (hp : p.Prepared) {st : Stage α} {n : NodeId} {e : Failure}
    {s : Search α} (h : p.Fails st n e s) (made : NodeId → Option PlanId) :
    ¬ p.Family st made := by
  intro hfamily
  obtain ⟨producers, hselects, hwithin⟩ := hfamily.exists_selects h.due
  exact h.not_compatible hp hselects (compatible_of_within hwithin)

/-- As long as no limit was reached, no node fails. -/
theorem Fails.exhausted (hp : p.Prepared) {st : Stage α} {n : NodeId} {e : Failure}
    {s : Search α} (h : p.Fails st n e s) : st.search.exhausted = true := by
  by_contra hex
  obtain ⟨made, hfamily⟩ := h.reachable.exists_family hp (by simpa using hex)
  exact h.not_family hp made hfamily

/-- Where no limits are set, none is found reached. -/
theorem found_exhausted_eq_false (hbudget : p.config.budget = none)
    (hdeadline : p.config.deadlineMs = none) {node : Node}
    {inputs : List (List (Channel (Plan α)))} {s : Search α} (hs : s.exhausted = false) :
    (p.found node inputs s).search.exhausted = false := by
  refine combine_induct (P := fun f => f.search.exhausted = false) ?_ ?_ ?_ hs
  · intro f hf
    exact hf
  · intro f hf
    show p.isExhausted f.search = false
    unfold isExhausted
    rw [hf, hbudget, hdeadline]
    rfl
  · intro f t m alt _ _ _ hf
    exact hf

theorem Reachable.exhausted_eq_false (hbudget : p.config.budget = none)
    (hdeadline : p.config.deadlineMs = none) {st : Stage α} (hst : p.Reachable st) :
    st.search.exhausted = false := by
  refine Reachable.induct (P := fun st => st.search.exhausted = false) rfl ?_ hst
  intro st n kept s _ ih _ hs
  show s.exhausted = false
  rw [(settle_ok hs).exhausted_eq]
  exact found_exhausted_eq_false hbudget hdeadline ih

/-- A search that reaches no limit finds candidates for the root. -/
theorem exists_candidates (hp : p.Prepared)
    (hex : (p.candidates p.graph.root {}).2.exhausted = false) :
    ∃ plans s, p.candidates p.graph.root {} = (.ok plans, s) := by
  rcases p.candidates_ok_or_fails hp.wellFormed with h | ⟨st, n, e, s, hcand, hfails, -⟩
  · exact h
  · obtain ⟨-, -, rfl⟩ := settle_error hfails.fails
    have hafter : (p.found (p.graph.node n) (p.channelsAt st n) st.search).search.exhausted =
        true :=
      (p.combine_grows (p.graph.node n) (p.channelsAt st n) []
        Table.empty { search := st.search }).exhausted (hfails.exhausted hp)
    rw [hcand] at hex
    dsimp only at hex
    rw [hafter] at hex
    simp at hex

/-- A search without limits finds candidates for the root. -/
theorem exists_candidates_of_unlimited (hp : p.Prepared) (hbudget : p.config.budget = none)
    (hdeadline : p.config.deadlineMs = none) :
    ∃ plans s, p.candidates p.graph.root {} = (.ok plans, s) := by
  rcases p.candidates_ok_or_fails hp.wellFormed with h | ⟨st, n, e, s, -, hfails, -⟩
  · exact h
  · have hex := hfails.exhausted hp
    rw [hfails.reachable.exhausted_eq_false hbudget hdeadline] at hex
    simp at hex

/-- A search without limits keeps a plan of every node. -/
theorem exists_kept_of_unlimited (hp : p.Prepared) (hbudget : p.config.budget = none)
    (hdeadline : p.config.deadlineMs = none) :
    ∃ st, p.Reachable st ∧ (p.candidates p.graph.root {}).2 = st.search ∧
      ∀ n < p.graph.size, ∃ q ∈ st.kept n, q ∈ st.search.made ∧ q.node = n := by
  obtain ⟨plans, s, hcand⟩ := exists_candidates_of_unlimited hp hbudget hdeadline
  obtain ⟨st, hst, hroot, -, rfl⟩ := exists_stage_of_ok hp.wellFormed hcand
  refine ⟨st, hst, by rw [hcand], ?_⟩
  intro n hn
  have hcons := hst.consistent hp.wellFormed
  have hdone := hst.done_of_reaches hroot (hp.wellFormed.to_root n hn)
  obtain ⟨q, hq⟩ := List.exists_mem_of_ne_nil _ (hcons.kept_ne_nil n hdone)
  exact ⟨q, hq, hcons.kept_made n q hq⟩

/-- A search without limits makes a plan for every node. -/
theorem exists_made_of_unlimited (hp : p.Prepared) (hbudget : p.config.budget = none)
    (hdeadline : p.config.deadlineMs = none) {n : NodeId} (hn : n < p.graph.size) :
    ∃ q ∈ (p.candidates p.graph.root {}).2.made, q.node = n := by
  obtain ⟨st, -, hsearch, hkept⟩ := exists_kept_of_unlimited hp hbudget hdeadline
  obtain ⟨q, -, hq⟩ := hkept n hn
  rw [hsearch]
  exact ⟨q, hq⟩

end Problem

/-- Without limits a run succeeds as soon as the job is laid out. -/
theorem Optimizer.exists_run [Quantity α] {o : Optimizer α} {job : Job} {p : Problem α}
    (h : o.prepare job = .ok p) (hbudget : o.config.budget = none)
    (hdeadline : o.config.deadlineMs = none) (clock : Nat → Nat) :
    ∃ out, o.run job clock = .ok out := by
  have hconfig := o.config_eq h
  rw [o.run_ok_iff h]
  exact Problem.exists_candidates_of_unlimited ((o.prepared h).withClock clock)
    (by rw [hconfig, hbudget]) (by rw [hconfig, hdeadline])

/-- Without limits a run finds a plan for every job that can be laid out, and its search keeps a
plan of every node. -/
theorem run_ok_iff_build_ok [Quantity α] (o : Optimizer α) (job : Job)
    (hbudget : o.config.budget = none) (hdeadline : o.config.deadlineMs = none)
    (clock : Nat → Nat) :
    ((∃ out, o.run job clock = .ok out) ↔ ∃ g, Graph.build o.config job = .ok g) ∧
      ∀ out, o.run job clock = .ok out → ∃ st, out.problem.Reachable st ∧ out.search = st.search ∧
        ∀ n < out.problem.graph.size, ∃ q ∈ st.kept n, q ∈ out.search.made ∧ q.node = n := by
  refine ⟨⟨?_, ?_⟩, ?_⟩
  · rintro ⟨out, hrun⟩
    cases hbuild : Graph.build o.config job with
    | ok g => exact ⟨g, rfl⟩
    | error e =>
      rw [o.run_eq_error (o.prepare_eq_error hbuild)] at hrun
      simp at hrun
  · rintro ⟨g, hbuild⟩
    exact Optimizer.exists_run (o.prepare_eq hbuild) hbudget hdeadline clock
  · intro out hrun
    obtain ⟨p, hprepare, -⟩ := exists_ok_of_bind hrun
    have hconfig := o.config_eq hprepare
    obtain ⟨st, hst, hsearch, hkept⟩ := Problem.exists_kept_of_unlimited
      ((o.prepared hprepare).withClock clock) (by rw [hconfig, hbudget])
      (by rw [hconfig, hdeadline])
    obtain ⟨plans, s, first, rest, hcand, -, rfl⟩ := o.run_ok hprepare hrun
    rw [hcand] at hsearch
    obtain rfl := hsearch
    exact ⟨st, hst, rfl, hkept⟩

/-- The two maps of the job read one source, and the cross reads both; each of its five nodes keeps
a plan. -/
theorem run_ok_diamond : Optimizer.ofDefaults.config.budget = none ∧
    Optimizer.ofDefaults.config.deadlineMs = none ∧
      ∃ out, Optimizer.ofDefaults.run diamond = .ok out ∧ out.problem.graph.size = 5 ∧
        ∀ n < 5, ∃ q ∈ out.search.made, q.node = n := by
  obtain ⟨p, hprepare, hsize⟩ := exists_ok_of_any (r := Optimizer.ofDefaults.prepare diamond)
    (f := fun p => p.graph.size == 5) (by decide +kernel)
  obtain ⟨hiff, hkeeps⟩ := run_ok_iff_build_ok Optimizer.ofDefaults diamond rfl rfl fun _ => 0
  obtain ⟨g, hbuild, -⟩ := Optimizer.prepare_ok hprepare
  obtain ⟨out, hrun⟩ := hiff.2 ⟨g, hbuild⟩
  obtain ⟨st, -, -, hkept⟩ := hkeeps out hrun
  have hproblem : out.problem.graph.size = 5 := by
    rw [(Optimizer.ranks_of_run_still hprepare hrun).1]
    exact beq_iff_eq.1 hsize
  refine ⟨rfl, rfl, out, hrun, hproblem, ?_⟩
  intro n hn
  obtain ⟨q, -, hq⟩ := hkept n (hproblem.symm ▸ hn)
  exact ⟨q, hq⟩

end FlowPlanner
