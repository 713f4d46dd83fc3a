/-
FlowPlanner.Proofs.Search.Renumber — the same plans under other numbers.

Two problems that treat a node alike make the same plans of it from the same plans of its
producers, whatever numbers these have, as long as numbers tell plans apart in one search
as in the other (`Problem.Replays`): the same combinations agree on the forks above, the
same alternatives come out, and the same candidates are useless (`found_renumber`,
`survivors_renumber`). The node may be a fork in the second problem only: then its plans
choose themselves there (`Plan.renumber`), which pruning at the node disregards.
-/
import FlowPlanner.Proofs.Search.Feasibility
import FlowPlanner.Proofs.Search.Transfer
import FlowPlanner.Proofs.Search.Walk
import FlowPlanner.Proofs.Table

namespace FlowPlanner

variable {α : Type}

/-! ## §1 Choices under new numbers -/

/-- New numbers for the plans of every node. -/
abbrev Renumbering := NodeId → PlanId → PlanId

namespace Choices

/-- What was chosen for a fork is one of some plans of it. -/
def Among (P : NodeId → PlanId → Prop) (c : Choices) : Prop :=
  ∀ fork x, c.find? fork = some x → P fork x

variable {P : NodeId → PlanId → Prop} {ι : Renumbering}

theorem among_empty (P : NodeId → PlanId → Prop) : Among P Table.empty := by
  intro fork x hx
  simp at hx

theorem Among.merge? {a b m : Choices} (ha : a.Among P) (hb : b.Among P)
    (h : Choices.merge? a b = some m) : m.Among P := by
  intro fork x hx
  exact ((find?_merge? h).1 hx).elim (ha fork x) (hb fork x)

/-- Whether one more choice fits does not depend on how the plans of a fork are numbered. -/
theorem choose?_mapValues (hι : ∀ fork, Set.InjOn (ι fork) {x | P fork x}) {c : Choices}
    (hc : c.Among P) {fork : NodeId} {x : PlanId} (hx : P fork x) :
    choose? (c.mapValues ι) fork (ι fork x) = (choose? c fork x).map (Table.mapValues ι) := by
  unfold choose?
  rw [Table.find?_mapValues]
  cases hfind : c.find? fork with
  | none =>
    rw [Option.map_none, Option.map_some, Table.insert_mapValues]
  | some y =>
    have hbeq : (ι fork y == ι fork x) = (y == x) := by
      rw [Bool.eq_iff_iff, beq_iff_eq, beq_iff_eq]
      exact (hι fork).eq_iff (hc fork y hfind) hx
    rw [Option.map_some]
    dsimp only
    rw [hbeq]
    split <;> rfl

/-- Whether choices agree does not depend on how the plans of a fork are numbered. -/
theorem merge?_mapValues (hι : ∀ fork, Set.InjOn (ι fork) {x | P fork x}) {a b : Choices}
    (ha : a.Among P) (hb : b.Among P) :
    Choices.merge? (a.mapValues ι) (b.mapValues ι) =
      (Choices.merge? a b).map (Table.mapValues ι) := by
  have hentries : ∀ e ∈ b.entries, P e.1 e.2 := fun e he => hb e.1 e.2 (Table.mem_entries_iff.1 he)
  unfold Choices.merge? Table.mapValues
  rw [List.foldlM_map]
  generalize b.entries = es at hentries
  induction es generalizing a with
  | nil => rfl
  | cons e es ih =>
    have he := hentries e List.mem_cons_self
    rw [List.foldlM_cons, List.foldlM_cons]
    dsimp only
    rw [show choose? ⟨a.entries.map fun e => (e.1, ι e.1 e.2), _⟩ e.1 (ι e.1 e.2) =
      (choose? a e.1 e.2).map (Table.mapValues ι) from choose?_mapValues hι ha he]
    cases hchoose : choose? a e.1 e.2 with
    | none => rfl
    | some c =>
      refine ih ?_ fun e' he' => hentries e' (List.mem_cons_of_mem e he')
      intro fork x hx
      rcases (find?_choose? hchoose).1 hx with hx | ⟨rfl, rfl⟩
      · exact ha fork x hx
      · exact he

end Choices

/-! ## §2 Plans under new numbers -/

namespace Plan

/-- The plan with new numbers for itself and for all plans that it needs; a plan of a fork of the
graph is noted to choose itself. -/
def renumber (g : Graph) (ι : Renumbering) : Plan α → Plan α :=
  throughout fun q => { q with
    id := ι q.node q.id
    choices := if g.isFork q.node then (q.choices.mapValues ι).insert q.node (ι q.node q.id)
      else q.choices.mapValues ι }

variable {g : Graph} {ι : Renumbering}

theorem renumber_eq (q : Plan α) : q.renumber g ι = { q with
    id := ι q.node q.id
    inputs := q.inputs.map (·.upon (renumber g ι))
    choices := if g.isFork q.node then (q.choices.mapValues ι).insert q.node (ι q.node q.id)
      else q.choices.mapValues ι } := throughout_eq _ q

theorem id_renumber (q : Plan α) : (q.renumber g ι).id = ι q.node q.id := by rw [renumber_eq]

theorem node_renumber (q : Plan α) : (q.renumber g ι).node = q.node := by rw [renumber_eq]

theorem own_renumber (q : Plan α) : (q.renumber g ι).own = q.own := by rw [renumber_eq]

theorem inputs_renumber (q : Plan α) :
    (q.renumber g ι).inputs = q.inputs.map (·.upon (renumber g ι)) := by
  conv_lhs => rw [renumber_eq]

theorem choices_renumber (q : Plan α) : (q.renumber g ι).choices =
    if g.isFork q.node then (q.choices.mapValues ι).insert q.node (ι q.node q.id)
      else q.choices.mapValues ι := by
  conv_lhs => rw [renumber_eq]

theorem sameOutput_renumber (q : Plan α) : q.SameOutput (q.renumber g ι) := by
  rw [renumber_eq]
  exact ⟨rfl, rfl, rfl⟩

/-- What a plan chose at the forks above its node gets new numbers and nothing else. -/
theorem choicesAbove_renumber (q : Plan α) : (q.renumber g ι).choicesAbove q.node =
    ((q.choices.filterKeys (· != q.node)).mapValues ι).entries := by
  have hself : (fun fork => fork != q.node) q.node = false := by simp
  show ((q.renumber g ι).choices.filterKeys (· != q.node)).entries = _
  rw [choices_renumber, apply_ite (fun c : Choices => c.filterKeys (· != q.node)),
    Table.filterKeys_insert_of_not (p := (· != q.node)) _ _ hself, Table.filterKeys_mapValues,
    ite_self]

/-- Candidates that made the same choices above did so under new numbers. -/
theorem choicesAbove_renumber_iff {P : NodeId → PlanId → Prop}
    (hι : ∀ fork, Set.InjOn (ι fork) {x | P fork x}) {q r : Plan α} (hnode : q.node = r.node)
    (hq : q.choices.Among P) (hr : r.choices.Among P) :
    (q.renumber g ι).choicesAbove q.node = (r.renumber g ι).choicesAbove q.node ↔
      q.choicesAbove q.node = r.choicesAbove q.node := by
  have hentries : ∀ {s t : Choices}, s.entries = t.entries ↔ s = t := by
    intro s t
    cases s
    cases t
    simp
  have hamong : ∀ {c : Choices}, c.Among P → ∀ {fork x},
      (c.filterKeys (· != q.node)).find? fork = some x → P fork x := by
    intro c hc fork x hx
    rw [Table.find?_filterKeys] at hx
    split at hx
    · exact hc fork x hx
    · simp at hx
  rw [choicesAbove_renumber, hnode, choicesAbove_renumber, ← hnode, hentries, Table.mapValues_inj]
  · exact hentries.symm
  · intro fork x y hx hy heq
    exact hι fork (hamong hq hx) (hamong hr hy) heq

/-- The plan with no number, neither of it nor of any plan that it needs, and no choices. -/
def unnumbered : Plan α → Plan α := throughout fun q => { q with id := 0, choices := Table.empty }

theorem unnumbered_eq (q : Plan α) : q.unnumbered = { q with
    id := 0, inputs := q.inputs.map (·.upon unnumbered), choices := Table.empty } :=
  throughout_eq _ q

/-- Under new numbers a plan is the same but for the numbers. -/
theorem unnumbered_renumber (q : Plan α) : (q.renumber g ι).unnumbered = q.unnumbered := by
  induction q using Plan.induct with
  | _ q ih =>
    have hinputs : (q.inputs.map (·.upon (renumber g ι))).map (·.upon unnumbered) =
        q.inputs.map (·.upon unnumbered) := by
      rw [List.map_map]
      refine List.map_congr_left fun c hc => ?_
      show ({ c with source := (c.source.renumber g ι).unnumbered } : Channel (Plan α)) = _
      rw [ih c hc]
      rfl
    rw [unnumbered_eq, unnumbered_eq q, renumber_eq]
    dsimp only
    rw [hinputs]

end Plan

/-- New numbers tell apart what the old ones did: the plans that may be chosen for one fork, and all
plans of a set with what they read. The plans of the set made choices among the former, and are no
forks that have not chosen themselves. -/
structure Faithful (g : Graph) (ι : Renumbering) (P : NodeId → PlanId → Prop)
    (S : Plan α → Prop) : Prop where
  injOn : ∀ fork, Set.InjOn (ι fork) {x | P fork x}
  among : ∀ q, S q → q.choices.Among P
  choices : ∀ q, S q → (q.renumber g ι).choices = q.choices.mapValues ι
  renumbers : Renumbers fun q r => S q ∧ r = q.renumber g ι

namespace Problem

/-- Two problems treat a node alike: without limits, on the same model, it is the same node, asks
and is asked for the same, and the same forks are open there; if it is a fork in the first problem
it is one in the second. -/
structure TreatsAlike (p p' : Problem α) (n : NodeId) : Prop where
  model_eq : p'.model = p.model
  prune_eq : p'.config.prune = p.config.prune
  budget_eq : p.config.budget = none
  budget_eq' : p'.config.budget = none
  deadline_eq : p.config.deadlineMs = none
  deadline_eq' : p'.config.deadlineMs = none
  node_eq : p'.graph.node n = p.graph.node n
  offers : ∀ c ∈ (p.graph.node n).inputs, p.OffersAlike p' c
  requestsOn_eq : p'.analysis.requestsOn n = p.analysis.requestsOn n
  forkState_eq : p'.analysis.forkState n = p.analysis.forkState n
  isFork_mono : p.graph.isFork n = true → p'.graph.isFork n = true

/-- The second problem treats a node as the first one does, and for the plans of a set, which the
node reads, it has plans under new numbers that are as good. -/
structure Replays (p p' : Problem α) (n : NodeId) (ι : Renumbering) (P : NodeId → PlanId → Prop)
    (S : Plan α → Prop) : Prop extends TreatsAlike p p' n, Faithful p'.graph ι P S where
  node_id : (p.graph.node n).id = n
  accepts : (p.graph.node n).kind.Accepts (p.graph.node n).keys
    ((p.graph.node n).inputs.map (·.position))
  estimates : ∀ q, S q → p'.analysis.estimates q.node = p.analysis.estimates q.node

variable {p p' : Problem α} {n : NodeId} {ι : Renumbering} {P : NodeId → PlanId → Prop}
  {S : Plan α → Prop}

/-! ## §3 One plan in two problems -/

/-- The choices of a new plan, under new numbers. -/
theorem choicesAt_renumber (h : p.TreatsAlike p' n) (id : PlanId) (choices : Choices) :
    p'.choicesAt n (ι n id) (choices.mapValues ι) =
      if p'.graph.isFork n then ((p.choicesAt n id choices).mapValues ι).insert n (ι n id)
      else (p.choicesAt n id choices).mapValues ι := by
  unfold choicesAt
  rw [h.forkState_eq, Table.filterKeys_mapValues]
  dsimp only
  generalize choices.filterKeys (p.analysis.forkState n).isOpen = above
  cases hfork' : p'.graph.isFork n with
  | false =>
    have hfork : p.graph.isFork n = false := by
      by_contra hfork
      rw [h.isFork_mono (by simpa using hfork)] at hfork'
      simp at hfork'
    simp [hfork]
  | true =>
    rw [if_pos rfl, if_pos rfl, apply_ite (Table.mapValues ι), ← Table.insert_mapValues]
    split
    · exact (Table.insert_insert _ _ _ _).symm
    · rfl

variable [Quantity α]

theorem ownCost_renumber (h : p.Replays p' n ι P S) {node : Node} {alt : Alternative α}
    (halt : ∀ c ∈ alt.inputs, S c.source) :
    p'.ownCost node (alt.upon (Plan.renumber p'.graph ι)) = p.ownCost node alt := by
  have hover : p'.ownCost node (alt.upon (Plan.renumber p'.graph ι)) = p'.ownCost node alt := by
    refine ownCost_congr rfl ?_
    show (alt.inputs.map _).map _ = _
    rw [List.map_map]
    exact List.map_congr_left fun c _ => Channel.strategy_upon c.source.sameOutput_renumber
  have hsizes := fun c hc => h.estimates c.source (halt c hc)
  rw [hover]
  unfold ownCost
  rw [h.model_eq, List.map_congr_left hsizes]
  dsimp only
  congr 1
  exact List.foldl_ext _ _ _ fun cost c hc => by rw [hsizes c hc]

/-- A plan made of the same plans, under new numbers. -/
theorem plan_renumber (h : p.Replays p' n ι P S) {alt : Alternative α}
    (halt : ∀ c ∈ alt.inputs, S c.source) (choices : Choices) (id : PlanId) :
    p'.plan (p'.graph.node n) (choices.mapValues ι) (ι n id)
        (alt.upon (Plan.renumber p'.graph ι)) =
      (p.plan (p.graph.node n) choices id alt).renumber p'.graph ι := by
  have hcumulative : ∀ own : Cost α,
      Plan.cumulativeCost own (alt.inputs.map (·.upon (Plan.renumber p'.graph ι))) =
        Plan.cumulativeCost own alt.inputs := by
    intro own
    refine (cumulativeCost_congr h.renumbers ?_ ?_ own).symm
    · rintro x y ⟨-, rfl⟩
      exact x.own_renumber.symm
    · rw [List.forall₂_map_right_iff, List.forall₂_same]
      exact fun c hc => ⟨halt c hc, rfl⟩
  rw [Plan.renumber_eq, h.node_eq]
  unfold plan
  rw [ownCost_renumber h halt, Node.output_upon]
  dsimp only
  rw [h.node_id, choicesAt_renumber h.toTreatsAlike, ← hcumulative]
  rfl

/-! ## §4 All plans of a node -/

/-- Without limits every channel that fits is followed up. -/
theorem tryChannel_of_unlimited (hbudget : p.config.budget = none)
    (hdeadline : p.config.deadlineMs = none) {node : Node}
    {rest : List (List (Channel (Plan α)))} {chosen : List (Channel (Plan α))} {choices : Choices}
    {f : Found α} (hf : f.search.exhausted = false) (c : Channel (Plan α)) :
    p.tryChannel node rest chosen choices f c = match Choices.merge? choices c.choices with
      | none => { f with search := { f.search with conflicts := f.search.conflicts + 1 } }
      | some merged => p.combine node rest (chosen ++ [c]) merged f := by
  have hlimits : p.checkLimits f.search = f.search := by
    unfold checkLimits isExhausted
    rw [hf, hbudget, hdeadline]
    simp [← hf]
  unfold tryChannel
  rw [hlimits, ite_self]
  dsimp only
  refine (if_neg (by simp [hf])).trans ?_
  cases Choices.merge? choices c.choices <;> rfl

/-- Of two searches that work on a node, the second one found the plans of the first one under new
numbers, and so it does with the next ones. -/
structure Found.Follows (g : Graph) (ι : Renumbering) (n : NodeId) (f f' : Found α) : Prop where
  plans : f'.plans.toList = f.plans.toList.map (Plan.renumber g ι)
  next : ∀ i, ι n (f.search.made.size + i) = f'.search.made.size + i
  running : f.search.exhausted = false
  running' : f'.search.exhausted = false

/-- One more candidate on either side. -/
theorem Found.Follows.make (h : p.Replays p' n ι P S) {f f' : Found α}
    (hf : Follows p'.graph ι n f f') {alt : Alternative α}
    (halt : ∀ c ∈ alt.inputs, S c.source) (choices : Choices) :
    Follows p'.graph ι n (p.make (p.graph.node n) choices f alt)
      (p'.make (p'.graph.node n) (choices.mapValues ι) f'
        (alt.upon (Plan.renumber p'.graph ι))) := by
  have hplan := plan_renumber h halt choices f.search.made.size
  rw [show ι n f.search.made.size = f'.search.made.size from hf.next 0] at hplan
  refine ⟨?_, fun i => ?_, hf.running, hf.running'⟩
  · show (f'.plans.push _).toList = ((f.plans.push _).toList).map _
    rw [Array.toList_push, Array.toList_push, List.map_append, hf.plans, hplan]
    rfl
  · show ι n ((f.search.made.push _).size + i) = (f'.search.made.push _).size + i
    rw [Array.size_push, Array.size_push, Nat.add_assoc, Nat.add_assoc, hf.next]

/-- Combination by combination the second search does what the first one does. -/
theorem Found.Follows.combine (h : p.Replays p' n ι P S) :
    ∀ {rest : List (List (Channel (Plan α)))} {chosen : List (Channel (Plan α))}
      {choices : Choices} {f f' : Found α}, (∀ cs ∈ rest, ∀ c ∈ cs, S c.source) →
        (∀ c ∈ chosen, S c.source) →
          chosen.length + rest.length = (p.graph.node n).inputs.length → choices.Among P →
            Follows p'.graph ι n f f' →
              Follows p'.graph ι n (p.combine (p.graph.node n) rest chosen choices f)
                (p'.combine (p'.graph.node n)
                  (rest.map (·.map (·.upon (Plan.renumber p'.graph ι))))
                  (chosen.map (·.upon (Plan.renumber p'.graph ι))) (choices.mapValues ι) f')
  | [], chosen, choices, f, f', _, hchosen, hlength, _, hf => by
    have halternatives : p'.alternatives (p'.graph.node n)
          (chosen.map (·.upon (Plan.renumber p'.graph ι))) =
        (p.alternatives (p.graph.node n) chosen).map (·.upon (Plan.renumber p'.graph ι)) := by
      unfold Problem.alternatives
      rw [h.node_eq]
      exact Node.alternatives_upon (fun c _ => c.source.sameOutput_renumber)
        fun c hc => congrArg (·.size) (h.estimates c.source (hchosen c hc))
    rw [List.map_nil, combine_nil, combine_nil, halternatives, List.foldl_map]
    refine List.foldl_rel hf ?_
    intro alt halt f f' hf
    have hbecomes := Node.becomes_of_mem_alternatives h.accepts hlength halt
    refine hf.make h (fun c hc => ?_) choices
    obtain ⟨d, hd, hdc⟩ := exists_of_forall₂_left hbecomes.flip hc
    rw [Channel.source_eq_of_route hdc.route]
    exact hchosen d hd
  | channels :: rest, chosen, choices, f, f', hrest, hchosen, hlength, hchoices, hf => by
    rw [List.map_cons, combine_cons, combine_cons, List.foldl_map]
    refine List.foldl_rel hf ?_
    intro c hc f f' hf
    have hsource := hrest channels List.mem_cons_self c hc
    have hmerge : Choices.merge? (choices.mapValues ι)
          (c.upon (Plan.renumber p'.graph ι)).choices =
        (Choices.merge? choices c.choices).map (Table.mapValues ι) := by
      show Choices.merge? _ (c.source.renumber p'.graph ι).choices = _
      rw [h.choices _ hsource]
      exact Choices.merge?_mapValues h.injOn hchoices (h.among _ hsource)
    rw [tryChannel_of_unlimited h.budget_eq h.deadline_eq hf.running,
      tryChannel_of_unlimited h.budget_eq' h.deadline_eq' hf.running', hmerge]
    cases hmerged : Choices.merge? choices c.choices with
    | none => exact ⟨hf.plans, hf.next, hf.running, hf.running'⟩
    | some merged =>
      have hchosen' : ∀ d ∈ chosen ++ [c], S d.source := by
        intro d hd
        rcases List.mem_append.1 hd with hd | hd
        · exact hchosen d hd
        · rw [List.mem_singleton.1 hd]
          exact hsource
      have hlength' : (chosen ++ [c]).length + rest.length =
          (p.graph.node n).inputs.length := by
        rw [← hlength, List.length_append, List.length_singleton, List.length_cons,
          Nat.add_assoc, Nat.add_comm 1]
      have hstep := Found.Follows.combine h
        (fun cs hcs => hrest cs (List.mem_cons_of_mem channels hcs)) hchosen' hlength'
        (hchoices.merge? (h.among _ hsource) hmerged) hf
      rwa [List.map_append] at hstep

/-- From the same plans, under new numbers, the second search finds what the first one finds. -/
theorem found_renumber (h : p.Replays p' n ι P S) {inputs : List (List (Channel (Plan α)))}
    (hinputs : ∀ cs ∈ inputs, ∀ c ∈ cs, S c.source)
    (hlength : inputs.length = (p.graph.node n).inputs.length) {s s' : Search α}
    (hs : s.exhausted = false) (hs' : s'.exhausted = false)
    (hnext : ∀ i, ι n (s.made.size + i) = s'.made.size + i) :
    (p'.found (p'.graph.node n) (inputs.map (·.map (·.upon (Plan.renumber p'.graph ι))))
        s').plans.toList =
      (p.found (p.graph.node n) inputs s).plans.toList.map (Plan.renumber p'.graph ι) := by
  have hstart : Found.Follows p'.graph ι n { search := s } { search := s' } :=
    ⟨rfl, hnext, hs, hs'⟩
  have hleft : ([] : List (Channel (Plan α))).length + inputs.length =
      (p.graph.node n).inputs.length := by
    rw [List.length_nil, Nat.zero_add, hlength]
  exact (hstart.combine h hinputs (List.forall_mem_nil _) hleft (Choices.among_empty P)).plans

/-! ## §5 Pruning -/

end Problem

section Pruning

variable [Quantity α]

theorem Scored.map_foldl_receive (score score' : Plan α → Scored α) : ∀ cs ks : List (Plan α),
    (∀ a ∈ ks ++ cs, ∀ b ∈ ks ++ cs, dominates (score' a) (score' b) =
      dominates (score a) (score b)) → ∃ out : List (Plan α),
        (cs.map score).foldl receive (ks.map score) = out.map score ∧
          (cs.map score').foldl receive (ks.map score') = out.map score'
  | [], ks, _ => ⟨ks, rfl, rfl⟩
  | c :: cs, ks, h => by
    have hmem : c ∈ ks ++ c :: cs := by simp
    have hold : ∀ k ∈ ks, k ∈ ks ++ c :: cs := fun k hk => List.mem_append_left _ hk
    have hany : (ks.map score').any (dominates · (score' c)) =
        (ks.map score).any (dominates · (score c)) := by
      rw [List.any_map, List.any_map, Bool.eq_iff_iff, List.any_eq_true, List.any_eq_true]
      refine exists_congr fun k => and_congr_right fun hk => ?_
      rw [Function.comp_apply, Function.comp_apply, h k (hold k hk) c hmem]
    have hkeep : ∀ k ∈ ks, (!dominates (score' c) (score' k)) = !dominates (score c) (score k) :=
      fun k hk => by rw [h c hmem k (hold k hk)]
    rw [List.map_cons, List.map_cons, List.foldl_cons, List.foldl_cons]
    unfold receive
    rw [hany]
    split
    · refine map_foldl_receive score score' cs ks fun a ha b hb => h a ?_ b ?_
      · exact ((List.sublist_cons_self c cs).append_left ks).subset ha
      · exact ((List.sublist_cons_self c cs).append_left ks).subset hb
    · have hstep : ∀ f : Plan α → Scored α,
          (∀ k ∈ ks, (!dominates (f c) (f k)) = !dominates (score c) (score k)) →
            (ks.map f).filter (fun k => !dominates (f c) k) ++ [f c] =
              (ks.filter (fun k => !dominates (score c) (score k)) ++ [c]).map f := by
        intro f hf
        rw [List.filter_map, List.map_append]
        congr 2
        exact List.filter_congr hf
      rw [hstep score fun _ _ => rfl, hstep score' hkeep]
      have hsub : (ks.filter (fun k => !dominates (score c) (score k)) ++ [c] ++ cs).Sublist
          (ks ++ c :: cs) := by
        rw [List.append_assoc, List.singleton_append]
        exact List.filter_sublist.append_right _
      exact map_foldl_receive score score' cs _ fun a ha b hb =>
        h a (hsub.subset ha) b (hsub.subset hb)

/-- Where other plans stand for the candidates and dominate each other as these do, those are kept
that stand for the ones kept. -/
theorem prune_map {model : CostModel α} {requests : List (Request α)} {node : NodeId}
    {φ : Plan α → Plan α} {cs : List (Plan α)}
    (h : ∀ a ∈ cs, ∀ b ∈ cs, Scored.dominates ((φ a).score model requests node)
        ((φ b).score model requests node) =
      Scored.dominates (a.score model requests node) (b.score model requests node)) :
    (prune model requests node (cs.map φ)).1 = (prune model requests node cs).1.map φ := by
  obtain ⟨out, hout, hout'⟩ := Scored.map_foldl_receive (Plan.score model requests node)
    (fun q => (φ q).score model requests node) cs [] h
  unfold prune
  rw [List.map_map]
  show ((cs.map fun q => (φ q).score model requests node).foldl Scored.receive []).map (·.plan) =
    (((cs.map (Plan.score model requests node)).foldl Scored.receive []).map (·.plan)).map φ
  rw [List.map_nil] at hout hout'
  rw [hout, hout', List.map_map, List.map_map, List.map_map]
  rfl

/-- Under new numbers a candidate is as good as before. -/
theorem Problem.survivors_renumber {p p' : Problem α} {n : NodeId} {ι : Renumbering}
    {P : NodeId → PlanId → Prop} (h : p.TreatsAlike p' n) (hn : (p.graph.node n).id = n)
    (hι : ∀ fork, Set.InjOn (ι fork) {x | P fork x}) {plans plans' : Array (Plan α)}
    (hplans : ∀ q ∈ plans, q.node = n ∧ q.choices.Among P)
    (heq : plans'.toList = plans.toList.map (Plan.renumber p'.graph ι)) :
    (p'.survivors (p'.graph.node n) plans').1 =
      (p.survivors (p.graph.node n) plans).1.map (Plan.renumber p'.graph ι) := by
  unfold Problem.survivors
  rw [h.node_eq, h.prune_eq, hn, h.requestsOn_eq, h.model_eq, heq]
  split
  · refine prune_map fun a ha b hb => ?_
    obtain ⟨han, hachoices⟩ := hplans a (Array.mem_toList_iff.1 ha)
    obtain ⟨hbn, hbchoices⟩ := hplans b (Array.mem_toList_iff.1 hb)
    have habove : ((a.renumber p'.graph ι).choicesAbove n == (b.renumber p'.graph ι).choicesAbove n)
        = (a.choicesAbove n == b.choicesAbove n) := by
      rw [Bool.eq_iff_iff, beq_iff_eq, beq_iff_eq, ← han]
      exact Plan.choicesAbove_renumber_iff hι (han.trans hbn.symm) hachoices hbchoices
    have hcumulative : ∀ q : Plan α, (q.renumber p'.graph ι).cumulative = q.cumulative := by
      intro q
      rw [Plan.renumber_eq]
    have hmet : ∀ q : Plan α, (q.renumber p'.graph ι).placement = q.placement ∧
        (q.renumber p'.graph ι).arrangement = q.arrangement :=
      fun q => ⟨q.sameOutput_renumber.placement.symm, q.sameOutput_renumber.arrangement.symm⟩
    unfold Scored.dominates Plan.score
    simp only [hcumulative, hmet, habove]
  · rfl

end Pruning

end FlowPlanner
