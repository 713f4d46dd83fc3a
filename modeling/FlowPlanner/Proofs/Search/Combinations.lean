/-
FlowPlanner.Proofs.Search.Combinations — which combinations a node gets to run on.

Going through the combinations of a node, a search gives up on the first few channels
as soon as their choices disagree. `Problem.combineLogged` is the same walk that also
writes down the combinations handed to the node's alternatives; as long as no limit is
reached these are the combinations whose choices can be merged
(`handed_combineLogged`), and choices can be merged exactly when the plans below do not
use two candidates of one node (`Reachable.isSome_mergeChoices?_iff`). Nothing is turned
down for less: a choice names a candidate that is in use. Nothing is missed either:
inputs that agree on the forks open at both agree on all that is above both.
-/
import FlowPlanner.Proofs.Search.Accounting
import FlowPlanner.Proofs.Search.Limits
import Mathlib.Algebra.BigOperators.Group.List.Basic

namespace FlowPlanner

variable {α : Type}

/-! ## §1 The product of some lists -/

section

variable {β : Type}

/-- All ways of taking one entry of each list, those of the first list varying slowest. -/
def combinations : List (List β) → List (List β)
  | [] => [[]]
  | xs :: rest => xs.flatMap fun x => (combinations rest).map (x :: ·)

/-- One way of taking an entry of each list comes before the other: where they differ first, its
entry stands before the other one's. -/
def Earlier : List (List β) → List β → List β → Prop
  | xs :: rest, x :: t, y :: u => [x, y].Sublist xs ∨ (x = y ∧ Earlier rest t u)
  | _, _, _ => False

theorem mem_combinations : ∀ {xss : List (List β)} {t : List β},
    t ∈ combinations xss ↔ List.Forall₂ (· ∈ ·) t xss
  | [], t => by
    rw [List.forall₂_nil_right_iff]
    exact List.mem_singleton
  | xs :: rest, t => by
    rw [combinations, List.mem_flatMap, List.forall₂_cons_right_iff]
    constructor
    · rintro ⟨x, hx, ht⟩
      obtain ⟨u, hu, rfl⟩ := List.mem_map.1 ht
      exact ⟨x, u, hx, mem_combinations.1 hu, rfl⟩
    · rintro ⟨x, u, hx, hu, rfl⟩
      exact ⟨x, hx, List.mem_map_of_mem (mem_combinations.2 hu)⟩

theorem length_combinations : ∀ xss : List (List β),
    (combinations xss).length = (xss.map List.length).prod
  | [] => rfl
  | xs :: rest => by
    have hblock : (fun x : β => ((combinations rest).map (x :: ·)).length) =
        fun _ => (combinations rest).length := by
      funext x
      exact List.length_map _
    rw [combinations, List.length_flatMap, hblock, List.map_const', List.sum_replicate_nat,
      length_combinations rest, List.map_cons, List.prod_cons]

/-- The ways are listed in their order. -/
theorem pairwise_combinations : ∀ xss : List (List β),
    (combinations xss).Pairwise (Earlier xss)
  | [] => List.pairwise_singleton _ _
  | xs :: rest => by
    rw [combinations, List.pairwise_flatMap]
    constructor
    · intro x _
      rw [List.pairwise_map]
      exact (pairwise_combinations rest).imp fun h => .inr ⟨rfl, h⟩
    · refine List.pairwise_iff_forall_sublist.2 ?_
      intro x y hxy t ht u hu
      obtain ⟨t, -, rfl⟩ := List.mem_map.1 ht
      obtain ⟨u, -, rfl⟩ := List.mem_map.1 hu
      exact .inl hxy

/-- No way comes before itself if no list repeats an entry. -/
theorem not_earlier_self : ∀ {xss : List (List β)}, (∀ xs ∈ xss, xs.Nodup) →
    ∀ t, ¬ Earlier xss t t
  | [], _, _, h => h
  | _ :: _, _, [], h => h
  | xs :: rest, hnodup, x :: t, h => by
    rcases h with h | ⟨-, h⟩
    · exact List.nodup_iff_sublist.1 (hnodup xs List.mem_cons_self) x h
    · exact not_earlier_self (fun ys hys => hnodup ys (List.mem_cons_of_mem xs hys)) t h

end

/-! ## §2 What is handed to the alternatives -/

/-- How a plan runs its node, and on which channels. -/
def Plan.alternative (q : Plan α) : Alternative α := ⟨q.driver, q.inputs⟩

namespace Problem

/-- The candidates of a node found so far, and the combinations handed to its alternatives. -/
structure Logged (α : Type) where
  found : Found α
  handed : List (List (Channel (Plan α))) := []

variable [Quantity α] {p : Problem α} {node : Node}

/-- Try one more channel: go on with it, unless a limit is reached or its choices disagree with those
made so far. -/
def tryLogged (p : Problem α) (choices : Choices)
    (goOn : Channel (Plan α) → Choices → Logged α → Logged α) (w : Logged α)
    (c : Channel (Plan α)) : Logged α :=
  let f := if w.found.plans.isEmpty then w.found
    else { w.found with search := p.checkLimits w.found.search }
  if !f.plans.isEmpty && f.search.exhausted then { w with found := f }
  else match Choices.merge? choices c.choices with
    | none =>
      { w with
        found := { f with search := { f.search with conflicts := f.search.conflicts + 1 } } }
    | some merged => goOn c merged { w with found := f }

/-- Go through all combinations, and write down those that are handed to the alternatives. -/
def combineLogged (p : Problem α) (node : Node) :
    List (List (Channel (Plan α))) → List (Channel (Plan α)) → Choices → Logged α → Logged α
  | [], chosen, choices, w =>
    { found := (p.alternatives node chosen).foldl (p.make node choices) w.found
      handed := w.handed ++ [chosen] }
  | channels :: rest, chosen, choices, w =>
    channels.foldl (p.tryLogged choices fun c => p.combineLogged node rest (chosen ++ [c])) w

theorem combineLogged_cons (channels : List (Channel (Plan α)))
    (rest : List (List (Channel (Plan α)))) (chosen : List (Channel (Plan α))) (choices : Choices)
    (w : Logged α) : p.combineLogged node (channels :: rest) chosen choices w =
      channels.foldl (p.tryLogged choices fun c => p.combineLogged node rest (chosen ++ [c])) w :=
  rfl

/-- What trying a channel can do: a limit was reached, its choices disagree with those made so far,
or the search goes on with it. -/
theorem tryLogged_cases (p : Problem α) (node : Node) (rest : List (List (Channel (Plan α))))
    (chosen : List (Channel (Plan α))) (choices : Choices)
    (goOn : Channel (Plan α) → Choices → Logged α → Logged α) (w : Logged α)
    (c : Channel (Plan α)) : ∃ f : Found α, f.plans = w.found.plans ∧
      ((f.search.exhausted = true ∧ p.tryLogged choices goOn w c = { w with found := f } ∧
          p.tryChannel node rest chosen choices w.found c = f) ∨
        (Choices.merge? choices c.choices = none ∧
          p.tryLogged choices goOn w c = { w with found := f } ∧
            p.tryChannel node rest chosen choices w.found c = f) ∨
        ∃ merged, Choices.merge? choices c.choices = some merged ∧
          p.tryLogged choices goOn w c = goOn c merged { w with found := f } ∧
            p.tryChannel node rest chosen choices w.found c =
              p.combine node rest (chosen ++ [c]) merged f) := by
  unfold tryLogged tryChannel
  have hplans : (if w.found.plans.isEmpty then w.found
      else { w.found with search := p.checkLimits w.found.search }).plans = w.found.plans := by
    split <;> rfl
  dsimp only at hplans ⊢
  generalize (if w.found.plans.isEmpty then w.found
    else { w.found with search := p.checkLimits w.found.search }) = f at hplans ⊢
  split
  · rename_i hreached
    rw [Bool.and_eq_true] at hreached
    exact ⟨f, hplans, .inl ⟨hreached.2, rfl, rfl⟩⟩
  · cases Choices.merge? choices c.choices with
    | none =>
      exact ⟨{ f with search := { f.search with conflicts := f.search.conflicts + 1 } }, hplans,
        .inr (.inl ⟨rfl, rfl, rfl⟩)⟩
    | some merged => exact ⟨f, hplans, .inr (.inr ⟨merged, rfl, rfl, rfl⟩)⟩

/-- Writing down changes nothing. -/
theorem found_combineLogged : ∀ (rest : List (List (Channel (Plan α))))
    (chosen : List (Channel (Plan α))) (choices : Choices) (w : Logged α),
      (p.combineLogged node rest chosen choices w).found =
        p.combine node rest chosen choices w.found
  | [], _, _, _ => rfl
  | channels :: rest, chosen, choices, w => by
    rw [combineLogged_cons, combine_cons]
    refine (List.foldl_hom Logged.found ?_).symm
    intro w c
    obtain ⟨f, -, ⟨-, hlogged, htried⟩ | ⟨-, hlogged, htried⟩ | ⟨merged, -, hlogged, htried⟩⟩ :=
      p.tryLogged_cases node rest chosen choices _ w c
    · rw [hlogged, htried]
    · rw [hlogged, htried]
    · rw [hlogged, htried, found_combineLogged rest]

/-- What the candidates run on are the alternatives of what was handed on, in this order. -/
theorem alternatives_combineLogged : ∀ (rest : List (List (Channel (Plan α))))
    (chosen : List (Channel (Plan α))) (choices : Choices) (w : Logged α),
      w.found.plans.toList.map Plan.alternative = w.handed.flatMap (p.alternatives node) →
        (p.combineLogged node rest chosen choices w).found.plans.toList.map Plan.alternative =
          (p.combineLogged node rest chosen choices w).handed.flatMap (p.alternatives node)
  | [], chosen, choices, w, h => by
    have hmake : ∀ (alts : List (Alternative α)) (f : Found α),
        (alts.foldl (p.make node choices) f).plans.toList.map Plan.alternative =
          f.plans.toList.map Plan.alternative ++ alts := by
      intro alts
      induction alts with
      | nil => simp
      | cons alt alts ih =>
        intro f
        rw [List.foldl_cons, ih]
        simp [make, plan, Plan.alternative]
    unfold combineLogged
    dsimp only
    rw [hmake, h, List.flatMap_append, List.flatMap_singleton]
  | channels :: rest, chosen, choices, w, h => by
    rw [combineLogged_cons]
    refine List.foldlRecOn (motive := fun w : Logged α =>
      w.found.plans.toList.map Plan.alternative = w.handed.flatMap (p.alternatives node)) _ _ h ?_
    intro w h c _
    obtain ⟨f, hplans, ⟨-, hlogged, -⟩ | ⟨-, hlogged, -⟩ | ⟨merged, -, hlogged, -⟩⟩ :=
      p.tryLogged_cases node rest chosen choices _ w c
    all_goals
      rw [← hplans] at h
      rw [hlogged]
    · exact h
    · exact h
    · exact alternatives_combineLogged rest _ _ _ h

/-- As long as no limit is reached, the combinations whose choices can be merged with those made so
far are handed on, in their order. -/
theorem handed_combineLogged {rest : List (List (Channel (Plan α)))}
    {chosen : List (Channel (Plan α))} {choices : Choices} {w : Logged α}
    (hex : (p.combineLogged node rest chosen choices w).found.search.exhausted = false) :
    (p.combineLogged node rest chosen choices w).handed = w.handed ++
      ((combinations rest).filter fun t => (Channel.mergeChoices? choices t).isSome).map
        (chosen ++ ·) := by
  induction rest generalizing chosen choices w with
  | nil => simp [combineLogged, combinations, Channel.mergeChoices?, List.filter_cons]
  | cons channels rest ih =>
    rw [combineLogged_cons] at hex ⊢
    induction channels generalizing w with
    | nil => simp [combinations]
    | cons c channels ihc =>
      rw [List.foldl_cons] at hex ⊢
      -- Later channels reach no limit, so this one does not either.
      have hex₁ : (p.tryLogged choices (fun c => p.combineLogged node rest (chosen ++ [c])) w
          c).found.search.exhausted = false := by
        by_contra hreached
        have hgrow := p.combine_grows node (channels :: rest) chosen choices
          (p.tryLogged choices (fun c => p.combineLogged node rest (chosen ++ [c])) w c).found
        rw [← found_combineLogged, combineLogged_cons] at hgrow
        rw [hgrow.exhausted (by simpa using hreached)] at hex
        simp at hex
      -- What is handed on is what this channel adds, and then what the later ones add.
      have hblock : combinations ((c :: channels) :: rest) =
          (combinations rest).map (c :: ·) ++ combinations (channels :: rest) :=
        List.flatMap_cons
      rw [ihc hex, hblock, List.filter_append, List.map_append, ← List.append_assoc]
      congr 1
      rw [List.filter_map, List.map_map]
      obtain ⟨f, -, ⟨hreached, hlogged, -⟩ | ⟨hnone, hlogged, -⟩ | ⟨merged, hmerged, hlogged, -⟩⟩ :=
        p.tryLogged_cases node rest chosen choices _ w c
      · rw [hlogged] at hex₁
        rw [hreached] at hex₁
        simp at hex₁
      · rw [hlogged]
        simp [Function.comp_def, Channel.mergeChoices?_cons_eq, hnone]
      · rw [hlogged] at hex₁ ⊢
        rw [ih hex₁]
        simp [Function.comp_def, Channel.mergeChoices?_cons_eq, hmerged]

/-- The combinations handed to the alternatives of a node that is settled next. -/
def handedAt (p : Problem α) (st : Stage α) (n : NodeId) : List (List (Channel (Plan α))) :=
  (p.combineLogged (p.graph.node n) (p.channelsAt st n) [] Table.empty
    { found := { search := st.search } }).handed

theorem alternatives_found (p : Problem α) (st : Stage α) (n : NodeId) :
    (p.found (p.graph.node n) (p.channelsAt st n) st.search).plans.toList.map Plan.alternative =
      (p.handedAt st n).flatMap (p.alternatives (p.graph.node n)) := by
  unfold found handedAt
  rw [← found_combineLogged (p.channelsAt st n) [] Table.empty
    { found := { search := st.search } }]
  exact alternatives_combineLogged _ _ _ _ rfl

theorem handedAt_eq {st : Stage α} {n : NodeId}
    (hex : (p.found (p.graph.node n) (p.channelsAt st n) st.search).search.exhausted = false) :
    p.handedAt st n = (combinations (p.channelsAt st n)).filter fun t =>
      (Channel.mergeChoices? Table.empty t).isSome := by
  unfold handedAt
  rw [handed_combineLogged]
  · simp
  · rw [found_combineLogged]
    exact hex

end Problem

/-! ## §3 Which choices can be merged -/

/-- No fork stands above two inputs of the node. -/
def Graph.InputsApart (g : Graph) (n : NodeId) : Prop :=
  ∀ c ∈ (g.node n).inputs, ∀ d ∈ (g.node n).inputs, c ≠ d →
    ∀ fork, g.isFork fork = true → g.Reaches fork c.source → ¬ g.Reaches fork d.source

namespace Problem

variable [Quantity α] {p : Problem α} {st : Stage α} {n : NodeId} {t : List (Channel (Plan α))}

/-- The choices of a combination can be merged exactly when the plans below its channels do not use
different candidates of one node. -/
theorem Reachable.isSome_mergeChoices?_iff (hp : p.Prepared) (hst : p.Reachable st)
    (ht : Picks t (p.channelsAt st n)) :
    (Channel.mergeChoices? Table.empty t).isSome = true ↔
      t.Pairwise fun c d => c.source.Coincides d.source := by
  have hg := hp.wellFormed
  have hcons := hst.consistent hg
  have hcat := hst.catalogue hg
  have hpicked := forall₂_of_picks hcons.kept_id_inj ht
  rw [Channel.isSome_mergeChoices?_iff]
  refine pairwise_congr_of_forall₂ hpicked (hg.nodup_inputs n) ?_
  rintro a b c hc d hd hne ⟨-, ha⟩ ⟨-, hb⟩
  obtain ⟨hamade, hac⟩ := hcons.kept_made _ _ ha
  obtain ⟨hbmade, hbd⟩ := hcons.kept_made _ _ hb
  exact ⟨hcat.coincide_of_agree hg hp.forks_eq hamade hbmade hc hd hac.symm hbd.symm hne
    (hcat.coherent hg hp.forks_eq hamade) (hcat.coherent hg hp.forks_eq hbmade),
      hcat.agree_of_coincide hg hamade hbmade⟩

/-- Without a common fork no two inputs can disagree. -/
theorem Reachable.isSome_mergeChoices?_of_inputsApart (hg : p.graph.WellFormed)
    (hst : p.Reachable st) (hapart : p.graph.InputsApart n) (ht : Picks t (p.channelsAt st n)) :
    (Channel.mergeChoices? Table.empty t).isSome = true := by
  have hcons := hst.consistent hg
  have hcat := hst.catalogue hg
  have hpicked := forall₂_of_picks hcons.kept_id_inj ht
  have habove : ∀ {q : Plan α} {m fork : NodeId} {x : PlanId}, q ∈ st.kept m →
      q.choices.find? fork = some x → p.graph.isFork fork = true ∧ p.graph.Reaches fork m := by
    intro q m fork x hq hx
    obtain ⟨hmade, rfl⟩ := hcons.kept_made m q hq
    obtain ⟨r, hr, rfl, -, hfork⟩ := hcat.exists_uses_of_find?_choices hg hmade hx
    exact ⟨hfork, hcat.reaches_of_uses hmade hr⟩
  rw [Channel.isSome_mergeChoices?_iff]
  refine (pairwise_congr_of_forall₂ (Q := fun _ _ => True) hpicked (hg.nodup_inputs n) ?_).2
    (List.pairwise_of_forall fun _ _ => trivial)
  rintro a b c hc d hd hne ⟨-, ha⟩ ⟨-, hb⟩
  refine iff_of_true ?_ trivial
  intro fork x y hx hy
  obtain ⟨hfork, hreach⟩ := habove ha hx
  obtain ⟨-, hreach'⟩ := habove hb hy
  exact absurd hreach' (hapart c hc d hd hne fork hfork hreach)

/-! ## §4 The combinations of a node -/

omit [Quantity α] in
theorem nodup_of_mem_channelsAt {cs : List (Channel (Plan α))} (hcs : cs ∈ p.channelsAt st n) :
    cs.Nodup := by
  obtain ⟨c, -, rfl⟩ := List.mem_map.1 hcs
  exact p.nodup_channels c _

/-- What a node was handed at a stage, and what became of it in the search that went on from
there: the combinations of one channel per input in which no two channels read plans that use
different candidates of one node, each once and in lexicographic order. The plans made of the node
run on them in all the ways that the node has. -/
structure Combined (p : Problem α) (st : Stage α) (n : NodeId) (s : Search α) : Prop where
  /-- But for what it writes down, the walk that is logged is the one that the search takes. -/
  erased : (p.combineLogged (p.graph.node n) (p.channelsAt st n) [] Table.empty
      { found := { search := st.search } }).found =
    p.combine (p.graph.node n) (p.channelsAt st n) [] Table.empty { search := st.search }
  ordered : (p.handedAt st n).Pairwise (Earlier (p.channelsAt st n))
  nodup : (p.handedAt st n).Nodup
  mem_iff : ∀ t, t ∈ p.handedAt st n ↔
    Picks t (p.channelsAt st n) ∧ t.Pairwise fun c d => c.source.Coincides d.source
  rejected : ∀ t, Picks t (p.channelsAt st n) → t ∉ p.handedAt st n →
    ∃ c d r r', [c, d].Sublist t ∧ c.source.Uses r ∧ d.source.Uses r' ∧ r.node = r'.node ∧ r ≠ r'
  made : (s.madeAt n).map Plan.alternative =
    (p.handedAt st n).flatMap (p.alternatives (p.graph.node n))
  created : (p.graph.node n).kind.runsOneWay = true → p.graph.InputsApart n → ∃ retained,
    s.perNode.find? n = some ⟨((p.channelsAt st n).map List.length).prod, retained⟩

/-- Where every combination runs in one way and fits together, there are as many candidates as
combinations. -/
theorem Reachable.size_plans (hg : p.graph.WellFormed) (hst : p.Reachable st)
    (hn : n < p.graph.size)
    (hex : (p.found (p.graph.node n) (p.channelsAt st n) st.search).search.exhausted = false)
    (hone : (p.graph.node n).kind.runsOneWay = true) (hapart : p.graph.InputsApart n) :
    (p.found (p.graph.node n) (p.channelsAt st n) st.search).plans.size =
      ((p.channelsAt st n).map List.length).prod := by
  have hall : p.handedAt st n = combinations (p.channelsAt st n) := by
    rw [handedAt_eq hex]
    refine List.filter_eq_self.2 ?_
    intro t ht
    exact hst.isSome_mergeChoices?_of_inputsApart hg hapart (mem_combinations.1 ht)
  have hlength : ∀ t ∈ combinations (p.channelsAt st n),
      (p.alternatives (p.graph.node n) t).length = 1 := by
    intro t ht
    refine Node.length_alternatives (hg.accepted n hn) ?_ hone
    rw [(mem_combinations.1 ht).length_eq]
    exact List.length_map _
  rw [← Array.length_toList, ← List.length_map, alternatives_found, hall, List.length_flatMap,
    List.map_congr_left hlength, List.map_const', List.sum_replicate_nat, Nat.mul_one,
    length_combinations]

/-- What a node was handed is decided when it is settled, and stays so in the rest of the search. -/
theorem Reachable.combined (hp : p.Prepared) (hst : p.Reachable st) (hdue : p.Due st n)
    {kept : List (Plan α)} {s : Search α}
    (hs : p.settle (p.graph.node n) (p.channelsAt st n) st.search = (.ok kept, s))
    {last : Stage α} (hlast : p.Steps (st.settle n kept s) last)
    (hex : last.search.exhausted = false) : p.Combined st n last.search := by
  have hg := hp.wellFormed
  have hsettles := settle_ok hs
  have hst' : p.Reachable (st.settle n kept s) := hst.tail (.settle hdue hs)
  have hdone : n ∈ (st.settle n kept s).done := List.mem_cons_self
  have hfound : (p.found (p.graph.node n) (p.channelsAt st n) st.search).search.exhausted =
      false := by
    rw [← hsettles.exhausted_eq]
    exact hlast.exhausted_eq_false hex
  have hmade : last.search.madeAt n =
      (p.found (p.graph.node n) (p.channelsAt st n) st.search).plans.toList :=
    (hlast.madeAt_eq hg hdone).trans (hsettles.madeAt_self hg hst hdue)
  have hordered : (p.handedAt st n).Pairwise (Earlier (p.channelsAt st n)) := by
    rw [handedAt_eq hfound]
    exact (pairwise_combinations _).filter _
  have hmem : ∀ t, t ∈ p.handedAt st n ↔
      Picks t (p.channelsAt st n) ∧ t.Pairwise fun c d => c.source.Coincides d.source := by
    intro t
    rw [handedAt_eq hfound, List.mem_filter, mem_combinations]
    exact and_congr_right fun ht => hst.isSome_mergeChoices?_iff hp ht
  refine ⟨found_combineLogged _ _ _ _, hordered, ?_, hmem, ?_, ?_, ?_⟩
  · refine hordered.imp ?_
    rintro t u htu rfl
    exact not_earlier_self (fun _ => nodup_of_mem_channelsAt) t htu
  · intro t ht hrejected
    by_contra hnone
    refine hrejected ((hmem t).2 ⟨ht, List.pairwise_iff_forall_sublist.2 ?_⟩)
    intro c d hcd r r' hr hr' hnode
    by_contra hne
    exact hnone ⟨c, d, r, r', hcd, hr, hr', hnode, hne⟩
  · rw [hmade]
    exact p.alternatives_found st n
  · intro hone hapart
    refine ⟨(last.kept n).length, ?_⟩
    rw [((hst'.steps hlast).tallied hg).find?_perNode, if_pos (hlast.extends.done n hdone),
      Stage.count, hmade, Array.length_toList, hst.size_plans hg hdue.lt_size hfound hone hapart]

end Problem

/-- A search that reaches no limit ends well. Every node was settled at some stage of it, and was
handed exactly the combinations of one channel per input in which no two channels read plans that
use different candidates of one node, each once and in lexicographic order. A node that runs in one
way on any channels, and whose inputs share no fork, got as many candidates as there are
combinations. -/
theorem handed_combinations_exact [Quantity α] {o : Optimizer α} {job : Job} {p : Problem α}
    (h : o.prepare job = .ok p) (clock : Nat → Nat)
    (hex : ({ p with clock }.candidates p.graph.root {}).2.exhausted = false) :
    ∃ plans s, { p with clock }.candidates p.graph.root {} = (.ok plans, s) ∧
      ∀ n < p.graph.size, ∃ st, { p with clock }.Reachable st ∧
        n :: st.done <:+ p.graph.schedule ∧ { p with clock }.Combined st n s := by
  have hp := (o.prepared h).withClock clock
  obtain ⟨plans, s, hcand⟩ := Problem.exists_candidates hp hex
  refine ⟨plans, s, hcand, ?_⟩
  intro n hn
  obtain ⟨last, hv, rfl, -⟩ := (Problem.candidates_root hp.wellFormed).ok plans s hcand
  have hlast : { p with clock }.Reachable last := hv.steps
  have hroot : p.graph.root ∈ last.done := hv.reached _ (List.mem_singleton.2 rfl)
  have hdone : n ∈ last.done := hlast.done_of_reaches hroot (hp.wellFormed.to_root n hn)
  obtain ⟨after, before, hsplit⟩ := List.append_of_mem hdone
  have hsuffix : n :: before <:+ last.done := ⟨after, hsplit.symm⟩
  obtain ⟨st, kept, s, hst, rfl, hdue, hs, hsteps⟩ := hlast.exists_before hsuffix
  refine ⟨st, hst, ?_, hst.combined hp hdue hs hsteps ?_⟩
  · rw [hv.done_eq] at hsuffix
    exact hsuffix
  · rw [hcand] at hex
    exact hex

/-- Where the two branches meet again they read four pairs of candidates of one fork; the two pairs
that are of different candidates are left out. -/
theorem handed_combinations_exact_crossedBranches : ∃ p s,
    Optimizer.ofUnitWeights.prepare crossedBranches = .ok p ∧
      (p.candidates p.graph.root {}).2 = s ∧ s.exhausted = false ∧ s.conflicts = 2 ∧
        ∀ n < p.graph.size, ∃ st, p.Reachable st ∧ n :: st.done <:+ p.graph.schedule ∧
          p.Combined st n s := by
  obtain ⟨p, hprepare, hcheck⟩ := exists_ok_of_any
    (r := Optimizer.ofUnitWeights.prepare crossedBranches)
    (f := fun p => !(p.candidates p.graph.root {}).2.exhausted &&
      (p.candidates p.graph.root {}).2.conflicts == 2) (by decide +kernel)
  rw [Bool.and_eq_true, Bool.not_eq_true', beq_iff_eq] at hcheck
  obtain ⟨hex, hconflicts⟩ := hcheck
  obtain ⟨plans, s, hcand, hall⟩ := handed_combinations_exact hprepare p.clock hex
  rw [show ({ p with clock := p.clock } : Problem ℚ) = p from rfl] at hcand
  rw [hcand] at hex hconflicts
  exact ⟨p, s, hprepare, by rw [hcand], hex, hconflicts, hall⟩

end FlowPlanner
