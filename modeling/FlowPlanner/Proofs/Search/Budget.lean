/-
FlowPlanner.Proofs.Search.Budget — how much work is done under a budget.

Limits are looked at before a channel is tried, and only once the node has a
candidate. So candidates of one combination at most are made without looking, and a
combination runs in three ways at most: within a node the budget is passed by two, or
the node has three candidates (`combine_stays`). Summed up over the nodes this bounds
a search at all its points (`Point.size_made_le`). A walk that starts when a limit is
reached goes on until some combination runs, and ends there
(`alternatives_combine_of_reached`).
-/
import FlowPlanner.Proofs.Search.Combinations

namespace FlowPlanner

variable {α : Type}

/-! ## §1 The ways in which a node can run -/

namespace Node

theorem length_joinDrivers_le (n : Node) : n.joinDrivers.length ≤ 3 := by
  unfold joinDrivers
  split <;> simp

/-- Only a join runs in several ways, one per driver. -/
theorem length_alternatives_le [Quantity α] (n : Node) (sizeOf : NodeId → Option α)
    (t : List (Channel (Plan α))) : (n.alternatives sizeOf t).length ≤ 3 := by
  unfold alternatives
  split
  case h_6 =>
    unfold reduceAlternatives
    dsimp only
    split <;> simp
  case h_7 =>
    unfold joinAlternatives
    dsimp only
    split
    · simp
    · rw [List.length_map]
      exact n.length_joinDrivers_le
  all_goals simp

end Node

/-! ## §2 A search only grows -/

/-- No plan is lost, and a limit stays reached. -/
structure Search.Grows (s s' : Search α) : Prop where
  made : s.made.size ≤ s'.made.size
  exhausted : s.exhausted = true → s'.exhausted = true

namespace Search.Grows

theorem refl (s : Search α) : s.Grows s := ⟨Nat.le_refl _, fun h => h⟩

theorem trans {s₁ s₂ s₃ : Search α} (h : s₁.Grows s₂) (h' : s₂.Grows s₃) : s₁.Grows s₃ :=
  ⟨Nat.le_trans h.made h'.made, fun hex => h'.exhausted (h.exhausted hex)⟩

end Search.Grows

namespace Problem

section

variable [Quantity α]

theorem search_combine_grows (p : Problem α) (node : Node)
    (rest : List (List (Channel (Plan α)))) (chosen : List (Channel (Plan α))) (choices : Choices)
    (f : Found α) : f.search.Grows (p.combine node rest chosen choices f).search := by
  refine ⟨?_, (p.combine_grows node rest chosen choices f).exhausted⟩
  refine combine_induct (P := fun g => f.search.made.size ≤ g.search.made.size) (fun _ h => h)
    (fun _ h => h) ?_ (Nat.le_refl _)
  intro g t m alt _ _ _ h
  rw [show (p.make node m g alt).search.made.size = g.search.made.size + 1 from Array.size_push _]
  exact Nat.le_succ_of_le h

theorem search_tryChannel_grows (p : Problem α) (node : Node)
    (rest : List (List (Channel (Plan α)))) (chosen : List (Channel (Plan α))) (choices : Choices)
    (f : Found α) (c : Channel (Plan α)) :
    f.search.Grows (p.tryChannel node rest chosen choices f c).search :=
  p.search_combine_grows node ([c] :: rest) chosen choices f

/-- What becomes of a node when all its candidates are found. -/
def finish (p : Problem α) (node : Node) (f : Found α) :
    Except Failure (List (Plan α)) × Search α :=
  if f.plans.isEmpty then (.error (.noFeasiblePlan node.name), f.search)
  else
    (.ok (p.survivors node f.plans).1,
      p.record node.id f.plans.size (p.survivors node f.plans).1
        { f.search with pruned := f.search.pruned + (p.survivors node f.plans).2 })

theorem settle_eq_finish (p : Problem α) (node : Node) (inputs : List (List (Channel (Plan α))))
    (s : Search α) : p.settle node inputs s = p.finish node (p.found node inputs s) := rfl

theorem finish_grows (p : Problem α) (node : Node) (f : Found α) :
    f.search.Grows (p.finish node f).2 := by
  unfold finish
  split
  · exact .refl _
  · exact ⟨Nat.le_refl _, fun h => h⟩

theorem settle_grows (p : Problem α) (node : Node) (inputs : List (List (Channel (Plan α))))
    (s : Search α) : s.Grows (p.settle node inputs s).2 := by
  rw [settle_eq_finish]
  exact (p.search_combine_grows node inputs [] Table.empty { search := s }).trans
    (p.finish_grows node _)

theorem made_settle (p : Problem α) (node : Node) (inputs : List (List (Channel (Plan α))))
    (s : Search α) :
    (p.settle node inputs s).2.made = s.made ++ (p.found node inputs s).plans := by
  rw [← (p.found_spec node inputs s).1, settle_eq_finish]
  unfold finish
  split <;> rfl

end

/-! ## §3 Looking at the limits -/

/-- A limit was found reached, or the budget is used up. -/
def LimitReached (p : Problem α) (s : Search α) : Prop :=
  s.exhausted = true ∨ ∃ b, p.config.budget = some b ∧ b ≤ s.made.size

/-- Limits are looked at once there is a candidate. -/
def look (p : Problem α) (f : Found α) : Found α :=
  if f.plans.isEmpty then f else { f with search := p.checkLimits f.search }

theorem plans_look (p : Problem α) (f : Found α) : (p.look f).plans = f.plans := by
  unfold look
  split <;> rfl

theorem made_look (p : Problem α) (f : Found α) : (p.look f).search.made = f.search.made := by
  unfold look
  split <;> rfl

variable {p : Problem α} {f : Found α}

theorem LimitReached.isExhausted {s : Search α} (h : p.LimitReached s) :
    p.isExhausted s = true := by
  unfold Problem.isExhausted
  obtain hex | ⟨b, hb, hle⟩ := h
  · simp [hex]
  · simp [hb, hle]

/-- A limit stays reached. -/
theorem LimitReached.mono {s s' : Search α} (h : p.LimitReached s) (hs : s.Grows s') :
    p.LimitReached s' := by
  obtain h | ⟨b, hb, hle⟩ := h
  · exact .inl (hs.exhausted h)
  · exact .inr ⟨b, hb, Nat.le_trans hle hs.made⟩

/-- As long as a look finds no limit reached, the budget is not used up. -/
theorem lt_of_exhausted_look {b : Nat} (hb : p.config.budget = some b)
    (hplans : f.plans.isEmpty = false) (h : (p.look f).search.exhausted = false) :
    f.search.made.size < b := by
  unfold look at h
  rw [if_neg (by simp [hplans])] at h
  by_contra hle
  have hreached := LimitReached.isExhausted (p := p) (.inr ⟨b, hb, Nat.le_of_not_lt hle⟩)
  rw [show p.isExhausted f.search = false from h] at hreached
  simp at hreached

variable [Quantity α] {node : Node}

/-- What trying a channel can do: the node has candidates and a limit is reached, or its choices
disagree with those made so far, or the walk goes on with it. -/
theorem tryChannel_cases (p : Problem α) (node : Node) (rest : List (List (Channel (Plan α))))
    (chosen : List (Channel (Plan α))) (choices : Choices) (f : Found α) (c : Channel (Plan α)) :
    (f.plans.isEmpty = false ∧ (p.look f).search.exhausted = true ∧
        p.tryChannel node rest chosen choices f c = p.look f) ∨
      ((f.plans.isEmpty = true ∨ (p.look f).search.exhausted = false) ∧
        ((Choices.merge? choices c.choices = none ∧
            p.tryChannel node rest chosen choices f c = { p.look f with
              search := { (p.look f).search with
                conflicts := (p.look f).search.conflicts + 1 } }) ∨
          ∃ merged, Choices.merge? choices c.choices = some merged ∧
            p.tryChannel node rest chosen choices f c =
              p.combine node rest (chosen ++ [c]) merged (p.look f))) := by
  have hplans := p.plans_look f
  unfold tryChannel
  dsimp only
  rw [show (if f.plans.isEmpty then f else { f with search := p.checkLimits f.search }) =
    p.look f from rfl]
  generalize p.look f = g at hplans ⊢
  rw [← hplans]
  cases hempty : g.plans.isEmpty with
  | true =>
    refine .inr ⟨.inl rfl, ?_⟩
    cases hmerged : Choices.merge? choices c.choices with
    | none => exact .inl ⟨rfl, rfl⟩
    | some merged => exact .inr ⟨merged, rfl, rfl⟩
  | false =>
    cases hex : g.search.exhausted with
    | true => exact .inl ⟨rfl, rfl, rfl⟩
    | false =>
      refine .inr ⟨.inr rfl, ?_⟩
      cases hmerged : Choices.merge? choices c.choices with
      | none => exact .inl ⟨rfl, rfl⟩
      | some merged => exact .inr ⟨merged, rfl, rfl⟩

/-! ## §4 The points of a search -/

/-- What a walk through combinations passes through: it stops before an alternative becomes a
candidate, before a channel is tried, and wherever it stops while it goes on with a channel. -/
inductive Passes (p : Problem α) (node : Node) : List (List (Channel (Plan α))) →
    List (Channel (Plan α)) → Choices → Found α → Found α → Prop
  | making {chosen : List (Channel (Plan α))} {choices : Choices} {f : Found α}
      {before after : List (Alternative α)} (h : p.alternatives node chosen = before ++ after) :
      Passes p node [] chosen choices f (before.foldl (p.make node choices) f)
  | trying {before after : List (Channel (Plan α))} {rest : List (List (Channel (Plan α)))}
      {chosen : List (Channel (Plan α))} {choices : Choices} {f : Found α} :
      Passes p node ((before ++ after) :: rest) chosen choices f
        (before.foldl (p.tryChannel node rest chosen choices) f)
  | within {before after : List (Channel (Plan α))} {c : Channel (Plan α)}
      {rest : List (List (Channel (Plan α)))} {chosen : List (Channel (Plan α))}
      {choices merged : Choices} {f f₁ g : Found α}
      (hbefore : before.foldl (p.tryChannel node rest chosen choices) f = f₁)
      (hgo : f₁.plans.isEmpty = true ∨ (p.look f₁).search.exhausted = false)
      (hmerged : Choices.merge? choices c.choices = some merged)
      (h : Passes p node rest (chosen ++ [c]) merged (p.look f₁) g) :
      Passes p node ((before ++ c :: after) :: rest) chosen choices f g

/-- A point of a search: it stands between two nodes, or on the walk through the combinations of a
node that is due. -/
inductive Point (p : Problem α) : Search α → Prop
  | between {st : Stage α} (hst : p.Reachable st) : Point p st.search
  | walking {st : Stage α} {n : NodeId} {f : Found α} (hst : p.Reachable st) (hdue : p.Due st n)
      (h : p.Passes (p.graph.node n) (p.channelsAt st n) [] Table.empty { search := st.search } f) :
      Point p f.search

/-- A walk passes through its end. -/
theorem passes_combine (p : Problem α) (node : Node) (rest : List (List (Channel (Plan α))))
    (chosen : List (Channel (Plan α))) (choices : Choices) (f : Found α) :
    p.Passes node rest chosen choices f (p.combine node rest chosen choices f) := by
  cases rest with
  | nil => exact .making (List.append_nil _).symm
  | cons channels rest =>
    have h : p.Passes node ((channels ++ []) :: rest) chosen choices f
        (channels.foldl (p.tryChannel node rest chosen choices) f) := .trying
    rwa [List.append_nil] at h

/-- A search ends at one of its points, well or not. -/
theorem point_candidates (hg : p.graph.WellFormed) :
    p.Point (p.candidates p.graph.root {}).2 := by
  rcases p.candidates_ok_or_fails hg with ⟨plans, s, hcand⟩ | ⟨st, n, e, s, hcand, hfails, -⟩
  · obtain ⟨st, hst, -, -, rfl⟩ := exists_stage_of_ok hg hcand
    rw [hcand]
    exact .between hst
  · obtain ⟨-, -, rfl⟩ := settle_error hfails.fails
    rw [hcand]
    exact .walking hfails.reachable hfails.due (p.passes_combine _ _ _ _ _)

/-- Making candidates of some alternatives makes as many. -/
theorem size_foldl_make (p : Problem α) (node : Node) (choices : Choices) :
    ∀ (alts : List (Alternative α)) (f : Found α),
      (alts.foldl (p.make node choices) f).search.made.size = f.search.made.size + alts.length ∧
        (alts.foldl (p.make node choices) f).plans.size = f.plans.size + alts.length
  | [], f => ⟨rfl, rfl⟩
  | alt :: alts, f => by
    obtain ⟨hmade, hplans⟩ := p.size_foldl_make node choices alts (p.make node choices f alt)
    rw [List.foldl_cons, hmade, hplans, List.length_cons]
    simp only [make, Array.size_push]
    omega

/-- No point of a walk has made more than its end. -/
theorem Passes.size_made_le {rest : List (List (Channel (Plan α)))}
    {chosen : List (Channel (Plan α))} {choices : Choices} {g : Found α}
    (h : p.Passes node rest chosen choices f g) :
    g.search.made.size ≤ (p.combine node rest chosen choices f).search.made.size := by
  induction h with
  | @making chosen choices f before after h =>
    rw [combine_nil, h, (p.size_foldl_make node choices _ _).1,
      (p.size_foldl_make node choices _ _).1, List.length_append]
    omega
  | @trying before after rest chosen choices f =>
    rw [combine_cons, List.foldl_append, ← combine_cons]
    exact (p.search_combine_grows node (after :: rest) chosen choices _).made
  | @within before after c rest chosen choices merged f f₁ g hbefore hgo hmerged h ih =>
    rw [combine_cons, List.foldl_append, List.foldl_cons, hbefore, ← combine_cons]
    refine Nat.le_trans ?_ (p.search_combine_grows node (after :: rest) chosen choices _).made
    rcases p.tryChannel_cases node rest chosen choices f₁ c with
      ⟨hplans, hex, -⟩ | ⟨-, ⟨hnone, -⟩ | ⟨m, hm, htry⟩⟩
    · rcases hgo with hempty | hrunning
      · simp [hplans] at hempty
      · simp [hex] at hrunning
    · simp [hnone] at hmerged
    · obtain rfl := Option.some.inj (hm.symm.trans hmerged)
      rw [htry]
      exact ih

/-! ## §5 The plans made under a budget -/

omit [Quantity α] in
theorem length_le_of_lt {l : List Nat} (hl : l.Nodup) {k : Nat} (h : ∀ n ∈ l, n < k) :
    l.length ≤ k := by
  have hsub : l ⊆ List.range k := fun n hn => List.mem_range.2 (h n hn)
  simpa using (hl.subperm hsub).length_le

/-- At most two plans were made past the budget, or the node has three candidates at most. -/
def Found.Stays (b : Nat) (f : Found α) : Prop := f.search.made.size ≤ b + 2 ∨ f.plans.size ≤ 3

/-- A walk that starts before the budget is used up, or without a candidate, stays within it. -/
theorem combine_stays {b : Nat} (hb : p.config.budget = some b) :
    ∀ {rest : List (List (Channel (Plan α)))} {chosen : List (Channel (Plan α))}
      {choices : Choices} {f : Found α}, f.plans.isEmpty = true ∨ f.search.made.size < b →
        (p.combine node rest chosen choices f).Stays b
  | [], chosen, choices, f, hf => by
    obtain ⟨hmade, hplans⟩ := p.size_foldl_make node choices (p.alternatives node chosen) f
    have hthree : (p.alternatives node chosen).length ≤ 3 := node.length_alternatives_le _ _
    rw [combine_nil]
    rcases hf with hempty | hlt
    · refine .inr ?_
      rw [hplans, Array.isEmpty_iff.1 hempty, Array.size_empty]
      omega
    · refine .inl ?_
      rw [hmade]
      omega
  | channels :: rest, chosen, choices, f, hf => by
    rw [combine_cons]
    refine List.foldlRecOn (motive := Found.Stays b) _ _ ?_ ?_
    · rcases hf with hempty | hlt
      · refine .inr ?_
        rw [Array.isEmpty_iff.1 hempty, Array.size_empty]
        omega
      · exact .inl (by omega)
    · intro f hf c _
      have hlook : (p.look f).Stays b := by
        unfold Found.Stays
        rwa [p.plans_look, p.made_look]
      rcases p.tryChannel_cases node rest chosen choices f c with
        ⟨-, -, htry⟩ | ⟨hgo, ⟨-, htry⟩ | ⟨merged, -, htry⟩⟩
      · rw [htry]
        exact hlook
      · rw [htry]
        exact hlook
      · rw [htry]
        -- The look that let the walk go on found the budget not used up.
        refine combine_stays hb ?_
        rw [p.plans_look, p.made_look]
        cases hplans : f.plans.isEmpty with
        | true => exact .inl rfl
        | false =>
          refine .inr (lt_of_exhausted_look hb hplans (hgo.resolve_left ?_))
          simp [hplans]

/-- What a node adds. -/
theorem size_made_found_le {b : Nat} (hb : p.config.budget = some b) (node : Node)
    (inputs : List (List (Channel (Plan α)))) (s : Search α) :
    (p.found node inputs s).search.made.size ≤ max (b + 2) (s.made.size + 3) := by
  obtain ⟨hmade, -⟩ := p.found_spec node inputs s
  have hstays : (p.found node inputs s).Stays b := combine_stays hb (.inl rfl)
  rcases hstays with hle | hle
  · omega
  · rw [hmade, Array.size_append]
    omega

theorem Reachable.length_done_le (hg : p.graph.WellFormed) {st : Stage α} (hst : p.Reachable st) :
    st.done.length ≤ p.graph.size :=
  length_le_of_lt (hst.tallied hg).nodup fun _ => hst.lt_size

/-- A node that is due is one more than those that are done. -/
theorem Reachable.length_done_lt (hg : p.graph.WellFormed) {st : Stage α} (hst : p.Reachable st)
    {n : NodeId} (hdue : p.Due st n) : st.done.length < p.graph.size := by
  refine length_le_of_lt (List.nodup_cons.2 ⟨hdue.fresh, (hst.tallied hg).nodup⟩) ?_
  intro m hm
  rcases List.mem_cons.1 hm with rfl | hm
  · exact hdue.lt_size
  · exact hst.lt_size hm

theorem Reachable.size_made_le {b : Nat} (hb : p.config.budget = some b) {st : Stage α}
    (hst : p.Reachable st) : st.search.made.size ≤ b + 2 + 3 * st.done.length := by
  refine Reachable.induct
    (P := fun st => st.search.made.size ≤ b + 2 + 3 * st.done.length) (by simp) ?_ hst
  intro st n kept s _ ih _ hs
  have hsettles := settle_ok hs
  have hfound := size_made_found_le hb (p.graph.node n) (p.channelsAt st n) st.search
  rw [(p.found_spec _ _ _).1, ← hsettles.made_eq] at hfound
  rw [show (st.settle n kept s).search = s from rfl,
    show (st.settle n kept s).done = n :: st.done from rfl, List.length_cons]
  omega

/-- At no point have more plans been made than the budget, two, and three for each node. -/
theorem Point.size_made_le (hg : p.graph.WellFormed) {b : Nat} (hb : p.config.budget = some b)
    {s : Search α} (h : p.Point s) : s.made.size ≤ b + 2 + 3 * p.graph.size := by
  cases h with
  | between hst =>
    have hsize := hst.size_made_le hb
    have hdone := hst.length_done_le hg
    omega
  | @walking st n f hst hdue hpasses =>
    have hsize := hst.size_made_le hb
    have hdone := hst.length_done_lt hg hdue
    have hfound := size_made_found_le hb (p.graph.node n) (p.channelsAt st n) st.search
    have hwalk := hpasses.size_made_le
    rw [show p.combine (p.graph.node n) (p.channelsAt st n) [] Table.empty
      { search := st.search } = p.found (p.graph.node n) (p.channelsAt st n) st.search from rfl]
      at hwalk
    omega

/-! ## §6 What is left of a node once a limit is reached -/

/-- A node that has a candidate when a limit is reached gets no other. -/
theorem plans_foldl_tryChannel (rest : List (List (Channel (Plan α))))
    (chosen : List (Channel (Plan α))) (choices : Choices) :
    ∀ (cs : List (Channel (Plan α))) {f : Found α}, f.plans.isEmpty = false →
      p.LimitReached f.search →
        (cs.foldl (p.tryChannel node rest chosen choices) f).plans = f.plans
  | [], _, _, _ => rfl
  | c :: cs, f, hplans, hreached => by
    have hex : (p.look f).search.exhausted = true := by
      unfold look
      rw [if_neg (by simp [hplans])]
      exact hreached.isExhausted
    have htry : p.tryChannel node rest chosen choices f c = p.look f := by
      rcases p.tryChannel_cases node rest chosen choices f c with ⟨-, -, htry⟩ | ⟨hgo, -⟩
      · exact htry
      · simp [hplans, hex] at hgo
    rw [List.foldl_cons, htry, plans_foldl_tryChannel rest chosen choices cs, p.plans_look]
    · rwa [p.plans_look]
    · exact .inl hex

/-- The node can run on a combination whose choices fit to those made so far. -/
def runsOn (p : Problem α) (node : Node) (chosen : List (Channel (Plan α))) (choices : Choices)
    (t : List (Channel (Plan α))) : Bool :=
  (Channel.mergeChoices? choices t).isSome && !(p.alternatives node (chosen ++ t)).isEmpty

/-- The first combination that the node can run on. -/
def firstRun? (p : Problem α) (node : Node) (rest : List (List (Channel (Plan α))))
    (chosen : List (Channel (Plan α))) (choices : Choices) : Option (List (Channel (Plan α))) :=
  (combinations rest).find? (p.runsOn node chosen choices)

theorem alternatives_ne_nil_of_firstRun? {rest : List (List (Channel (Plan α)))}
    {chosen t : List (Channel (Plan α))} {choices : Choices}
    (h : p.firstRun? node rest chosen choices = some t) :
    p.alternatives node (chosen ++ t) ≠ [] := by
  intro hnil
  have hruns : p.runsOn node chosen choices t = true :=
    List.find?_some (p := p.runsOn node chosen choices) h
  rw [runsOn, hnil] at hruns
  simp at hruns

/-- The first run with the next channel, if there is one, and else the first one without it. -/
theorem firstRun?_cons (c : Channel (Plan α)) (cs : List (Channel (Plan α)))
    (rest : List (List (Channel (Plan α)))) (chosen : List (Channel (Plan α))) (choices : Choices) :
    p.firstRun? node ((c :: cs) :: rest) chosen choices =
      (((Choices.merge? choices c.choices).bind fun merged =>
        p.firstRun? node rest (chosen ++ [c]) merged).map (c :: ·)).or
          (p.firstRun? node (cs :: rest) chosen choices) := by
  unfold firstRun?
  rw [show combinations ((c :: cs) :: rest) =
    (combinations rest).map (c :: ·) ++ combinations (cs :: rest) from List.flatMap_cons,
    List.find?_append, List.find?_map]
  congr 2
  cases hmerged : Choices.merge? choices c.choices with
  | none =>
    refine List.find?_eq_none.2 fun t _ => ?_
    simp [runsOn, Channel.mergeChoices?_cons_eq, hmerged]
  | some merged =>
    refine congrArg (List.find? · _) (funext fun t => ?_)
    simp [runsOn, Channel.mergeChoices?_cons_eq, hmerged]

/-- A walk without a candidate that starts once a limit is reached makes the alternatives of the
first combination that the node can run on, and no others. -/
theorem alternatives_combine_of_reached (rest : List (List (Channel (Plan α))))
    (chosen : List (Channel (Plan α))) (choices : Choices) {f : Found α}
    (hplans : f.plans = #[]) (hreached : p.LimitReached f.search) :
    (p.combine node rest chosen choices f).plans.toList.map Plan.alternative =
      ((p.firstRun? node rest chosen choices).map fun t =>
        p.alternatives node (chosen ++ t)).getD [] := by
  induction rest generalizing chosen choices f with
  | nil =>
    rw [← found_combineLogged [] chosen choices { found := f },
      alternatives_combineLogged [] chosen choices { found := f } (by simp [hplans])]
    cases halts : p.alternatives node chosen with
    | nil => simp [combineLogged, firstRun?, combinations, runsOn, halts]
    | cons alt alts =>
      simp [combineLogged, firstRun?, combinations, runsOn, halts, Channel.mergeChoices?]
  | cons channels rest ih =>
    rw [combine_cons]
    induction channels generalizing f with
    | nil => simp [firstRun?, combinations, hplans]
    | cons c channels ihc =>
      have hlook : p.look f = f := by
        unfold look
        rw [if_pos (by simp [hplans])]
      rw [List.foldl_cons, firstRun?_cons]
      rcases p.tryChannel_cases node rest chosen choices f c with
        ⟨hne, -⟩ | ⟨-, ⟨hnone, htry⟩ | ⟨merged, hmerged, htry⟩⟩
      · simp [hplans] at hne
      · rw [htry, hlook, hnone]
        exact ihc hplans hreached
      · rw [hlook] at htry
        rw [hmerged, Option.bind_some]
        have hafter : p.LimitReached (p.tryChannel node rest chosen choices f c).search :=
          hreached.mono (p.search_tryChannel_grows node rest chosen choices f c)
        have hhere := ih (chosen ++ [c]) merged hplans hreached
        rw [← htry] at hhere
        cases hfirst : p.firstRun? node rest (chosen ++ [c]) merged with
        | none =>
          -- The node runs on nothing with this channel, so it has no candidate yet.
          rw [hfirst] at hhere
          exact ihc (by simpa using hhere) hafter
        | some t =>
          rw [hfirst] at hhere
          have hne : (p.tryChannel node rest chosen choices f c).plans.isEmpty = false := by
            by_contra hempty
            have hnil : (p.tryChannel node rest chosen choices f c).plans = #[] := by
              simpa using hempty
            rw [hnil] at hhere
            exact alternatives_ne_nil_of_firstRun? hfirst hhere.symm
          rw [plans_foldl_tryChannel rest chosen choices channels hne hafter, hhere]
          simp

variable {st : Stage α} {n : NodeId}

/-- All that is made of a node is made on one combination: it fits together, the node can run on
it, and every other one for which that is so comes later. -/
structure FirstOnly (p : Problem α) (st : Stage α) (n : NodeId) (plans : Array (Plan α))
    (t : List (Channel (Plan α))) : Prop where
  picks : Picks t (p.channelsAt st n)
  compatible : (Channel.mergeChoices? Table.empty t).isSome = true
  runs : p.alternatives (p.graph.node n) t ≠ []
  made : plans.toList.map Plan.alternative = p.alternatives (p.graph.node n) t
  size_le : plans.size ≤ 3
  first : ∀ u, Picks u (p.channelsAt st n) →
    (Channel.mergeChoices? Table.empty u).isSome = true →
      p.alternatives (p.graph.node n) u ≠ [] → u = t ∨ Earlier (p.channelsAt st n) t u

theorem runsOn_nil_iff {t : List (Channel (Plan α))} :
    p.runsOn node [] Table.empty t = true ↔
      (Channel.mergeChoices? Table.empty t).isSome = true ∧ p.alternatives node t ≠ [] := by
  simp [runsOn]

/-- A node that is due when a limit is reached runs on one combination, or has no candidate. -/
theorem firstOnly_of_reached (hreached : p.LimitReached st.search) :
    ((p.found (p.graph.node n) (p.channelsAt st n) st.search).plans = #[] ∧
        ∀ t, Picks t (p.channelsAt st n) → (Channel.mergeChoices? Table.empty t).isSome = true →
          p.alternatives (p.graph.node n) t = []) ∨
      ∃ t, p.FirstOnly st n (p.found (p.graph.node n) (p.channelsAt st n) st.search).plans t := by
  have hmade : (p.found (p.graph.node n) (p.channelsAt st n) st.search).plans.toList.map
      Plan.alternative = _ :=
    alternatives_combine_of_reached (p.channelsAt st n) [] Table.empty rfl hreached
  cases hfirst : p.firstRun? (p.graph.node n) (p.channelsAt st n) [] Table.empty with
  | none =>
    rw [hfirst] at hmade
    refine .inl ⟨by simpa using hmade, ?_⟩
    intro t ht hcompatible
    by_contra hruns
    exact List.find?_eq_none.1 hfirst t (mem_combinations.2 ht) (runsOn_nil_iff.2
      ⟨hcompatible, hruns⟩)
  | some t =>
    rw [hfirst] at hmade
    obtain ⟨hruns, before, after, hsplit, hbefore⟩ := List.find?_eq_some_iff_append.1 hfirst
    obtain ⟨hcompatible, hne⟩ := runsOn_nil_iff.1 hruns
    have hmem : t ∈ combinations (p.channelsAt st n) := by
      rw [hsplit]
      simp
    refine .inr ⟨t, mem_combinations.1 hmem, hcompatible, hne, by simpa using hmade, ?_, ?_⟩
    · have hlength := congrArg List.length hmade
      rw [List.length_map, Array.length_toList] at hlength
      rw [hlength]
      exact Node.length_alternatives_le _ _ _
    · intro u hu hcompatible hne
      have hordered := pairwise_combinations (p.channelsAt st n)
      have hmem := mem_combinations.2 hu
      rw [hsplit] at hordered hmem
      rcases List.mem_append.1 hmem with hmem | hmem
      · have hnot := hbefore u hmem
        simp [runsOn_nil_iff.2 ⟨hcompatible, hne⟩] at hnot
      · rcases List.mem_cons.1 hmem with rfl | hmem
        · exact .inl rfl
        · exact .inr ((List.pairwise_cons.1 (List.pairwise_append.1 hordered).2.1).1 u hmem)

theorem Steps.limitReached {st st' : Stage α} (h : p.Steps st st')
    (hreached : p.LimitReached st.search) : p.LimitReached st'.search := by
  induction h with
  | refl => exact hreached
  | @tail st₁ _ _ hlast ih =>
    cases hlast with
    | @settle n _ _ hdue hs =>
      have hgrows := p.settle_grows (p.graph.node n) (p.channelsAt st₁ n) st₁.search
      rw [hs] at hgrows
      exact ih.mono hgrows

end Problem

/-- Under a budget, at no point of a search, nor at its end, whether it ends well or not, have more
plans been made than the budget, two more, and three for each node. Whatever node is settled when a
limit is reached, now or some steps before, all plans that are then made of it, three at most, are
made on one combination, the first one that fits together and that the node can run on; if there is
none, none is made. -/
theorem budget_bounds_work [Quantity α] {o : Optimizer α} {job : Job} {p : Problem α}
    (h : o.prepare job = .ok p) (clock : Nat → Nat) {b : Nat} (hb : o.config.budget = some b) :
    (∀ s, { p with clock }.Point s → s.made.size ≤ b + 2 + 3 * p.graph.size) ∧
      { p with clock }.Point ({ p with clock }.candidates p.graph.root {}).2 ∧
      ∀ st st' n, { p with clock }.LimitReached st.search → { p with clock }.Steps st st' →
        ∃ plans, ({ p with clock }.settle (p.graph.node n) ({ p with clock }.channelsAt st' n)
            st'.search).2.made = st'.search.made ++ plans ∧
          ((plans = #[] ∧ ∀ t, Picks t ({ p with clock }.channelsAt st' n) →
              (Channel.mergeChoices? Table.empty t).isSome = true →
                { p with clock }.alternatives (p.graph.node n) t = []) ∨
            ∃ t, { p with clock }.FirstOnly st' n plans t) := by
  have hg : { p with clock }.graph.WellFormed := (o.prepared h).wellFormed
  have hbudget : { p with clock }.config.budget = some b := by
    obtain ⟨g, -, rfl⟩ := o.prepare_ok h
    exact hb
  refine ⟨fun s hs => hs.size_made_le hg hbudget, Problem.point_candidates hg, ?_⟩
  intro st st' n hreached hsteps
  exact ⟨_, Problem.made_settle _ _ _ _, Problem.firstOnly_of_reached (hsteps.limitReached hreached)⟩

/-- Where not even one candidate is allowed, the join still runs in three ways, on the first pair of
channels, and the sink reads the first of the three plans. -/
theorem budget_bounds_work_plainJoin : ∃ p,
    (Optimizer.ofUnitWeights.withLimits false (some 0) none).prepare plainJoin = .ok p ∧
      (∀ s, p.Point s → s.made.size ≤ 14) ∧
      (∃ plans s, p.candidates p.graph.root {} = (.ok plans, s) ∧ s.exhausted = true ∧
        s.perNode.entries.map (·.2) = [⟨1, 1⟩, ⟨1, 1⟩, ⟨3, 3⟩, ⟨1, 1⟩]) ∧
      ∀ n < p.graph.size, ∃ st plans t, p.Reachable st ∧ p.Due st n ∧
        p.FirstOnly st n plans t := by
  obtain ⟨p, hprepare, hcheck⟩ := exists_ok_of_any
    (r := (Optimizer.ofUnitWeights.withLimits false (some 0) none).prepare plainJoin)
    (f := fun p => match p.candidates p.graph.root {} with
      | (.error _, _) => false
      | (.ok _, s) => s.exhausted && s.perNode.entries.map (·.2) ==
          [⟨1, 1⟩, ⟨1, 1⟩, ⟨3, 3⟩, ⟨1, 1⟩] && p.graph.size == 4) (by decide +kernel)
  split at hcheck
  · simp at hcheck
  · rename_i plans s hcand
    simp only [Bool.and_eq_true, beq_iff_eq] at hcheck
    obtain ⟨⟨hexhausted, hentries⟩, hsize⟩ := hcheck
    obtain ⟨hpoints, -, hfirst⟩ := budget_bounds_work hprepare p.clock (b := 0) rfl
    rw [hsize] at hpoints
    refine ⟨p, hprepare, hpoints, ⟨plans, s, hcand, hexhausted, hentries⟩, ?_⟩
    intro n hn
    have hg := (Optimizer.prepared hprepare).wellFormed
    obtain ⟨last, hlast, hroot, -, -⟩ := Problem.exists_stage_of_ok hg hcand
    obtain ⟨after, before, hsplit⟩ :=
      List.append_of_mem (hlast.done_of_reaches hroot (hg.to_root n hn))
    obtain ⟨st, kept, s, hst, -, hdue, hs, -⟩ := hlast.exists_before ⟨after, hsplit.symm⟩
    have hbudget : p.config.budget = some 0 := by
      obtain ⟨g, -, rfl⟩ := Optimizer.prepare_ok hprepare
      rfl
    obtain ⟨made, hmade, ⟨rfl, -⟩ | ⟨t, ht⟩⟩ :=
      hfirst {} st n (.inr ⟨0, hbudget, Nat.zero_le _⟩) hst
    · rw [Problem.made_settle, Array.append_right_inj] at hmade
      have hfound := (Problem.settle_ok hs).found
      rw [hmade] at hfound
      simp at hfound
    · exact ⟨st, made, t, hst, hdue, ht⟩

end FlowPlanner
