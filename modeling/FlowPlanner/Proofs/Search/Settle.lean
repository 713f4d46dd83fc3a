/-
FlowPlanner.Proofs.Search.Settle — what settling a node does.

The candidates of a node are new plans, numbered on from the plans made before;
those kept are some of them. Pruning keeps, of every two that are comparable in
a way that dominance respects, at least one (`exists_survivor`), so no choice at
the forks above is lost.
-/
import FlowPlanner.Proofs.Search.Combine

namespace FlowPlanner

variable {α : Type} [Quantity α]

/-! ## §1 Pruning -/

section

variable {β : Type}

/-- The survivors after one more entry, where `dom` tells which entry makes another one useless. -/
def receiveBy (dom : β → β → Bool) (kept : List β) (x : β) : List β :=
  if kept.any (dom · x) then kept else kept.filter (fun k => !dom x k) ++ [x]

theorem receiveBy_sublist (dom : β → β → Bool) (kept : List β) (x : β) :
    (receiveBy dom kept x).Sublist (kept ++ [x]) := by
  unfold receiveBy
  split
  · exact List.sublist_append_left kept [x]
  · exact List.filter_sublist.append_right [x]

/-- Survivors are entries, in their order. -/
theorem foldl_receiveBy_sublist (dom : β → β → Bool) : ∀ xs kept : List β,
    (xs.foldl (receiveBy dom) kept).Sublist (kept ++ xs)
  | [], kept => by
    rw [List.append_nil]
    exact List.Sublist.refl kept
  | x :: xs, kept => by
    rw [List.foldl_cons, List.append_cons]
    exact (foldl_receiveBy_sublist dom xs _).trans ((receiveBy_sublist dom kept x).append_right xs)

/-- A relation that is transitive and holds wherever one entry makes another useless holds between
some survivor and each entry. -/
theorem exists_survivor (dom : β → β → Bool) {R : β → β → Prop}
    (htrans : ∀ a b c, R a b → R b c → R a c) :
    ∀ (xs kept : List β), (∀ a ∈ kept ++ xs, R a a) →
      (∀ a ∈ kept ++ xs, ∀ b ∈ kept ++ xs, dom a b = true → R a b) →
        ∀ c ∈ kept ++ xs, ∃ k ∈ xs.foldl (receiveBy dom) kept, R k c
  | [], kept, hrefl, _, c, hc => by
    rw [List.append_nil] at hc
    exact ⟨c, hc, hrefl c (by simpa using hc)⟩
  | x :: xs, kept, hrefl, hdom, c, hc => by
    rw [List.foldl_cons]
    have hsub : ∀ a ∈ receiveBy dom kept x ++ xs, a ∈ kept ++ x :: xs := by
      intro a ha
      rw [List.append_cons]
      exact ((receiveBy_sublist dom kept x).append_right xs).subset ha
    have hx : x ∈ kept ++ x :: xs := List.mem_append_right _ List.mem_cons_self
    have ih := exists_survivor dom htrans xs (receiveBy dom kept x) (fun a ha => hrefl a (hsub a ha))
      (fun a ha b hb => hdom a (hsub a ha) b (hsub b hb))
    -- Whoever does not get past `x` is dominated by someone who does.
    have hnext : ∃ d ∈ receiveBy dom kept x ++ xs, R d c := by
      rcases List.mem_append.1 hc with hkept | htail
      · unfold receiveBy
        split
        · exact ⟨c, List.mem_append_left _ hkept, hrefl c hc⟩
        · cases hd : dom x c with
          | true => exact ⟨x, by simp, hdom x hx c hc hd⟩
          | false => exact ⟨c, by simp [hkept, hd], hrefl c hc⟩
      · rcases List.mem_cons.1 htail with rfl | hxs
        · unfold receiveBy
          split
          · rename_i hany
            obtain ⟨k, hk, hd⟩ := List.any_eq_true.1 hany
            exact ⟨k, List.mem_append_left _ hk, hdom k (List.mem_append_left _ hk) c hx hd⟩
          · exact ⟨c, by simp, hrefl c hx⟩
        · exact ⟨c, List.mem_append_right _ hxs, hrefl c hc⟩
    obtain ⟨d, hd, hdc⟩ := hnext
    obtain ⟨k, hk, hkd⟩ := ih d hd
    exact ⟨k, hk, htrans k d c hkd hdc⟩

end

namespace Scored

theorem receive_eq : receive (α := α) = receiveBy dominates := rfl

/-- Candidates are compared only if they made the same choices above. -/
theorem above_eq_of_dominates {a b : Scored α} (h : dominates a b = true) : a.above = b.above := by
  unfold dominates at h
  split at h
  · rw [Bool.and_eq_true, Bool.and_eq_true, beq_iff_eq] at h
    exact h.1.2
  · simp at h

end Scored

/-- Survivors are candidates, in their order. -/
theorem prune_sublist (model : CostModel α) (requests : List (Request α)) (node : NodeId)
    (candidates : List (Plan α)) :
    (prune model requests node candidates).1.Sublist candidates := by
  have hplans : (candidates.map (Plan.score model requests node)).map (·.plan) = candidates := by
    rw [List.map_map]
    exact List.map_id candidates
  conv_rhs => rw [← hplans]
  unfold prune
  exact List.Sublist.map Scored.plan (foldl_receiveBy_sublist Scored.dominates _ [])

/-- A transitive relation that dominance respects holds between some survivor and each candidate. -/
theorem exists_mem_prune {model : CostModel α} {requests : List (Request α)} {node : NodeId}
    {candidates : List (Plan α)} {R : Plan α → Plan α → Prop} (hrefl : ∀ a ∈ candidates, R a a)
    (htrans : ∀ a b c, R a b → R b c → R a c)
    (hdom : ∀ a ∈ candidates, ∀ b ∈ candidates,
      Scored.dominates (a.score model requests node) (b.score model requests node) = true → R a b)
    {q : Plan α} (hq : q ∈ candidates) :
    ∃ k ∈ (prune model requests node candidates).1, R k q := by
  have hplan : ∀ x ∈ candidates.map (Plan.score model requests node),
      x.plan ∈ candidates ∧ x = x.plan.score model requests node := by
    intro x hx
    obtain ⟨a, ha, rfl⟩ := List.mem_map.1 hx
    exact ⟨ha, rfl⟩
  obtain ⟨k, hk, hkq⟩ := exists_survivor Scored.dominates (R := fun a b => R a.plan b.plan)
    (fun a b c => htrans a.plan b.plan c.plan) (candidates.map (Plan.score model requests node)) []
    (fun a ha => hrefl a.plan (hplan a ha).1)
    (by
      intro a ha b hb hd
      rw [(hplan a ha).2, (hplan b hb).2] at hd
      exact hdom a.plan (hplan a ha).1 b.plan (hplan b hb).1 hd)
    (q.score model requests node) (List.mem_map_of_mem hq)
  exact ⟨k.plan, List.mem_map_of_mem hk, hkq⟩

/-- Pruning leaves a candidate with the same choices above. -/
theorem exists_mem_prune_choicesAbove {model : CostModel α} {requests : List (Request α)}
    {node : NodeId} {candidates : List (Plan α)} {q : Plan α} (hq : q ∈ candidates) :
    ∃ k ∈ (prune model requests node candidates).1, k.choicesAbove node = q.choicesAbove node :=
  exists_mem_prune (R := fun a b => a.choicesAbove node = b.choicesAbove node) (fun _ _ => rfl)
    (fun _ _ _ h h' => h.trans h') (fun _ _ _ _ h => Scored.above_eq_of_dominates h) hq

omit [Quantity α] in
/-- Plans with the same choices above decide every other fork alike. -/
theorem find?_choices_congr {q r : Plan α} {node fork : NodeId} {x : PlanId}
    (h : q.choicesAbove node = r.choicesAbove node) (hne : fork ≠ node) :
    q.choices.find? fork = some x ↔ r.choices.find? fork = some x := by
  have hmem : ∀ q : Plan α, (fork, x) ∈ q.choicesAbove node ↔ q.choices.find? fork = some x := by
    intro q
    unfold Plan.choicesAbove
    rw [List.mem_filter, Table.mem_entries_iff]
    simp [hne]
  rw [← hmem q, ← hmem r, h]

/-! ## §2 The candidates of a node -/

namespace Problem

variable {p : Problem α} {node : Node} {inputs : List (List (Channel (Plan α)))} {s s' : Search α}

/-- All candidates of a node, before pruning. -/
def found (p : Problem α) (node : Node) (inputs : List (List (Channel (Plan α))))
    (s : Search α) : Found α :=
  p.combine node inputs [] Table.empty { search := s }

/-- A plan that some combination of channels becomes. -/
structure Derives (p : Problem α) (node : Node) (inputs : List (List (Channel (Plan α))))
    (t : List (Channel (Plan α))) (choices : Choices) (alt : Alternative α) : Prop where
  picks : Picks t inputs
  merged : Channel.mergeChoices? Table.empty t = some choices
  alt_mem : alt ∈ p.alternatives node t

/-- The candidates are numbered on from the plans made before. -/
theorem found_spec (p : Problem α) (node : Node) (inputs : List (List (Channel (Plan α))))
    (s : Search α) :
    (p.found node inputs s).search.made = s.made ++ (p.found node inputs s).plans ∧
      ∀ i (h : i < (p.found node inputs s).plans.size), ∃ t choices alt,
        p.Derives node inputs t choices alt ∧
          (p.found node inputs s).plans[i] = p.plan node choices (s.made.size + i) alt := by
  refine combine_induct (P := fun f => f.search.made = s.made ++ f.plans ∧
    ∀ i (h : i < f.plans.size), ∃ t choices alt, p.Derives node inputs t choices alt ∧
      f.plans[i] = p.plan node choices (s.made.size + i) alt) ?_ ?_ ?_ ?_
  · intro f hf
    exact hf
  · intro f hf
    exact hf
  · rintro f t m alt ht hm halt ⟨hmade, hplans⟩
    have hsize : f.search.made.size = s.made.size + f.plans.size := by
      rw [hmade, Array.size_append]
    refine ⟨?_, ?_⟩
    · simp [make, hmade]
    · intro i hi
      by_cases hlt : i < f.plans.size
      · obtain ⟨t', m', alt', hder, hget⟩ := hplans i hlt
        refine ⟨t', m', alt', hder, ?_⟩
        rw [← hget]
        simp [make, Array.getElem_push_lt hlt]
      · have hi' : i = f.plans.size := by
          have : i < f.plans.size + 1 := by simpa [make] using hi
          omega
        subst hi'
        refine ⟨t, m, alt, ⟨ht, hm, by simpa using halt⟩, ?_⟩
        simp [make, hsize]
  · refine ⟨by simp, ?_⟩
    intro i hi
    simp at hi

/-- Nothing is noted of the candidates while they are found. -/
theorem found_notes (p : Problem α) (node : Node) (inputs : List (List (Channel (Plan α))))
    (s : Search α) :
    (p.found node inputs s).search.forks = s.forks ∧
      (p.found node inputs s).search.perNode = s.perNode ∧
        (p.found node inputs s).search.pruned = s.pruned :=
  combine_induct (P := fun f => f.search.forks = s.forks ∧ f.search.perNode = s.perNode ∧
    f.search.pruned = s.pruned) (fun _ hf => hf) (fun _ hf => hf) (fun _ _ _ _ _ _ _ hf => hf)
    ⟨rfl, rfl, rfl⟩

/-- The candidates that are kept, and the number of the others. -/
def survivors (p : Problem α) (node : Node) (plans : Array (Plan α)) : List (Plan α) × Nat :=
  if p.config.prune then prune p.model (p.analysis.requestsOn node.id) node.id plans.toList
  else (plans.toList, 0)

theorem survivors_sublist (p : Problem α) (node : Node) (plans : Array (Plan α)) :
    (p.survivors node plans).1.Sublist plans.toList := by
  unfold survivors
  split
  · exact prune_sublist _ _ _ _
  · exact List.Sublist.refl _

theorem survivors_snd (p : Problem α) (node : Node) (plans : Array (Plan α)) :
    (p.survivors node plans).2 = plans.size - (p.survivors node plans).1.length := by
  unfold survivors
  split
  · unfold prune
    dsimp only
    rw [List.length_map, Array.length_toList]
  · rw [Array.length_toList, Nat.sub_self]

/-- What is known after a node was settled. -/
structure Settles (p : Problem α) (node : Node) (inputs : List (List (Channel (Plan α))))
    (s : Search α) (kept : List (Plan α)) (s' : Search α) : Prop where
  found : (p.found node inputs s).plans.isEmpty = false
  kept_eq : kept = (p.survivors node (p.found node inputs s).plans).1
  made_eq : s'.made = s.made ++ (p.found node inputs s).plans
  forks_eq : s'.forks = if p.graph.isFork node.id then s.forks.insert node.id kept else s.forks
  exhausted_eq : s'.exhausted = (p.found node inputs s).search.exhausted
  perNode_eq : s'.perNode = s.perNode.insert node.id
    ⟨((s.perNode.find? node.id).getD {}).created + (p.found node inputs s).plans.size,
      ((s.perNode.find? node.id).getD {}).retained + kept.length⟩
  pruned_eq : s'.pruned = s.pruned + ((p.found node inputs s).plans.size - kept.length)

theorem settle_ok {kept : List (Plan α)} (h : p.settle node inputs s = (.ok kept, s')) :
    p.Settles node inputs s kept s' := by
  obtain ⟨hmade, -⟩ := p.found_spec node inputs s
  obtain ⟨hforks, hperNode, hpruned⟩ := p.found_notes node inputs s
  unfold settle at h
  dsimp only at h
  rw [show p.combine node inputs [] Table.empty { search := s } = p.found node inputs s from rfl]
    at h
  split at h
  · simp at h
  · rename_i hne
    have hkept : (if p.config.prune then
        prune p.model (p.analysis.requestsOn node.id) node.id (p.found node inputs s).plans.toList
      else ((p.found node inputs s).plans.toList, 0)) =
        p.survivors node (p.found node inputs s).plans := rfl
    rw [hkept] at h
    obtain ⟨hk, hs⟩ := Prod.mk.inj h
    obtain rfl := Except.ok.inj hk
    subst hs
    refine ⟨by simpa using hne, rfl, hmade, ?_, rfl, ?_, ?_⟩
    · unfold record
      dsimp only
      rw [hforks]
    · unfold record
      dsimp only
      rw [hperNode]
    · unfold record
      dsimp only
      rw [hpruned, survivors_snd]

theorem settle_error {e : Failure} (h : p.settle node inputs s = (.error e, s')) :
    (p.found node inputs s).plans.isEmpty = true ∧ e = .noFeasiblePlan node.name ∧
      s' = (p.found node inputs s).search := by
  unfold settle at h
  dsimp only at h
  rw [show p.combine node inputs [] Table.empty { search := s } = p.found node inputs s from rfl]
    at h
  split at h
  · rename_i hempty
    obtain ⟨he, hs⟩ := Prod.mk.inj h
    exact ⟨hempty, (Except.error.inj he).symm, hs.symm⟩
  · simp at h

namespace Settles

variable {kept : List (Plan α)}

/-- What is kept was found, in the same order. -/
theorem kept_sublist (h : p.Settles node inputs s kept s') :
    kept.Sublist (p.found node inputs s).plans.toList := by
  rw [h.kept_eq]
  exact p.survivors_sublist node _

theorem mem_found (h : p.Settles node inputs s kept s') {q : Plan α} (hq : q ∈ kept) :
    q ∈ (p.found node inputs s).plans := Array.mem_toList_iff.1 (h.kept_sublist.subset hq)

theorem mem_made_of_mem (h : p.Settles node inputs s kept s') {q : Plan α} (hq : q ∈ s.made) :
    q ∈ s'.made := by
  rw [h.made_eq]
  exact Array.mem_append.2 (.inl hq)

theorem mem_made_of_found (h : p.Settles node inputs s kept s') {q : Plan α}
    (hq : q ∈ (p.found node inputs s).plans) : q ∈ s'.made := by
  rw [h.made_eq]
  exact Array.mem_append.2 (.inr hq)

/-- For every candidate one with the same choices above is kept. -/
theorem exists_kept (h : p.Settles node inputs s kept s') {q : Plan α}
    (hq : q ∈ (p.found node inputs s).plans) :
    ∃ k ∈ kept, k.choicesAbove node.id = q.choicesAbove node.id := by
  rw [h.kept_eq]
  unfold survivors
  split
  · exact exists_mem_prune_choicesAbove (Array.mem_toList_iff.2 hq)
  · exact ⟨q, Array.mem_toList_iff.2 hq, rfl⟩

theorem kept_ne_nil (h : p.Settles node inputs s kept s') : kept ≠ [] := by
  have hne : (p.found node inputs s).plans ≠ #[] := by simpa using h.found
  obtain ⟨q, hq⟩ := Array.exists_mem_of_ne_empty _ hne
  obtain ⟨k, hk, -⟩ := h.exists_kept hq
  exact List.ne_nil_of_mem hk

/-- Every candidate comes from a combination of channels and is the next plan in number. -/
theorem derives (h : p.Settles node inputs s kept s') {q : Plan α}
    (hq : q ∈ (p.found node inputs s).plans) :
    ∃ t choices alt id, p.Derives node inputs t choices alt ∧ q = p.plan node choices id alt ∧
      s'.made[id]? = some q ∧ s.made.size ≤ id := by
  obtain ⟨i, hi, hget⟩ := Array.mem_iff_getElem.1 hq
  obtain ⟨-, hplans⟩ := p.found_spec node inputs s
  obtain ⟨t, choices, alt, hder, hplan⟩ := hplans i hi
  refine ⟨t, choices, alt, s.made.size + i, hder, ?_, ?_, Nat.le_add_right _ _⟩
  · rw [← hget, hplan]
  · rw [h.made_eq, Array.getElem?_append_right (Nat.le_add_right _ _), Nat.add_sub_cancel_left,
      Array.getElem?_eq_getElem hi, hget]

end Settles

end Problem

end FlowPlanner
