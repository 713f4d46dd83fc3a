/-
FlowPlanner.Proofs.Search.Dominance — which candidates pruning leaves.

A candidate that comes to nothing may have been dropped for one that is itself replaced
later. As dominance is transitive (`Plan.Dominates.trans`), what replaced that one dominates
the candidate too, so at the end it makes no difference who was there when: a candidate is
kept exactly if no other one dominates it without being dominated back, and none that stands
earlier dominates it at all (`mem_foldl_receiveBy_iff`). The candidates are told apart by
their places, as two of them may be equal.
-/
import FlowPlanner.Proofs.Cost
import FlowPlanner.Proofs.Search.Settle
import FlowPlanner.Proofs.Table

namespace FlowPlanner

/-! ## §1 Survivors by their places -/

section

variable {β γ : Type}

/-- Survivors of entries that are compared by what they map to. -/
theorem foldl_receiveBy_map (f : β → γ) (dom : γ → γ → Bool) : ∀ xs kept : List β,
    (xs.map f).foldl (receiveBy dom) (kept.map f) =
      (xs.foldl (receiveBy fun a b => dom (f a) (f b)) kept).map f
  | [], _ => rfl
  | x :: xs, kept => by
    have hreceive : receiveBy dom (kept.map f) (f x) =
        (receiveBy (fun a b => dom (f a) (f b)) kept x).map f := by
      unfold receiveBy
      rw [List.any_map, apply_ite (List.map f), List.map_append, List.filter_map]
      rfl
    rw [List.map_cons, List.foldl_cons, List.foldl_cons, hreceive, foldl_receiveBy_map]

/-- Some other entry makes this one useless, and is not made useless by it or stands earlier. -/
def Outdone (dom : β × Nat → β × Nat → Bool) (xs : List (β × Nat)) (x : β × Nat) : Prop :=
  ∃ y ∈ xs, y.2 ≠ x.2 ∧ dom y x = true ∧ (dom x y = false ∨ y.2 < x.2)

variable {dom : β × Nat → β × Nat → Bool}

theorem outdone_append_singleton {xs : List (β × Nat)} {last x : β × Nat} :
    Outdone dom (xs ++ [last]) x ↔ Outdone dom xs x ∨
      last.2 ≠ x.2 ∧ dom last x = true ∧ (dom x last = false ∨ last.2 < x.2) := by
  unfold Outdone
  constructor
  · rintro ⟨y, hy, h⟩
    rcases List.mem_append.1 hy with hy | hy
    · exact .inl ⟨y, hy, h⟩
    · exact .inr (List.mem_singleton.1 hy ▸ h)
  · rintro (⟨y, hy, h⟩ | h)
    · exact ⟨y, List.mem_append_left _ hy, h⟩
    · exact ⟨last, by simp, h⟩

/-- Every entry survives, or some survivor makes it useless. -/
theorem exists_mem_foldl_receiveBy
    (htrans : ∀ a b c, dom a b = true → dom b c = true → dom a c = true)
    {xs : List (β × Nat)} {x : β × Nat} (hx : x ∈ xs) :
    ∃ k ∈ xs.foldl (receiveBy dom) [], k = x ∨ dom k x = true := by
  refine exists_survivor dom (R := fun a b => a = b ∨ dom a b = true) ?_ xs [] (fun _ _ => .inl rfl)
    (fun _ _ _ _ h => .inr h) x hx
  rintro a b c (rfl | hab) (rfl | hbc)
  · exact .inl rfl
  · exact .inr hbc
  · exact .inr hab
  · exact .inr (htrans a b c hab hbc)

/-- An entry that no survivor makes useless is made useless by no entry. -/
theorem dom_eq_false_of_not_any
    (htrans : ∀ a b c, dom a b = true → dom b c = true → dom a c = true) {xs : List (β × Nat)}
    {x : β × Nat} (hnone : ¬ (xs.foldl (receiveBy dom) []).any (dom · x) = true) :
    ∀ y ∈ xs, dom y x = false := by
  intro y hy
  by_contra hdom
  rw [Bool.not_eq_false] at hdom
  obtain ⟨k, hk, heq⟩ := exists_mem_foldl_receiveBy htrans hy
  refine hnone (List.any_eq_true.2 ⟨k, hk, ?_⟩)
  rcases heq with rfl | hky
  · exact hdom
  · exact htrans k y x hky hdom

/-- What makes an entry useless also outdoes whatever that entry would. -/
theorem outdone_of_dom (htrans : ∀ a b c, dom a b = true → dom b c = true → dom a c = true)
    {xs : List (β × Nat)} (hplaces : (xs.map (·.2)).Nodup) {k y x : β × Nat} (hk : k ∈ xs)
    (hx : x ∈ xs) (hky : dom k y = true) (hyx : dom y x = true) (hxy : dom x y = false) :
    Outdone dom xs x := by
  refine ⟨k, hk, fun hplace => ?_, htrans k y x hky hyx, .inl ?_⟩
  · obtain rfl : k = x := List.inj_on_of_nodup_map hplaces hk hx hplace
    rw [hky] at hxy
    simp at hxy
  · by_contra hxk
    rw [htrans x k y (by simpa using hxk) hky] at hxy
    simp at hxy

/-- What survives is what no other entry outdoes. -/
theorem mem_foldl_receiveBy_iff
    (htrans : ∀ a b c, dom a b = true → dom b c = true → dom a c = true) {xs : List (β × Nat)}
    (hascending : xs.Pairwise fun a b => a.2 < b.2) {x : β × Nat} :
    x ∈ xs.foldl (receiveBy dom) [] ↔ x ∈ xs ∧ ¬ Outdone dom xs x := by
  -- The induction is on the entries received, the last one of them first.
  induction xs using List.reverseRecOn generalizing x with
  | nil => simp
  | append_singleton xs last ih =>
    obtain ⟨hxs, -, hlast⟩ := List.pairwise_append.1 hascending
    have hbefore : ∀ y ∈ xs, y.2 < last.2 := fun y hy => hlast y hy last List.mem_cons_self
    have hplaces : (xs.map (·.2)).Nodup := (List.pairwise_map.2 hxs).imp Nat.ne_of_lt
    have hkept := fun {y} => ih hxs (x := y)
    rw [List.foldl_append, List.foldl_cons, List.foldl_nil, outdone_append_singleton,
      List.mem_append, List.mem_singleton]
    have hnever : ¬ (xs.foldl (receiveBy dom) []).any (dom · last) = true →
        ∀ y ∈ xs, dom y last = false := dom_eq_false_of_not_any htrans
    generalize xs.foldl (receiveBy dom) [] = kept at hkept hnever
    unfold receiveBy
    split
    · rename_i hany
      obtain ⟨k, hk, hdom⟩ := List.any_eq_true.1 hany
      have hkxs := (hkept.1 hk).1
      constructor
      · intro hx
        obtain ⟨hmem, hnot⟩ := hkept.1 hx
        refine ⟨.inl hmem, not_or.2 ⟨hnot, ?_⟩⟩
        rintro ⟨-, hlastx, hback | hlt⟩
        · exact hnot (outdone_of_dom htrans hplaces hkxs hmem hdom hlastx hback)
        · exact absurd (hbefore x hmem) (Nat.lt_asymm hlt)
      · rintro ⟨hmem | rfl, hnot⟩
        · exact hkept.2 ⟨hmem, fun h => hnot (.inl h)⟩
        · have hlt := hbefore k hkxs
          exact absurd (.inl ⟨k, hkxs, Nat.ne_of_lt hlt, hdom, .inr hlt⟩) hnot
    · rename_i hany
      have hnone := hnever hany
      rw [List.mem_append, List.mem_singleton, List.mem_filter, hkept]
      constructor
      · rintro (⟨⟨hmem, hnot⟩, hlastx⟩ | rfl)
        · refine ⟨.inl hmem, not_or.2 ⟨hnot, ?_⟩⟩
          rintro ⟨-, hdom, -⟩
          rw [hdom] at hlastx
          simp at hlastx
        · refine ⟨.inr rfl, not_or.2 ⟨?_, fun h => h.1 rfl⟩⟩
          rintro ⟨y, hy, -, hdom, -⟩
          rw [hnone y hy] at hdom
          simp at hdom
      · rintro ⟨hmem | rfl, hnot⟩
        · refine .inl ⟨⟨hmem, fun h => hnot (.inl h)⟩, ?_⟩
          by_contra hdom
          exact hnot (.inr ⟨(Nat.ne_of_lt (hbefore x hmem)).symm, by simpa using hdom,
            .inl (hnone x hmem)⟩)
        · exact .inr rfl

/-- Where no entry makes another one useless all of them survive. -/
theorem foldl_receiveBy_of_pairwise {dom : β → β → Bool} : ∀ xs kept : List β,
    (kept ++ xs).Pairwise (fun a b => dom a b = false ∧ dom b a = false) →
      xs.foldl (receiveBy dom) kept = kept ++ xs
  | [], kept, _ => (List.append_nil kept).symm
  | x :: xs, kept, h => by
    have hx : ∀ k ∈ kept, dom k x = false ∧ dom x k = false := fun k hk =>
      (List.pairwise_append.1 h).2.2 k hk x List.mem_cons_self
    have hreceive : receiveBy dom kept x = kept ++ [x] := by
      unfold receiveBy
      rw [if_neg, List.filter_eq_self.2]
      · intro k hk
        simp [(hx k hk).2]
      · intro hany
        obtain ⟨k, hk, hdom⟩ := List.any_eq_true.1 hany
        simp [(hx k hk).1] at hdom
    rw [List.append_cons] at h ⊢
    rw [List.foldl_cons, hreceive, foldl_receiveBy_of_pairwise xs _ h]

end

/-! ## §2 Candidates -/

variable {α : Type} [Quantity α]

namespace Plan

omit [Quantity α] in
/-- Both plans make the same choice at every fork other than the node. -/
def AgreeAbove (node : NodeId) (x y : Plan α) : Prop :=
  ∀ fork, fork ≠ node → x.choices.find? fork = y.choices.find? fork

/-- The first plan makes the second one useless: it decides the forks above alike, is known to cost
no more, and meets each part of a request that the second one meets. -/
structure Dominates (model : CostModel α) (requests : List (Request α)) (node : NodeId)
    (x y : Plan α) : Prop where
  agree : x.AgreeAbove node y
  total_le : ∃ a b, model.total x.cumulative = some a ∧ model.total y.cumulative = some b ∧
    Quantity.le a b = true
  placement : ∀ r ∈ requests,
    r.placement.isMetBy y.placement = true → r.placement.isMetBy x.placement = true
  arrangement : ∀ r ∈ requests,
    r.arrangement.isMetBy y.arrangement = true → r.arrangement.isMetBy x.arrangement = true

omit [Quantity α] in
theorem choicesAbove_eq_iff {node : NodeId} {x y : Plan α} :
    x.choicesAbove node = y.choicesAbove node ↔ x.AgreeAbove node y := by
  constructor
  · intro h fork hne
    refine Option.ext fun id => ?_
    exact find?_choices_congr h hne
  · intro h
    have htable : x.choices.filterKeys (· != node) = y.choices.filterKeys (· != node) := by
      refine Table.ext fun fork => ?_
      rw [Table.find?_filterKeys, Table.find?_filterKeys]
      by_cases hne : fork = node
      · simp [hne]
      · rw [h fork hne]
    exact congrArg Table.entries htable

variable {model : CostModel α} {requests : List (Request α)} {node : NodeId}

omit [Quantity α] in
theorem coversMet_score_iff {x y : Plan α} :
    Scored.coversMet (x.score model requests node).met (y.score model requests node).met = true ↔
      (∀ r ∈ requests,
        r.placement.isMetBy y.placement = true → r.placement.isMetBy x.placement = true) ∧
      ∀ r ∈ requests,
        r.arrangement.isMetBy y.arrangement = true → r.arrangement.isMetBy x.arrangement = true := by
  unfold Scored.coversMet score
  dsimp only
  rw [List.zip_map', List.all_map, List.all_eq_true, ← forall₂_and]
  refine forall₂_congr fun r _ => ?_
  simp only [Function.comp_apply, Bool.and_eq_true, Bool.or_eq_true, Bool.not_eq_true']
  cases r.placement.isMetBy y.placement <;> cases r.arrangement.isMetBy y.arrangement <;> simp

theorem dominates_score_iff {x y : Plan α} :
    Scored.dominates (x.score model requests node) (y.score model requests node) = true ↔
      x.Dominates model requests node y := by
  have habove : (x.score model requests node).above = (y.score model requests node).above ↔
      x.AgreeAbove node y := choicesAbove_eq_iff
  unfold Scored.dominates
  constructor
  · intro h
    split at h
    · rename_i a b hx hy
      rw [Bool.and_eq_true, Bool.and_eq_true, beq_iff_eq, habove, coversMet_score_iff] at h
      obtain ⟨⟨hle, hagree⟩, hplacement, harrangement⟩ := h
      exact ⟨hagree, ⟨a, b, hx, hy, hle⟩, hplacement, harrangement⟩
    · simp at h
  · intro h
    obtain ⟨a, b, hx, hy, hle⟩ := h.total_le
    rw [show (x.score model requests node).total = some a from hx,
      show (y.score model requests node).total = some b from hy]
    dsimp only
    rw [Bool.and_eq_true, Bool.and_eq_true, beq_iff_eq, habove, coversMet_score_iff]
    exact ⟨⟨hle, h.agree⟩, h.placement, h.arrangement⟩

theorem Dominates.trans [Quantity.Transitive α] {x y z : Plan α}
    (h : x.Dominates model requests node y) (h' : y.Dominates model requests node z) :
    x.Dominates model requests node z := by
  obtain ⟨a, b, ha, hb, hab⟩ := h.total_le
  obtain ⟨b', c, hb', hc, hbc⟩ := h'.total_le
  obtain rfl := Option.some.inj (hb.symm.trans hb')
  exact ⟨fun fork hne => (h.agree fork hne).trans (h'.agree fork hne),
    ⟨a, c, ha, hc, Quantity.Transitive.le_trans hab hbc⟩,
    fun r hr hz => h.placement r hr (h'.placement r hr hz),
    fun r hr hz => h.arrangement r hr (h'.arrangement r hr hz)⟩

end Plan

/-! ## §3 The result of pruning -/

/-- Of some candidates those at some places are left, as dominance demands. -/
structure Pruned (model : CostModel α) (requests : List (Request α)) (node : NodeId)
    (candidates kept : List (Plan α)) (places : List Nat) : Prop where
  /-- The kept candidates stand in their order. -/
  ascending : places.Pairwise (· < ·)
  kept_eq : kept.map some = places.map (candidates[·]?)
  /-- A candidate is kept exactly if no other one dominates it that it does not dominate, or that
  stands earlier. -/
  mem_iff : ∀ i x, candidates[i]? = some x → (i ∈ places ↔ ¬ ∃ j y, j ≠ i ∧
    candidates[j]? = some y ∧ y.Dominates model requests node x ∧
      (¬ x.Dominates model requests node y ∨ j < i))

section

variable {model : CostModel α} {requests : List (Request α)} {node : NodeId}
  {candidates : List (Plan α)}

/-- Dominance of candidates with their places. -/
def dominatesAt (model : CostModel α) (requests : List (Request α)) (node : NodeId)
    (a b : Plan α × Nat) : Bool :=
  Scored.dominates (a.1.score model requests node) (b.1.score model requests node)

/-- The candidates that are left, with their places. -/
def placed (model : CostModel α) (requests : List (Request α)) (node : NodeId)
    (candidates : List (Plan α)) : List (Plan α × Nat) :=
  candidates.zipIdx.foldl (receiveBy (dominatesAt model requests node)) []

theorem prune_eq : prune model requests node candidates =
    ((placed model requests node candidates).map (·.1),
      candidates.length - (placed model requests node candidates).length) := by
  have hscored : candidates.map (Plan.score model requests node) =
      candidates.zipIdx.map fun e => e.1.score model requests node := by
    conv_lhs => rw [← List.zipIdx_map_fst 0 candidates]
    rw [List.map_map]
    rfl
  have hfold : (candidates.map (Plan.score model requests node)).foldl Scored.receive [] =
      (placed model requests node candidates).map fun e => e.1.score model requests node := by
    rw [hscored]
    exact foldl_receiveBy_map (fun e : Plan α × Nat => e.1.score model requests node)
      Scored.dominates candidates.zipIdx []
  unfold prune
  dsimp only
  rw [hfold, List.map_map, List.length_map]
  rfl

theorem placed_sublist (model : CostModel α) (requests : List (Request α)) (node : NodeId)
    (candidates : List (Plan α)) : (placed model requests node candidates).Sublist candidates.zipIdx :=
  foldl_receiveBy_sublist _ _ []

omit [Quantity α] in
theorem pairwise_zipIdx (candidates : List (Plan α)) :
    candidates.zipIdx.Pairwise fun a b => a.2 < b.2 := by
  rw [← List.pairwise_map, List.zipIdx_map_snd]
  exact List.pairwise_lt_range'

theorem getElem?_of_mem_placed {e : Plan α × Nat}
    (he : e ∈ placed model requests node candidates) : candidates[e.2]? = some e.1 :=
  List.mem_zipIdx_iff_getElem?.1 ((placed_sublist _ _ _ _).subset he)

variable [Quantity.Transitive α]

theorem dominatesAt_trans (model : CostModel α) (requests : List (Request α)) (node : NodeId)
    (a b c : Plan α × Nat) (hab : dominatesAt model requests node a b = true)
    (hbc : dominatesAt model requests node b c = true) :
    dominatesAt model requests node a c = true :=
  Plan.dominates_score_iff.2 ((Plan.dominates_score_iff.1 hab).trans
    (Plan.dominates_score_iff.1 hbc))

theorem mem_placed_iff {i : Nat} {x : Plan α} (hx : candidates[i]? = some x) :
    (x, i) ∈ placed model requests node candidates ↔ ¬ ∃ j y, j ≠ i ∧
      candidates[j]? = some y ∧ y.Dominates model requests node x ∧
        (¬ x.Dominates model requests node y ∨ j < i) := by
  unfold placed
  rw [mem_foldl_receiveBy_iff (dominatesAt_trans model requests node) (pairwise_zipIdx candidates),
    and_iff_right (List.mem_zipIdx_iff_getElem?.2 hx), not_iff_not]
  unfold Outdone dominatesAt
  constructor
  · rintro ⟨⟨y, j⟩, hy, hne, hdom, hback⟩
    refine ⟨j, y, hne, List.mem_zipIdx_iff_getElem?.1 hy, Plan.dominates_score_iff.1 hdom, ?_⟩
    refine hback.imp_left fun hback h => ?_
    rw [Plan.dominates_score_iff.2 h] at hback
    simp at hback
  · rintro ⟨j, y, hne, hy, hdom, hback⟩
    refine ⟨(y, j), List.mem_zipIdx_iff_getElem?.2 hy, hne, Plan.dominates_score_iff.2 hdom, ?_⟩
    refine hback.imp_left fun hback => ?_
    rw [Bool.eq_false_iff]
    exact fun h => hback (Plan.dominates_score_iff.1 h)

theorem pruned_placed (model : CostModel α) (requests : List (Request α)) (node : NodeId)
    (candidates : List (Plan α)) : Pruned model requests node candidates
    ((placed model requests node candidates).map (·.1))
    ((placed model requests node candidates).map (·.2)) where
  ascending := List.pairwise_map.2 ((pairwise_zipIdx candidates).sublist (placed_sublist _ _ _ _))
  kept_eq := by
    rw [List.map_map, List.map_map]
    exact List.map_congr_left fun e he => (getElem?_of_mem_placed he).symm
  mem_iff i x hx := by
    rw [← mem_placed_iff hx]
    constructor
    · intro hi
      obtain ⟨e, he, rfl⟩ := List.mem_map.1 hi
      obtain rfl := Option.some.inj ((getElem?_of_mem_placed he).symm.trans hx)
      exact he
    · exact fun hi => List.mem_map.2 ⟨(x, i), hi, rfl⟩

omit [Quantity.Transitive α] in
/-- Of two candidates that are left neither dominates the other. -/
theorem Pruned.undominated {kept : List (Plan α)} {places : List Nat}
    (h : Pruned model requests node candidates kept places) {i j : Nat} (hi : i ∈ places)
    (hj : j ∈ places) (hne : i ≠ j) {x y : Plan α} (hx : candidates[i]? = some x)
    (hy : candidates[j]? = some y) : ¬ x.Dominates model requests node y := by
  intro hxy
  have hi' := (h.mem_iff i x hx).1 hi
  have hj' := (h.mem_iff j y hy).1 hj
  -- Each would be left out for the other: they dominate each other, and one stands earlier.
  have hyx : y.Dominates model requests node x := by
    by_contra hnot
    exact hj' ⟨i, x, hne, hx, hxy, .inl hnot⟩
  rcases Nat.lt_or_gt_of_ne hne with hlt | hlt
  · exact hj' ⟨i, x, hne, hx, hxy, .inr hlt⟩
  · exact hi' ⟨j, y, hne.symm, hy, hyx, .inr hlt⟩

/-- What is left out is dominated by something that is kept. -/
theorem exists_mem_placed (model : CostModel α) (requests : List (Request α)) (node : NodeId)
    {i : Nat} {x : Plan α} (hx : candidates[i]? = some x) :
    ∃ e ∈ placed model requests node candidates,
      e = (x, i) ∨ e.1.Dominates model requests node x := by
  have hmem : (x, i) ∈ candidates.zipIdx := List.mem_zipIdx_iff_getElem?.2 hx
  obtain ⟨e, he, h⟩ :=
    exists_mem_foldl_receiveBy (dominatesAt_trans model requests node) hmem
  exact ⟨e, he, h.imp_right Plan.dominates_score_iff.1⟩

/-- Pruning what is left leaves all of it. -/
theorem prune_prune : prune model requests node (prune model requests node candidates).1 =
    ((prune model requests node candidates).1, 0) := by
  have hpruned := pruned_placed model requests node candidates
  rw [show (prune model requests node candidates).1 =
    (placed model requests node candidates).map (·.1) by rw [prune_eq]]
  generalize hplaced : placed model requests node candidates = left at hpruned
  have hapart : (left.map fun e => e.1.score model requests node).Pairwise fun a b =>
      Scored.dominates a b = false ∧ Scored.dominates b a = false := by
    rw [List.pairwise_map]
    have hascending : left.Pairwise fun a b => a.2 < b.2 := List.pairwise_map.1 hpruned.ascending
    refine hascending.imp_of_mem fun {a b} ha hb hlt => ?_
    have hget : ∀ {e}, e ∈ left → candidates[e.2]? = some e.1 := fun he =>
      getElem?_of_mem_placed (hplaced ▸ he)
    have hplace : ∀ {e}, e ∈ left → e.2 ∈ left.map (·.2) := fun he => List.mem_map_of_mem he
    rw [Bool.eq_false_iff, Bool.eq_false_iff, ne_eq, ne_eq, Plan.dominates_score_iff,
      Plan.dominates_score_iff]
    exact ⟨hpruned.undominated (hplace ha) (hplace hb) (Nat.ne_of_lt hlt) (hget ha) (hget hb),
      hpruned.undominated (hplace hb) (hplace ha) (Nat.ne_of_gt hlt) (hget hb) (hget ha)⟩
  have hscored : (left.map (·.1)).map (Plan.score model requests node) =
      left.map fun e => e.1.score model requests node := List.map_map
  unfold prune
  rw [hscored, Scored.receive_eq, foldl_receiveBy_of_pairwise _ [] hapart,
    List.nil_append, List.length_map]
  dsimp only
  rw [List.length_map, Nat.sub_self, List.map_map]
  rfl

/-- Pruning leaves exactly the candidates that no other one dominates, up to ties, of which the
first stays. So what is left out is dominated by something that is kept, nothing that is kept
dominates anything else that is, candidates of unknown total are kept, whatever is chosen above
stays possible at a total that is no larger, and pruning once more changes nothing. -/
theorem prune_exact (model : CostModel α) (requests : List (Request α)) (node : NodeId)
    (candidates : List (Plan α)) : ∃ places,
      Pruned model requests node candidates (prune model requests node candidates).1 places ∧
      (prune model requests node candidates).2 + places.length = candidates.length ∧
      (∀ i x, candidates[i]? = some x → i ∉ places →
        ∃ j ∈ places, ∃ y, candidates[j]? = some y ∧ y.Dominates model requests node x) ∧
      (∀ i ∈ places, ∀ j ∈ places, i ≠ j → ∀ x y, candidates[i]? = some x →
        candidates[j]? = some y → ¬ x.Dominates model requests node y) ∧
      (∀ i x, candidates[i]? = some x → model.total x.cumulative = none → i ∈ places) ∧
      (∀ x ∈ candidates, ∃ y ∈ (prune model requests node candidates).1, y.AgreeAbove node x ∧
        ∀ a, model.total x.cumulative = some a →
          ∃ b, model.total y.cumulative = some b ∧ (b = a ∨ Quantity.le b a = true)) ∧
      (∀ i j x y, i < j → candidates[i]? = some x → candidates[j]? = some y →
        x.Dominates model requests node y → y.Dominates model requests node x → j ∉ places) ∧
      prune model requests node (prune model requests node candidates).1 =
        ((prune model requests node candidates).1, 0) := by
  have hpruned := pruned_placed model requests node candidates
  have hlength : (placed model requests node candidates).length ≤ candidates.length := by
    have hle := (placed_sublist model requests node candidates).length_le
    rwa [List.length_zipIdx] at hle
  refine ⟨(placed model requests node candidates).map (·.2), ?_, ?_, ?_, ?_, ?_, ?_, ?_,
    prune_prune⟩
  · rw [prune_eq]
    exact hpruned
  · rw [prune_eq, List.length_map]
    exact Nat.sub_add_cancel hlength
  · intro i x hx hi
    obtain ⟨e, he, rfl | hdom⟩ := exists_mem_placed model requests node hx
    · exact absurd (List.mem_map.2 ⟨(x, i), he, rfl⟩) hi
    · exact ⟨e.2, List.mem_map_of_mem he, e.1, getElem?_of_mem_placed he, hdom⟩
  · intro i hi j hj hne x y hx hy
    exact hpruned.undominated hi hj hne hx hy
  · intro i x hx hunknown
    rw [hpruned.mem_iff i x hx]
    rintro ⟨j, y, -, -, hdom, -⟩
    obtain ⟨-, b, -, hb, -⟩ := hdom.total_le
    rw [hunknown] at hb
    simp at hb
  · intro x hx
    obtain ⟨i, hi⟩ := List.mem_iff_getElem?.1 hx
    obtain ⟨e, he, h⟩ := exists_mem_placed model requests node hi
    rw [prune_eq]
    refine ⟨e.1, List.mem_map_of_mem he, ?_⟩
    rcases h with rfl | hdom
    · exact ⟨fun _ _ => rfl, fun a ha => ⟨a, ha, .inl rfl⟩⟩
    · refine ⟨hdom.agree, fun a ha => ?_⟩
      obtain ⟨b, a', hb, ha', hle⟩ := hdom.total_le
      obtain rfl := Option.some.inj (ha.symm.trans ha')
      exact ⟨b, hb, .inr hle⟩
  · intro i j x y hlt hx hy hxy hyx hj
    exact (hpruned.mem_iff j y hy).1 hj ⟨i, x, Nat.ne_of_lt hlt, hx, hxy, .inr hlt⟩

end

/-- A candidate of node 9 with a price and a placement. -/
def rival (id : PlanId) (cpu : Option Float) (placement : Placement) : Plan Float :=
  let cost : Cost Float := ⟨some 0, some 0, cpu⟩
  { id, node := 9, name := "n", driver := .map, inputs := [], placement, arrangement := .unordered
    own := cost, cumulative := cost, choices := .empty }

/-- Six candidates that make no choices: the second one is dropped for the first one, which gives way
to the fourth one, with which the last one ties. -/
def rivals : List (Plan Float) :=
  [rival 1 (some 300) .any, rival 2 (some 400) .any, rival 3 (some 500) (.hashed (.ofList [0])),
    rival 4 (some 100) .any, rival 5 none .any, rival 6 (some 100) .any]

/-- The costlier candidate that is hashed as asked stays, and so does the one whose total is not
known. -/
theorem prune_exact_rivals :
    (prune (CostModel.standard defaultWeights) [.partitioned (.ofList [0])] 9 rivals).1.map (·.id) =
      [3, 4, 5] ∧
    ∃ places, places.length = 3 ∧
      Pruned (CostModel.standard defaultWeights) [.partitioned (.ofList [0])] 9 rivals
        (prune (CostModel.standard defaultWeights) [.partitioned (.ofList [0])] 9 rivals).1
          places := by
  refine ⟨by decide +kernel, ?_⟩
  obtain ⟨places, hpruned, hcount, -⟩ :=
    prune_exact (CostModel.standard defaultWeights) [.partitioned (.ofList [0])] 9 rivals
  have hleft : (prune (CostModel.standard defaultWeights) [.partitioned (.ofList [0])] 9
      rivals).2 = 3 := by decide +kernel
  rw [hleft] at hcount
  exact ⟨places, Nat.add_left_cancel hcount, hpruned⟩

end FlowPlanner
