/-
FlowPlanner.Proofs.Property.Delivery — whether a map delivers what it was asked to pass on.

A request goes up through a contract by the columns that it mentions, and properties come
down by the columns that the data mentions. For placements the two tests fit together:
data that meets a hash request is hashed on a part of its columns
(`Placement.isMetBy_outputThrough`). For arrangements they do not: data may be sorted by
more columns than was asked, and then the contract keeps nothing of the sort, not even the
columns in front that meet the request (`Arrangement.isMetBy_outputThrough_iff`,
`regrouped`). What was sorted as asked is delivered.
-/
import FlowPlanner.Proofs.Optimizer
import FlowPlanner.Proofs.Search.Mirror

namespace FlowPlanner

variable {α : Type}

/-! ## §1 Down through a contract -/

theorem FieldSet.subset_trans {s t u : FieldSet} (h : s.subset t = true) (h' : t.subset u = true) :
    s.subset u = true :=
  subset_iff.2 fun f hf => subset_iff.1 h' f (subset_iff.1 h f hf)

theorem Contract.preservesKeys_of_isSameKey {k : Contract} (h : k.isSameKey = true) :
    k.preservesKeys = true := by
  unfold preservesKeys
  rw [h, Bool.true_or]

/-- What is asked of a placement is met by data hashed on a part of the columns asked for, so a
contract that keeps these keeps the placement. -/
theorem Placement.isMetBy_outputThrough {asked actual : Placement} {arrangement : Arrangement}
    {k : Contract} {kept : FieldSet} (hkeeps : k.preservesKeys = true)
    (hkept : asked.mentioned.subset kept = true) (hmet : asked.isMetBy actual = true) :
    asked.isMetBy (outputThrough actual arrangement k kept).1 = true := by
  have hactual : asked = .any ∨ actual.mentioned.subset kept = true := by
    cases asked with
    | any => exact .inl rfl
    | hashed req =>
      cases actual with
      | hashed act =>
        rw [hashed_isMetBy_hashed, Bool.and_eq_true] at hmet
        exact .inr (FieldSet.subset_trans hmet.2 hkept)
      | any => simp at hmet
      | replicated => simp at hmet
    | replicated =>
      cases actual with
      | replicated => exact .inr hkept
      | any => simp [isReplicated] at hmet
      | hashed act => simp [isReplicated] at hmet
  unfold outputThrough
  rw [if_pos hkeeps]
  rcases hactual with rfl | hactual
  · exact any_isMetBy _
  · dsimp only
    rw [if_pos hactual]
    exact hmet

/-- Where keys stay unchanged, an arrangement that meets what is asked comes through if all its
columns are kept. Else nothing of it does, and only what unordered data meets is met. -/
theorem Arrangement.isMetBy_outputThrough_iff {asked actual : Arrangement} {placement : Placement}
    {k : Contract} {kept : FieldSet} (hsame : k.isSameKey = true)
    (hmet : asked.isMetBy actual = true) :
    asked.isMetBy (outputThrough placement actual k kept).2 = true ↔
      actual.mentioned.subset kept = true ∨ asked.isMetBy .unordered = true := by
  unfold outputThrough
  rw [if_pos (Contract.preservesKeys_of_isSameKey hsame), hsame, Bool.true_and]
  dsimp only
  cases hactual : actual.mentioned.subset kept with
  | true => simp [hmet]
  | false => simp

/-! ## §2 Maps -/

/-- A request that a contract passes on is about kept columns, and is passed on with its placement,
and with its arrangement where keys stay unchanged. -/
theorem Request.through?_eq_some {r r' : Request α} {k : Contract} {kept : FieldSet}
    (h : r.through? k kept = some r') : r.mentioned.subset kept = true ∧
      r'.placement = r.placement ∧ (k.isSameKey = true → r'.arrangement = r.arrangement) := by
  obtain ⟨⟨-, hkept⟩, -, rfl⟩ := through?_eq_some_iff.1 h
  exact ⟨hkept, rfl, fun hsame => if_pos hsame⟩

/-- The output of a map whose contract speaks of its input: what the contract lets through. -/
theorem Node.output_map {n : Node} (hkind : n.kind = .operator .map) (hinput : n.contract.input = 0)
    (driver : Driver) (c : Channel (Plan α)) :
    n.output ⟨driver, [c]⟩ =
      outputThrough c.placement c.arrangement n.contract (n.keyFields 0) := by
  have hreplicated : ∀ kept, (outputThrough c.placement c.arrangement n.contract kept).1.isReplicated
      = true → c.placement.isReplicated = true := by
    intro kept h
    unfold outputThrough at h
    split at h
    · dsimp only at h
      split at h
      · exact h
      · simp [Placement.isReplicated] at h
    · simp [Placement.isReplicated] at h
  unfold output
  rw [hkind]
  dsimp only
  unfold contractOutput
  rw [hinput]
  dsimp only [List.getElem?_cons_zero]
  rw [if_pos rfl, if_neg]
  simp only [List.any_cons, List.any_nil, Bool.or_false, Bool.and_eq_true, Bool.not_eq_true']
  rintro ⟨h, hnot⟩
  rw [hreplicated _ h] at hnot
  simp at hnot

/-- A map that is asked over its contract, on a channel that meets what it passed on, meets what is
asked of its placement. Where keys stay unchanged, it meets what is asked of its arrangement exactly
if the channel is arranged by kept columns only, or unordered data would do. -/
theorem Request.delivered_by_map [Quantity α] {n : Node} (hkind : n.kind = .operator .map)
    (hkeeps : n.contract.preservesKeys = true) (hinput : n.contract.input = 0) {r r' : Request α}
    (hr : r.through? n.contract (n.keyFields 0) = some r') {c : Channel (Plan α)}
    (hmet : r'.isMetBy c.placement c.arrangement = true) (sizeOf : NodeId → Option α) :
    ∃ alt, n.alternatives sizeOf [c] = [alt] ∧
      r.placement.isMetBy (n.output alt).1 = true ∧
        (n.contract.isSameKey = true → (r.arrangement.isMetBy (n.output alt).2 = true ↔
          c.arrangement.mentioned.subset (n.keyFields 0) = true ∨
            r.arrangement.isMetBy .unordered = true)) := by
  obtain ⟨hkept, hplacement, harrangement⟩ := through?_eq_some hr
  have hkept' : r.placement.mentioned.subset (n.keyFields 0) = true :=
    FieldSet.subset_iff.2 fun f hf =>
      FieldSet.subset_iff.1 hkept f (FieldSet.mem_union.2 (.inl hf))
  have halone : n.alternatives sizeOf [c] = [⟨.map, [c]⟩] := by
    unfold Node.alternatives
    rw [hkind]
  unfold isMetBy at hmet
  rw [Bool.and_eq_true, hplacement] at hmet
  refine ⟨_, halone, ?_, ?_⟩
  · rw [Node.output_map hkind hinput]
    exact Placement.isMetBy_outputThrough hkeeps hkept' hmet.1
  · intro hsame
    rw [Node.output_map hkind hinput]
    exact Arrangement.isMetBy_outputThrough_iff hsame (harrangement hsame ▸ hmet.2)

/-- Groups on two columns, which a map that keeps the first one reads, and then groups on that. -/
def regrouped : Job where
  operators :=
    [{ id := 1, name := "in"
       kind := .source { statistics := { records := some 4, bytes := some 64 } } },
     { id := 2, name := "wide", kind := .reduce, inputs := [[1]], keys := [[0, 1]]
       contract := .sameKey },
     { id := 3, name := "tag", kind := .map, inputs := [[2]], keys := [[0]], contract := .sameKey },
     { id := 4, name := "narrow", kind := .reduce, inputs := [[3]], keys := [[0]] },
     { id := 5, name := "out", kind := .sink, inputs := [[4]] }]

/-- The map of the job was asked for something that it passed on, and a plan of it reads a channel
that meets what was passed on; the test is of these three. -/
def Problem.tagMeets [Quantity α] (p : Problem α)
    (test : Request α → Plan α → Channel (Plan α) → Bool) : Bool :=
  let tag := p.graph.node 2
  tag.kind.name == "map" && tag.contract == .sameKey && tag.keyFields 0 == .ofList [0] &&
    (p.analysis.requestsOn 2).any fun r => (r.through? tag.contract (tag.keyFields 0)).any fun r' =>
      (p.candidates p.graph.root {}).2.made.toList.any fun q => q.node == 2 &&
        q.inputs.length == 1 && q.inputs.any fun c =>
          r'.isMetBy c.placement c.arrangement && test r q c

theorem NodeKind.eq_map_of_name_eq {kind : NodeKind} (h : kind.name = "map") :
    kind = .operator .map := by
  cases kind with
  | sinkJoiner => simp [name] at h
  | operator kind => cases kind <;> simp_all [name, Kind.name]

theorem Problem.exists_of_tagMeets [Quantity α] {p : Problem α}
    {test : Request α → Plan α → Channel (Plan α) → Bool} (h : p.tagMeets test = true) :
    ((p.graph.node 2).kind = .operator .map ∧ (p.graph.node 2).contract = .sameKey ∧
      (p.graph.node 2).keyFields 0 = .ofList [0]) ∧
        ∃ r ∈ p.analysis.requestsOn 2, ∃ r', r.through? (p.graph.node 2).contract
            ((p.graph.node 2).keyFields 0) = some r' ∧
          ∃ q ∈ (p.candidates p.graph.root {}).2.made, q.node = 2 ∧ ∃ c, q.inputs = [c] ∧
            r'.isMetBy c.placement c.arrangement = true ∧ test r q c = true := by
  unfold tagMeets at h
  simp only [Bool.and_eq_true, beq_iff_eq, List.any_eq_true, Option.any_eq_true,
    Array.mem_toList_iff] at h
  obtain ⟨⟨⟨hname, hcontract⟩, hkeys⟩, r, hr, r', hthrough, q, hq, ⟨hnode, hlength⟩, c, hc, hmet,
    htest⟩ := h
  obtain ⟨d, hinputs⟩ := List.length_eq_one_iff.1 hlength
  rw [hinputs, List.mem_singleton] at hc
  subst hc
  exact ⟨⟨NodeKind.eq_map_of_name_eq hname, hcontract, hkeys⟩, r, hr, r', hthrough, q, hq, hnode, c,
    hinputs, hmet, htest⟩

/-- Where nothing is dropped, one plan of the map reads data that was sorted anew by the column asked
for. What the groups below ask of the map holds of its output. -/
theorem Request.delivered_by_map_regrouped : ∃ p,
    (Optimizer.ofUnitWeights.withLimits false none none).prepare regrouped = .ok p ∧
      ∃ r ∈ p.analysis.requestsOn 2, ∃ q ∈ (p.candidates p.graph.root {}).2.made, ∃ c alt,
        q.inputs = [c] ∧ c.arrangement = .sorted [0] ∧ r.arrangement = .groupedBy (.ofList [0]) ∧
          (p.graph.node 2).alternatives (fun _ => none) [c] = [alt] ∧
            r.placement.isMetBy ((p.graph.node 2).output alt).1 = true ∧
              r.arrangement.isMetBy ((p.graph.node 2).output alt).2 = true := by
  obtain ⟨p, hprepare, hcheck⟩ := exists_ok_of_any
    (r := (Optimizer.ofUnitWeights.withLimits false none none).prepare regrouped)
    (f := fun p => p.tagMeets fun r _ c =>
      c.arrangement == .sorted [0] && r.arrangement == .groupedBy (.ofList [0]))
    (by decide +kernel)
  obtain ⟨⟨hkind, hcontract, hkeys⟩, r, hr, r', hthrough, q, hq, -, c, hinputs, hmet, htest⟩ :=
    Problem.exists_of_tagMeets hcheck
  rw [Bool.and_eq_true, beq_iff_eq, beq_iff_eq] at htest
  obtain ⟨alt, halt, hplacement, harrangement⟩ := Request.delivered_by_map hkind
    (by rw [hcontract]; rfl) (by rw [hcontract]; rfl) hthrough hmet (fun _ => none)
  refine ⟨p, hprepare, r, hr, q, hq, c, alt, hinputs, htest.1, htest.2, halt, hplacement, ?_⟩
  refine (harrangement (by rw [hcontract]; rfl)).2 (.inl ?_)
  rw [htest.1, hkeys]
  decide

/-- The one plan of the map that is kept reads data that is sorted by both columns, and so is grouped
as the map was asked to pass on. Its output counts as unordered, so the groups below sort again. -/
theorem Request.longer_sort_lost_regrouped : ∃ p,
    Optimizer.ofUnitWeights.prepare regrouped = .ok p ∧
      ((p.graph.node 2).kind = .operator .map ∧ (p.graph.node 2).contract = .sameKey ∧
        (p.graph.node 2).contract.preservesKeys = true ∧ (p.graph.node 2).contract.input = 0) ∧
        ∃ r ∈ p.analysis.requestsOn 2, ∃ r', r.through? (p.graph.node 2).contract
            ((p.graph.node 2).keyFields 0) = some r' ∧
          ∃ q ∈ (p.candidates p.graph.root {}).2.made, q.node = 2 ∧ ∃ c, q.inputs = [c] ∧
            r'.isMetBy c.placement c.arrangement = true ∧
              (p.graph.node 2).output ⟨.map, [c]⟩ = (q.placement, q.arrangement) ∧
                r.arrangement.isMetBy q.arrangement = false := by
  obtain ⟨p, hprepare, hcheck⟩ := exists_ok_of_any
    (r := Optimizer.ofUnitWeights.prepare regrouped)
    (f := fun p => p.tagMeets fun r q c =>
      (p.graph.node 2).output ⟨.map, [c]⟩ == (q.placement, q.arrangement) &&
        r.arrangement.isMetBy q.arrangement == false)
    (by decide +kernel)
  obtain ⟨⟨hkind, hcontract, -⟩, r, hr, r', hthrough, q, hq, hnode, c, hinputs, hmet, htest⟩ :=
    Problem.exists_of_tagMeets hcheck
  rw [Bool.and_eq_true, beq_iff_eq, beq_iff_eq] at htest
  exact ⟨p, hprepare, ⟨hkind, hcontract, by rw [hcontract]; rfl, by rw [hcontract]; rfl⟩, r, hr, r',
    hthrough, q, hq, hnode, c, hinputs, hmet, htest⟩

end FlowPlanner
