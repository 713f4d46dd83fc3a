/-
FlowPlanner.Proofs.Analysis.Requests — which requests connections can carry.

A request starts as one that a driver likes and is handed from consumers to producers:
by a union as it is, by other nodes through their contract (`Graph.Origin`). What holds
of all drivers' requests and survives both holds of every request on every connection
(`Graph.requestsOver_induct`). One such thing is that a request can be met at all: it
asks for something, never for hashing on nothing, and never for an order and a grouping
at once (`Request.WellFormed`). No connection carries a request twice, since requests
are merged wherever they come together (`Request.Distinct.mergeAll`).
-/
import FlowPlanner.Proofs.Analysis.Demand
import FlowPlanner.Proofs.Optimizer
import FlowPlanner.Proofs.Search.Alternatives

namespace FlowPlanner

variable {α : Type}

/-! ## §1 Where a request comes from -/

theorem Request.mem_of_mem_mergeAll {extra : List (Request α)} {r : Request α} :
    ∀ {rs : List (Request α)}, r ∈ mergeAll rs extra → r ∈ rs ∨ r ∈ extra := by
  induction extra with
  | nil => exact fun h => .inl h
  | cons s extra ih =>
    intro rs h
    have hmerged : r ∈ merge rs s ∨ r ∈ extra := ih h
    rcases hmerged with h | h
    · unfold merge at h
      split at h
      · exact .inl h
      · rcases List.mem_append.1 h with h | h
        · exact .inl h
        · exact .inr (List.mem_cons.2 (.inl (List.mem_singleton.1 h)))
    · exact .inr (List.mem_cons_of_mem s h)

/-- What is asked of a node's output is asked over a connection that leaves it. -/
theorem Graph.exists_outgoing_of_mem_requestedOf {g : Graph} {demand : Demand α} {n : NodeId}
    {r : Request α} (h : r ∈ g.requestedOf demand n) :
    ∃ d ∈ g.outgoing n, r ∈ demand.getD d.id [] := by
  unfold requestedOf at h
  revert h
  refine List.foldlRecOn (motive := fun rs => r ∈ rs → ∃ d ∈ g.outgoing n, r ∈ demand.getD d.id [])
    _ _ (by simp) ?_
  intro rs ih d hd h
  rcases Request.mem_of_mem_mergeAll h with h | h
  · exact ih h
  · exact ⟨d, hd, h⟩

variable [Quantity α]

/-- What a node asks of an input is its own request, or one on its output that it hands on: as it
is, if the node is a union, and otherwise what its contract leaves of it. -/
theorem Node.cases_of_mem_inputRequests {n : Node} {input : Nat} {requested : List (Request α)}
    {r : Request α} (h : r ∈ n.inputRequests input requested) :
    (n.kind = .operator .union ∧ r ∈ requested) ∨ r ∈ n.ownRequests input ∨
      n.contract.input = input ∧
        ∃ s ∈ requested, s.through? n.contract (n.keyFields input) = some r := by
  unfold inputRequests at h
  split at h
  · rename_i hkind
    exact .inl ⟨hkind, h⟩
  · simp at h
  · dsimp only at h
    split at h
    · rename_i hkeeps
      rw [Bool.and_eq_true, beq_iff_eq] at hkeeps
      rcases Request.mem_of_mem_mergeAll h with h | h
      · exact .inr (.inl h)
      · exact .inr (.inr ⟨hkeeps.2, List.mem_filterMap.1 h⟩)
    · exact .inr (.inl h)

namespace Graph

/-- Where a request over a connection that enters a node comes from: the node's driver likes it, or
it is asked of the node's output and handed on. -/
inductive Origin (g : Graph) (a : Analysis α) (n : NodeId) (c : Connection) : Request α → Prop
  | own {r : Request α} (h : r ∈ (g.node n).ownRequests c.position) (price : Cost α) :
    Origin g a n c { r with price }
  | union (hkind : (g.node n).kind = .operator .union) {d : Connection} (hd : d ∈ g.outgoing n)
    {r : Request α} (h : r ∈ a.requestsOver d.id) (price : Cost α) : Origin g a n c { r with price }
  | contract (hinput : (g.node n).contract.input = c.position) {d : Connection}
    (hd : d ∈ g.outgoing n) {s r : Request α} (h : s ∈ a.requestsOver d.id)
    (hr : s.through? (g.node n).contract ((g.node n).keyFields c.position) = some r)
    (price : Cost α) : Origin g a n c { r with price }

theorem origin_of_mem_requestsOver {g : Graph} (hg : g.Numbered) (model : CostModel α) {n : NodeId}
    {c : Connection} (hc : c ∈ (g.node n).inputs) {r : Request α}
    (hr : r ∈ (Analysis.complete g model).requestsOver c.id) :
    g.Origin (.complete g model) n c r := by
  have hdemand : (Analysis.complete g model).requestsOver c.id = priced model g.estimates (g.node n)
      (g.requestedOf (g.demand model g.estimates) n) c := getD_demand hg model g.estimates hc
  rw [hdemand] at hr
  obtain ⟨s, hs, rfl⟩ := List.mem_map.1 hr
  rcases Node.cases_of_mem_inputRequests hs with ⟨hkind, hs⟩ | hs | ⟨hinput, t, ht, hthrough⟩
  · obtain ⟨d, hd, hs⟩ := exists_outgoing_of_mem_requestedOf hs
    exact .union hkind hd hs _
  · exact .own hs _
  · obtain ⟨d, hd, ht⟩ := exists_outgoing_of_mem_requestedOf ht
    exact .contract hinput hd ht hthrough _

/-- What holds of the requests of all drivers, whatever their price, and still holds when a union or
a contract hands a request on, holds of every request on every connection. -/
theorem requestsOver_induct {g : Graph} (hg : g.Numbered) (model : CostModel α)
    {P : Connection → Request α → Prop}
    (hown : ∀ n, ∀ c ∈ (g.node n).inputs, ∀ r ∈ (g.node n).ownRequests (α := α) c.position,
      ∀ price, P c { r with price })
    (hunion : ∀ n, (g.node n).kind = .operator .union → ∀ c ∈ (g.node n).inputs,
      ∀ d ∈ g.outgoing n, ∀ r, P d r → ∀ price, P c { r with price })
    (hthrough : ∀ n, ∀ c ∈ (g.node n).inputs, (g.node n).contract.input = c.position →
      ∀ d ∈ g.outgoing n, ∀ s r, P d s →
        s.through? (g.node n).contract ((g.node n).keyFields c.position) = some r →
          ∀ price, P c { r with price })
    {n : NodeId} {c : Connection} (hc : c ∈ (g.node n).inputs) {r : Request α}
    (hr : r ∈ (Analysis.complete g model).requestsOver c.id) : P c r := by
  -- The induction is on what is left of the nodes behind `n`.
  induction hk : g.size - n using Nat.strongRecOn generalizing n c r with
  | _ k ih =>
    have hbehind : ∀ d ∈ g.outgoing n, ∀ s ∈ (Analysis.complete g model).requestsOver d.id,
        P d s := by
      intro d hd s hs
      have hlt := (hg.below_of_outgoing hd (Reaches.refl g d.target)).2
      exact ih _ (hk ▸ Nat.sub_lt_sub_left (lt_size_of_mem hc) hlt) (hg.mem_inputs_target hd).1 hs rfl
    cases origin_of_mem_requestsOver hg model hc hr with
    | own h price => exact hown n c hc _ h price
    | union hkind hd h price => exact hunion n hkind c hc _ hd _ (hbehind _ hd _ h) price
    | contract hinput hd h hleft price =>
      exact hthrough n c hc hinput _ hd _ _ (hbehind _ hd _ h) hleft price

end Graph

/-! ## §2 Requests that can be met -/

/-- A request that something can meet: it asks for anything at all, for hashing on some column if
for hashing, and not for an order and a grouping at once. -/
structure Request.WellFormed (r : Request α) : Prop where
  asks : r.isTrivial = false
  hashed : ∀ fields, r.placement = .hashed fields → fields.isEmpty = false
  single : r.arrangement.ordering = [] ∨ r.arrangement.grouped = none

namespace Request

omit [Quantity α] in
theorem WellFormed.reprice {r : Request α} (h : r.WellFormed) (price : Cost α) :
    ({ r with price } : Request α).WellFormed := ⟨h.asks, h.hashed, h.single⟩

omit [Quantity α] in
/-- A contract leaves of a request one that can still be met, or nothing. -/
theorem WellFormed.through? {s r : Request α} (h : s.WellFormed) {contract : Contract}
    {kept : FieldSet} (hr : s.through? contract kept = some r) : r.WellFormed := by
  have hsingle : ∀ keeps : Bool, ((if keeps then s.arrangement else .unordered).ordering = [] ∨
      (if keeps then s.arrangement else .unordered).grouped = none) := by
    intro keeps
    cases keeps with
    | true => exact h.single
    | false => exact .inl rfl
  obtain ⟨-, hasks, rfl⟩ := through?_eq_some_iff.1 hr
  exact ⟨hasks, h.hashed, hsingle _⟩

end Request

/-- What drivers like on a non-empty list of keys can be met. -/
theorem Node.wellFormed_of_mem_ownRequests {n : Node} {input : Nat} (hkeys : n.keyList input ≠ [])
    {r : Request α} (h : r ∈ n.ownRequests input) : r.WellFormed := by
  have hne := isEmpty_keyFields hkeys
  unfold ownRequests at h
  dsimp only at h
  split at h
  all_goals
    simp only [List.mem_cons, List.not_mem_nil, or_false] at h
  · subst h
    exact ⟨rfl, fun _ hfields => Placement.hashed.inj hfields ▸ hne, .inl rfl⟩
  · subst h
    exact ⟨rfl, fun _ hfields => Placement.hashed.inj hfields ▸ hne, .inl rfl⟩
  · rcases h with rfl | rfl | rfl
    · exact ⟨rfl, fun _ hfields => Placement.hashed.inj hfields ▸ hne, .inl rfl⟩
    · exact ⟨rfl, fun _ hfields => Placement.hashed.inj hfields ▸ hne, .inr rfl⟩
    · exact ⟨rfl, by simp [Request.copied, Request.free], .inl rfl⟩

/-- Every request on a connection of an analysed graph can be met. -/
theorem Graph.wellFormed_of_mem_requestsOver {g : Graph} (hg : g.Numbered) (model : CostModel α)
    {n : NodeId} {c : Connection} (hc : c ∈ (g.node n).inputs) {r : Request α}
    (hr : r ∈ (Analysis.complete g model).requestsOver c.id) : r.WellFormed := by
  refine Graph.requestsOver_induct hg model (P := fun _ r => r.WellFormed) ?_ ?_ ?_ hc hr
  · intro n c hc r hr price
    have hkeys := Node.keyList_ne_nil_of_ownRequests hg hc (List.ne_nil_of_mem hr)
    exact (Node.wellFormed_of_mem_ownRequests hkeys hr).reprice price
  · intro _ _ _ _ _ _ r hr price
    exact hr.reprice price
  · intro _ _ _ _ _ _ s r hs hthrough price
    exact (hs.through? hthrough).reprice price

/-! ## §3 Nothing is asked twice -/

namespace Request

/-- No two of the requests are the same. -/
def Distinct (rs : List (Request α)) : Prop := rs.Pairwise fun r s => r.isSame s = false

omit [Quantity α]

theorem Distinct.merge {rs : List (Request α)} (h : Distinct rs) (r : Request α) :
    Distinct (merge rs r) := by
  unfold Request.merge
  split
  · exact h
  · rename_i hnone
    refine List.pairwise_append.2 ⟨h, List.pairwise_singleton _ r, ?_⟩
    intro s hs t ht
    rw [List.mem_singleton.1 ht]
    by_contra hsame
    exact hnone (List.any_eq_true.2 ⟨s, hs, by simpa using hsame⟩)

/-- Requests put together stay free of repeats. -/
theorem Distinct.mergeAll {rs : List (Request α)} (h : Distinct rs) (extra : List (Request α)) :
    Distinct (mergeAll rs extra) :=
  List.foldlRecOn (motive := Distinct) _ _ h fun _ h r _ => h.merge r

end Request

omit [Quantity α] in
/-- However many consumers ask the same of a node, it gathers one request. -/
theorem Graph.distinct_requestedOf (g : Graph) (demand : Demand α) (n : NodeId) :
    Request.Distinct (g.requestedOf demand n) :=
  List.foldlRecOn (motive := Request.Distinct) _ _ .nil fun _ h _ _ => h.mergeAll _

namespace Node

variable {n : Node} {input : Nat}

/-- Drivers ask for nothing twice; a join asks for hashing alone and with a sort, which differ where
there is a key to sort by. -/
theorem distinct_ownRequests (hkeys : n.keyList input ≠ []) :
    Request.Distinct (n.ownRequests (α := α) input) := by
  unfold ownRequests Request.Distinct
  dsimp only
  split
  · exact List.pairwise_singleton _ _
  · exact List.pairwise_singleton _ _
  · simp [Request.isSame, Request.partitioned, Request.copied, Request.free, Arrangement.sorted,
      Arrangement.unordered, Ne.symm hkeys]
  · exact .nil

theorem distinct_inputRequests {requested : List (Request α)}
    (hown : Request.Distinct (n.ownRequests (α := α) input))
    (hrequested : Request.Distinct requested) :
    Request.Distinct (n.inputRequests input requested) := by
  unfold inputRequests
  split
  · exact hrequested
  · exact .nil
  · dsimp only
    split
    · exact hown.mergeAll _
    · exact hown

end Node

/-- No connection of an analysed graph carries a request twice. -/
theorem Graph.distinct_requestsOver {g : Graph} (hg : g.Numbered) (model : CostModel α)
    {n : NodeId} {c : Connection} (hc : c ∈ (g.node n).inputs) :
    Request.Distinct ((Analysis.complete g model).requestsOver c.id) := by
  have hown : Request.Distinct ((g.node n).ownRequests (α := α) c.position) := by
    by_cases hnil : (g.node n).ownRequests (α := α) c.position = []
    · rw [hnil]
      exact .nil
    · exact Node.distinct_ownRequests (Node.keyList_ne_nil_of_ownRequests hg hc hnil)
  have hdemand : (Analysis.complete g model).requestsOver c.id = priced model g.estimates (g.node n)
      (g.requestedOf (g.demand model g.estimates) n) c := getD_demand hg model g.estimates hc
  rw [hdemand]
  -- The price has no part in whether requests are the same.
  exact List.pairwise_map.2 (Node.distinct_inputRequests hown (g.distinct_requestedOf _ n))

/-! ## §4 Requests of consumers -/

omit [Quantity α] in
/-- What a contract passes on mentions kept columns only. -/
theorem Request.mentioned_subset_of_through? {s r : Request α} {contract : Contract}
    {kept : FieldSet} (h : s.through? contract kept = some r) : r.mentioned.subset kept = true := by
  obtain ⟨⟨-, hkept⟩, -, rfl⟩ := through?_eq_some_iff.1 h
  rw [FieldSet.subset_iff] at hkept ⊢
  intro f hf
  rcases FieldSet.mem_union.1 hf with hf | hf
  · exact hkept f (FieldSet.mem_union.2 (.inl hf))
  · dsimp only at hf
    split at hf
    · exact hkept f (FieldSet.mem_union.2 (.inr hf))
    · simp [Arrangement.mentioned, Arrangement.unordered] at hf

/-- The requests over a connection that enters a node are free of repeats, can be met, and have a
reason: what the node does not like itself a consumer asks of it. -/
structure Graph.WellAsked (g : Graph) (a : Analysis α) (n : NodeId) (c : Connection) : Prop where
  distinct : Request.Distinct (a.requestsOver c.id)
  wellFormed : ∀ r ∈ a.requestsOver c.id, r.WellFormed
  /-- Unions apart, a request that is none of the node's own is about key columns of the input, and
  is what the contract of the node leaves of a request over a connection that leaves the node. -/
  handedOn : (g.node n).kind ≠ .operator .union → ∀ r ∈ a.requestsOver c.id,
    (∀ s ∈ (g.node n).ownRequests (α := α) c.position, s.isSame r = false) →
      r.mentioned.subset ((g.node n).keyFields c.position) = true ∧
        (g.node n).contract.input = c.position ∧
          ∃ d ∈ g.outgoing n, ∃ s ∈ a.requestsOver d.id,
            s.through? (g.node n).contract ((g.node n).keyFields c.position) =
              some { r with price := s.price }

/-- Every connection of a job that was laid out and analysed is asked over in this way. -/
theorem prepared_requests_wellAsked {o : Optimizer α} {job : Job} {p : Problem α}
    (h : o.prepare job = .ok p) {n : NodeId} {c : Connection}
    (hc : c ∈ (p.graph.node n).inputs) : p.graph.WellAsked p.analysis n c := by
  have hp := o.prepared h
  have hg := hp.wellFormed.toNumbered
  rw [hp.analysis_eq]
  refine ⟨Graph.distinct_requestsOver hg p.model hc,
    fun r hr => Graph.wellFormed_of_mem_requestsOver hg p.model hc hr, ?_⟩
  intro hkind r hr hnone
  cases Graph.origin_of_mem_requestsOver hg p.model hc hr with
  | @own s hs price =>
    have hsame : s.isSame { s with price } = true := s.isSame_refl
    rw [hnone s hs] at hsame
    simp at hsame
  | union hunion => exact absurd hunion hkind
  | @contract hinput d hd s r hs hthrough price =>
    have hmentioned := Request.mentioned_subset_of_through? hthrough
    refine ⟨hmentioned, hinput, d, hd, s, hs, ?_⟩
    have hprice : r.price = s.price := by
      obtain ⟨-, -, rfl⟩ := Request.through?_eq_some_iff.1 hthrough
      rfl
    rw [hthrough, ← hprice]

/-- A grouping that a join and a second grouping read; the second one groups on the same columns. -/
def sharedGrouping : Job where
  operators :=
    [{ id := 1, name := "in", kind := .source {} },
     { id := 2, name := "agg", kind := .reduce, inputs := [[1]], keys := [[0, 1]]
       contract := .sameKey },
     { id := 3, name := "other", kind := .source {} },
     { id := 4, name := "pairs", kind := .equiJoin, inputs := [[2], [3]], keys := [[0], [0]] },
     { id := 5, name := "again", kind := .reduce, inputs := [[2]], keys := [[1, 0]] },
     { id := 6, name := "all", kind := .union, inputs := [[4, 5]] },
     { id := 7, name := "out", kind := .sink, inputs := [[6]] }]

/-- The first grouping asks for its columns itself, and so does the second one, which counts once;
the other three requests are those of the join. -/
theorem prepared_requests_wellAsked_sharedGrouping : ∃ p,
    Optimizer.ofDefaults.prepare sharedGrouping = .ok p ∧ ∃ c ∈ (p.graph.node 1).inputs,
      (p.analysis.requestsOver c.id).map (·.placement) =
        [.hashed (.ofList [0, 1]), .hashed (.ofList [0]), .hashed (.ofList [0]), .replicated] ∧
          p.graph.WellAsked p.analysis 1 c := by
  obtain ⟨p, hprepare, hcheck⟩ := exists_ok_of_any
    (r := Optimizer.ofDefaults.prepare sharedGrouping)
    (f := fun p => (p.graph.node 1).inputs.any fun c =>
      (p.analysis.requestsOver c.id).map (·.placement) ==
        [.hashed (.ofList [0, 1]), .hashed (.ofList [0]), .hashed (.ofList [0]), .replicated])
    (by decide +kernel)
  simp only [List.any_eq_true, beq_iff_eq] at hcheck
  obtain ⟨c, hc, hrequests⟩ := hcheck
  exact ⟨p, hprepare, c, hc, hrequests, prepared_requests_wellAsked hprepare hc⟩

end FlowPlanner
