/-
FlowPlanner.Proofs.Graph.Growth — one more reader of a node.

Of two graphs with the same first nodes the second one lets one more connection leave
a node, towards something that asks nothing (`Graph.Grows`). What is estimated goes
down from the sources, so the first nodes keep their estimates; what is asked comes up
from the readers, and the new reader asks nothing, so they are asked for the same. A
fork is tracked by the connections that leave it, and these are the same for every
node above the one that is read once more: above it, forks are open where they were.
-/
import FlowPlanner.Proofs.Analysis.Demand
import FlowPlanner.Proofs.Graph.Forks
import FlowPlanner.Proofs.Graph.Sinks

namespace FlowPlanner

namespace Graph

/-- The estimate of a node depends on what is estimated of its sources. -/
theorem estimate_congr {α : Type} [Quantity α] (before after : Array (Estimates α)) (node : Node)
    (h : ∀ c ∈ node.inputs, before.getD c.source .unknown = after.getD c.source .unknown) :
    node.estimate (node.inputs.map fun c => before.getD c.source .unknown) =
      node.estimate (node.inputs.map fun c => after.getD c.source .unknown) := by
  rw [List.map_congr_left h]

/-- What is estimated of a node follows from what is estimated of its sources. -/
theorem estimates_getD {α : Type} [Quantity α] {g : Graph} (hg : g.Numbered) {n : NodeId}
    (hn : n < g.size) : (g.estimates : Array (Estimates α)).getD n .unknown =
      (g.node n).estimate
        ((g.node n).inputs.map fun c => g.estimates.getD c.source .unknown) :=
  getD_sweep hg estimate_congr hn

/-! ## §1 What stays and what is new -/

/-- The second graph has the first `k` nodes of the first one. Beyond them one more connection
leaves the node `n`, an operator that is no sink, towards nodes that ask nothing; all else that
reads one of the first nodes reads what ends a branch. -/
structure Grows (g g' : Graph) (k n : NodeId) : Prop where
  numbered : g.Numbered
  numbered' : g'.Numbered
  le_size : k ≤ g.size
  le_size' : k ≤ g'.size
  lt : n < k
  works : (g.node n).kind.works = true
  node_eq : ∀ m < k, g'.node m = g.node m
  target_lt : ∀ m < k, ¬ g.EndsAt m → ∀ c ∈ g.outgoing m, c.target < k
  outgoing_eq : ∃ e, ¬ g'.Works e.target ∧ (∃ x, e ∈ (g'.node x).inputs) ∧
    ∀ m < k, ¬ g.EndsAt m → g'.outgoing m = g.outgoing m ++ if m = n then [e] else []
  idle : ∀ m < k, g.EndsAt m → ¬ g.Works m ∧ ¬ g'.Works m

namespace Grows

variable {g g' : Graph} {k n : NodeId} (h : g.Grows g' k n)

include h

theorem source_lt {m : NodeId} (hm : m < k) {c : Connection} (hc : c ∈ (g.node m).inputs) :
    c.source < k :=
  Nat.lt_trans (h.numbered.source_lt m c hc) hm

theorem reaches_lt {m : NodeId} (hm : g.Reaches m n) : m < k :=
  Nat.lt_of_le_of_lt (h.numbered.le_of_reaches hm) h.lt

/-- Above the node no branch ends. -/
theorem not_endsAt {m : NodeId} (hm : g.Reaches m n) : ¬ g.EndsAt m := fun hends =>
  (h.idle m (h.reaches_lt hm) hends).1 ⟨n, hm, h.works⟩

/-! ## §2 What is estimated -/

/-- The first nodes keep their estimates. -/
theorem estimates_eq {α : Type} [Quantity α] {m : NodeId} (hm : m < k) :
    (g'.estimates : Array (Estimates α)).getD m .unknown = g.estimates.getD m .unknown := by
  induction m using Nat.strongRecOn with
  | _ m ih =>
    rw [estimates_getD h.numbered (Nat.lt_of_lt_of_le hm h.le_size),
      estimates_getD h.numbered' (Nat.lt_of_lt_of_le hm h.le_size'), h.node_eq m hm]
    refine congrArg (g.node m).estimate (List.map_congr_left fun c hc => ?_)
    exact ih c.source (h.numbered.source_lt m c hc) (h.source_lt hm hc)

/-! ## §3 What is asked -/

variable {α : Type} [Quantity α]

/-- The first nodes are asked for the same. -/
theorem requestedOf_eq (model : CostModel α) {m : NodeId} (hm : m < k) :
    g'.requestedOf (g'.demand model g'.estimates) m =
      g.requestedOf (g.demand model g.estimates) m := by
  -- The induction is on what is left of the first nodes below `m`.
  induction hd : k - m using Nat.strongRecOn generalizing m with
  | _ d ih =>
    subst hd
    by_cases hends : g.EndsAt m
    · obtain ⟨hidle, hidle'⟩ := h.idle m hm hends
      rw [(quiet_demand h.numbered model).requestedOf_eq_nil h.numbered hidle,
        (quiet_demand h.numbered' model).requestedOf_eq_nil h.numbered' hidle']
    · obtain ⟨e, hworks, ⟨x, hx⟩, hout⟩ := h.outgoing_eq
      have hold : ∀ c ∈ g.outgoing m, (g'.demand model g'.estimates).getD c.id [] =
          (g.demand model g.estimates).getD c.id [] := by
        intro c hc
        have hlt := h.target_lt m hm hends c hc
        obtain ⟨⟨t, ht⟩, hsource⟩ := mem_outgoing_iff.1 hc
        rw [h.numbered.target_eq t c ht] at hlt
        have hmt : m < t := by
          rw [← hsource]
          exact h.numbered.source_lt t c ht
        have ht' : c ∈ (g'.node t).inputs := by
          rw [h.node_eq t hlt]
          exact ht
        rw [getD_demand h.numbered model g.estimates ht,
          getD_demand h.numbered' model g'.estimates ht',
          ih (k - t) (Nat.sub_lt_sub_left hm hmt) hlt rfl, h.node_eq t hlt]
        unfold priced
        rw [h.estimates_eq (h.source_lt hlt ht)]
      have hnew : (g'.demand model g'.estimates).getD e.id [] = [] :=
        quiet_demand h.numbered' model e (mem_connections_iff.2 ⟨x, hx⟩) hworks
      unfold requestedOf
      rw [hout m hm hends, List.foldl_append, List.foldl_ext _ _ [] fun rs c hc => by
        rw [hold c hc]]
      split
      · rw [List.foldl_cons, hnew]
        rfl
      · rfl

/-- Over the connections of the first nodes the same is asked. -/
theorem requestsOver_eq (model : CostModel α) {m : NodeId} (hm : m < k) {c : Connection}
    (hc : c ∈ (g.node m).inputs) : (Analysis.complete g' model).requestsOver c.id =
      (Analysis.complete g model).requestsOver c.id := by
  have hc' : c ∈ (g'.node m).inputs := by
    rw [h.node_eq m hm]
    exact hc
  refine (getD_demand h.numbered' model g'.estimates hc').trans
    (Eq.trans ?_ (getD_demand h.numbered model g.estimates hc).symm)
  rw [h.requestedOf_eq model hm, h.node_eq m hm]
  unfold priced
  rw [h.estimates_eq (h.source_lt hm hc)]

/-- The first nodes are asked for the same altogether. -/
theorem requestsOn_eq (model : CostModel α) {m : NodeId} (hm : m < k) :
    (Analysis.complete g' model).requestsOn m = (Analysis.complete g model).requestsOn m := by
  rw [requestsOn_complete h.numbered' model (Nat.lt_of_lt_of_le hm h.le_size'),
    requestsOn_complete h.numbered model (Nat.lt_of_lt_of_le hm h.le_size)]
  exact h.requestedOf_eq model hm

/-! ## §4 Which forks are open -/

/-- Above the node only the node itself gets a new reader. -/
theorem outgoing_of_reaches {m : NodeId} (hm : g.Reaches m n) (hne : m ≠ n) :
    g'.outgoing m = g.outgoing m := by
  obtain ⟨e, -, -, hout⟩ := h.outgoing_eq
  rw [hout m (h.reaches_lt hm) (h.not_endsAt hm), if_neg hne, List.append_nil]

theorem isFork_of_reaches {m : NodeId} (hm : g.Reaches m n) (hne : m ≠ n) :
    g'.isFork m = g.isFork m := by
  unfold isFork
  rw [h.outgoing_of_reaches hm hne]

/-- A node above that was a fork is one. -/
theorem isFork_mono {m : NodeId} (hm : g.Reaches m n) (hfork : g.isFork m = true) :
    g'.isFork m = true := by
  obtain ⟨e, -, -, hout⟩ := h.outgoing_eq
  unfold isFork at hfork ⊢
  rw [decide_eq_true_eq] at hfork ⊢
  rw [hout m (h.reaches_lt hm) (h.not_endsAt hm), List.length_append]
  exact Nat.lt_of_lt_of_le hfork (Nat.le_add_right _ _)

/-- Above the node and at the node itself the same forks are open. -/
theorem forkStates_eq {m : NodeId} (hm : g.Reaches m n) :
    g'.forkStates.getD m {} = g.forkStates.getD m {} := by
  induction m using Nat.strongRecOn with
  | _ m ih =>
    have hlt := h.reaches_lt hm
    have hsize := Nat.lt_of_lt_of_le hlt h.le_size
    have hbranches : (g.node m).inputs.flatMap (g'.branchesOver g'.forkStates) =
        g.branchesAt m := by
      refine List.flatMap_congr fun c hc => ?_
      have hsource := (reaches_of_mem hc).trans hm
      have hne : c.source ≠ n := by
        rintro rfl
        exact h.numbered.not_reaches_source hc hm
      unfold branchesOver
      rw [ih c.source (h.numbered.source_lt m c hc) hsource, h.isFork_of_reaches hsource hne,
        h.outgoing_of_reaches hsource hne]
    -- What meets at the node comes from forks above it, which are read as before.
    have hclosed : ∀ e ∈ ((g.branchesAt m).foldl meet Table.empty).entries,
        g'.isClosedBy e.1 e.2.1 = g.isClosedBy e.1 e.2.1 := by
      rintro ⟨fork, joined, seen⟩ he
      obtain ⟨-, d, hd, hway⟩ := (exists_meets_iff_openWay h.numbered m hsize).1
        ⟨joined, seen, Table.mem_entries_iff.1 he⟩
      obtain ⟨⟨t, ht⟩, rfl⟩ := mem_outgoing_iff.1 hd
      have hreach := hway.reaches h.numbered
      rw [h.numbered.target_eq t d ht] at hreach
      have htn := hreach.trans hm
      unfold isClosedBy
      rw [h.outgoing_of_reaches ((reaches_of_mem ht).trans htn)]
      rintro rfl
      exact h.numbered.not_reaches_source ht htn
    rw [forkStates_getD h.numbered hsize,
      forkStates_getD h.numbered' (Nat.lt_of_lt_of_le hlt h.le_size'), h.node_eq m hlt]
    unfold forkState
    rw [hbranches]
    unfold branchesAt at hclosed ⊢
    dsimp only
    rw [List.filter_congr fun e he => by rw [hclosed e he],
      List.filter_congr fun e he => hclosed e he]

end Grows

end Graph

end FlowPlanner
