/-
FlowPlanner.Proofs.Analysis.Pricing — requests do not depend on their prices.

A price is written on every request and read by nobody: whether two requests are the
same, what a contract lets through and what a node passes on are decided by placement
and arrangement. So graphs are asked for the same under any two cost models
(`Graph.demand_unpriced`).
-/
import FlowPlanner.Analysis

namespace FlowPlanner

variable {α : Type}

/-! ## §1 Requests -/

namespace Request

/-- The request at an unknown price. -/
def unpriced (r : Request α) : Request α := { r with price := .unknown }

theorem map_mergeAll : ∀ extra rs : List (Request α),
    (mergeAll rs extra).map unpriced = mergeAll (rs.map unpriced) (extra.map unpriced)
  | [], _ => rfl
  | r :: extra, rs => by
    have hmerge : (merge rs r).map unpriced = merge (rs.map unpriced) r.unpriced := by
      unfold merge
      rw [apply_ite (List.map unpriced), List.map_append, List.any_map]
      rfl
    unfold mergeAll
    rw [List.foldl_cons, List.map_cons, List.foldl_cons, ← hmerge]
    exact map_mergeAll extra (merge rs r)

theorem through?_unpriced (r : Request α) (contract : Contract) (kept : FieldSet) :
    r.unpriced.through? contract kept = (r.through? contract kept).map unpriced := by
  unfold through?
  rw [apply_ite (Option.map unpriced)]
  dsimp only
  rw [apply_ite (Option.map unpriced)]
  rfl

end Request

variable [Quantity α]

namespace Node

/-- What a node asks for depends on what is asked of it, not on the prices. -/
theorem map_inputRequests (n : Node) (input : Nat) (rs : List (Request α)) :
    (n.inputRequests input (rs.map Request.unpriced)).map Request.unpriced =
      (n.inputRequests input rs).map Request.unpriced := by
  have hthrough : (rs.map Request.unpriced).filterMap
        (·.through? n.contract (n.keyFields input)) =
      (rs.filterMap (·.through? n.contract (n.keyFields input))).map Request.unpriced := by
    rw [List.filterMap_map, List.map_filterMap]
    refine congrArg (rs.filterMap ·) (funext fun r => ?_)
    exact r.through?_unpriced _ _
  have htwice : ∀ rs : List (Request α),
      (rs.map Request.unpriced).map Request.unpriced = rs.map Request.unpriced := by
    intro rs
    rw [List.map_map]
    rfl
  unfold inputRequests
  split
  · exact htwice rs
  · rfl
  · dsimp only
    split
    · rw [Request.map_mergeAll, Request.map_mergeAll, hthrough, htwice]
    · rfl

end Node

/-! ## §2 Graphs -/

/-- The requests on every connection, without their prices. -/
def Demand.unpriced (d : Demand α) : Demand α := d.map (List.map Request.unpriced)

omit [Quantity α] in
theorem Demand.getD_unpriced (d : Demand α) (i : Nat) :
    d.unpriced.getD i [] = (d.getD i []).map Request.unpriced := by
  unfold Demand.unpriced
  rw [Array.getD_eq_getD_getElem?, Array.getD_eq_getD_getElem?, Array.getElem?_map]
  cases d[i]? <;> rfl

namespace Graph

omit [Quantity α] in
theorem requestedOf_unpriced (g : Graph) (d : Demand α) (id : NodeId) :
    g.requestedOf d.unpriced id = (g.requestedOf d id).map Request.unpriced := by
  unfold requestedOf
  symm
  refine (List.foldl_hom (List.map Request.unpriced) ?_).symm
  intro rs c
  rw [Request.map_mergeAll, Demand.getD_unpriced]

variable {model model' : CostModel α} {sizes : Array (Estimates α)}

/-- What a node asks over a connection does not depend on the cost model. -/
theorem priced_unpriced (model model' : CostModel α) {node : Node} {rs rs' : List (Request α)}
    (h : rs'.map Request.unpriced = rs.map Request.unpriced) (c : Connection) :
    (priced model' sizes node rs' c).map Request.unpriced =
      (priced model sizes node rs c).map Request.unpriced := by
  have hpriced : ∀ (model : CostModel α) (rs : List (Request α)),
      (priced model sizes node rs c).map Request.unpriced =
        (node.inputRequests c.position rs).map Request.unpriced := by
    intro model rs
    unfold priced
    rw [List.map_map]
    rfl
  rw [hpriced, hpriced, ← node.map_inputRequests, h, node.map_inputRequests]

theorem ask_unpriced (g : Graph) (node : Node) {d d' : Demand α} (h : d'.unpriced = d.unpriced) :
    (g.ask model' sizes node d').unpriced = (g.ask model sizes node d).unpriced := by
  have hwrite : ∀ (model : CostModel α) (rs : List (Request α)) (d : Demand α),
      Demand.unpriced (node.inputs.foldl
          (fun d c => d.setIfInBounds c.id (priced model sizes node rs c)) d) =
        node.inputs.foldl (fun d c => d.setIfInBounds c.id
          ((priced model sizes node rs c).map Request.unpriced)) d.unpriced := by
    intro model rs d
    refine (List.foldl_hom Demand.unpriced ?_).symm
    intro d c
    exact (Array.map_setIfInBounds ..).symm
  have hasked : (g.requestedOf d' node.id).map Request.unpriced =
      (g.requestedOf d node.id).map Request.unpriced := by
    rw [← requestedOf_unpriced, h, requestedOf_unpriced]
  unfold ask
  dsimp only
  rw [hwrite, hwrite, h]
  simp only [priced_unpriced model model' hasked]

/-- A graph is asked for the same under any two cost models. -/
theorem demand_unpriced (g : Graph) (model model' : CostModel α) (sizes : Array (Estimates α)) :
    (g.demand model' sizes).unpriced = (g.demand model sizes).unpriced := by
  unfold demand
  induction g.nodes.toList with
  | nil => rfl
  | cons node nodes ih =>
    rw [List.foldr_cons, List.foldr_cons]
    exact g.ask_unpriced node ih

end Graph

/-! ## §3 Analysed graphs -/

namespace Analysis

/-- What the passes found out, without prices. -/
def unpriced (a : Analysis α) : Analysis α :=
  { a with
    requested := a.requested.map (List.map Request.unpriced)
    demand := a.demand.unpriced }

omit [Quantity α] in
theorem requestsOver_unpriced (a : Analysis α) (id : ConnectionId) :
    a.unpriced.requestsOver id = (a.requestsOver id).map Request.unpriced :=
  a.demand.getD_unpriced id

/-- Of the cost model an analysis reads nothing but prices. -/
theorem complete_unpriced (g : Graph) (model model' : CostModel α) :
    (complete g model').unpriced = (complete g model).unpriced := by
  have hdemand := g.demand_unpriced model model' g.estimates
  have hparts : ∀ model : CostModel α, (complete g model).unpriced =
      { sizes := g.estimates, forks := g.forkStates
        requested := (g.nodes.toList.map fun node =>
          g.requestedOf (g.demand model g.estimates).unpriced node.id).toArray
        demand := (g.demand model g.estimates).unpriced } := by
    intro model
    simp only [Graph.requestedOf_unpriced]
    show Analysis.mk _ _ (Array.map _ (List.toArray _)) _ = _
    rw [List.map_toArray, List.map_map]
    rfl
  rw [hparts, hparts, hdemand]

end Analysis

end FlowPlanner
