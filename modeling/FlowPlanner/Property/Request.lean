/-
FlowPlanner.Property.Request — what a consumer would like of its input.

A request is a placement and an arrangement together with the price of
establishing both from nothing. The price is carried along and never decides
whether two requests are the same. `Request.through?` and `outputThrough` are
the two directions of an output contract: which part of a request on the output
may be asked of the input, and which properties of the input hold of the output.
-/
import FlowPlanner.Cost
import FlowPlanner.Job.Operator
import FlowPlanner.Property.Arrangement
import FlowPlanner.Property.Placement

namespace FlowPlanner

/-- Properties that a consumer would benefit from, and their price. -/
structure Request (α : Type) where
  placement : Placement
  arrangement : Arrangement
  price : Cost α

namespace Request

variable {α : Type}

/-- Nothing is asked. -/
def isTrivial (r : Request α) : Bool := r.placement.isTrivial && r.arrangement.isTrivial

/-- Data with these properties is as asked. -/
def isMetBy (r : Request α) (placement : Placement) (arrangement : Arrangement) : Bool :=
  r.placement.isMetBy placement && r.arrangement.isMetBy arrangement

/-- The same properties are asked, at whatever price. -/
def isSame (r s : Request α) : Bool :=
  r.placement == s.placement && r.arrangement == s.arrangement

/-- The columns that a request mentions. -/
def mentioned (r : Request α) : FieldSet := r.placement.mentioned.union r.arrangement.mentioned

/-- The part of a request on an operator's output that may be asked of its input: nothing unless
the contract keeps keys and the request mentions kept columns only; the arrangement survives only
where keys stay unchanged. -/
def through? (r : Request α) (contract : Contract) (kept : FieldSet) : Option (Request α) :=
  if contract.preservesKeys && r.mentioned.subset kept then
    let filtered :=
      { r with arrangement := if contract.isSameKey then r.arrangement else .unordered }
    if filtered.isTrivial then none else some filtered
  else none

/-- The list with one more request, unless the same one is there. -/
def merge (rs : List (Request α)) (r : Request α) : List (Request α) :=
  if rs.any (·.isSame r) then rs else rs ++ [r]

/-- Requests put together in order, the first of each kept. -/
def mergeAll (rs extra : List (Request α)) : List (Request α) := extra.foldl merge rs

/-- What a contract passes on of a request, and when. -/
theorem through?_eq_some_iff {s r : Request α} {contract : Contract} {kept : FieldSet} :
    s.through? contract kept = some r ↔
      (contract.preservesKeys = true ∧ s.mentioned.subset kept = true) ∧ r.isTrivial = false ∧
        r = { s with
          arrangement := if contract.isSameKey then s.arrangement else .unordered } := by
  simp only [through?, Option.ite_none_right_eq_some, Option.ite_none_left_eq_some,
    Bool.and_eq_true, Bool.not_eq_true, Option.some.injEq]
  constructor
  · rintro ⟨hkept, hasks, rfl⟩
    exact ⟨hkept, hasks, rfl⟩
  · rintro ⟨hkept, hasks, rfl⟩
    exact ⟨hkept, hasks, rfl⟩

/-- A request is the same as itself. -/
@[simp] theorem isSame_refl (r : Request α) : r.isSame r = true := by simp [isSame]

variable [Quantity α]

/-- A request without a price yet. -/
def free (placement : Placement) (arrangement : Arrangement) : Request α :=
  ⟨placement, arrangement, .zero⟩

/-- Hashing on some columns. -/
def partitioned (fields : FieldSet) : Request α := free (.hashed fields) .unordered

/-- Hashing and grouping on some columns. -/
def partitionedAndGrouped (fields : FieldSet) : Request α :=
  free (.hashed fields) (.groupedBy fields)

/-- A full copy on every instance. -/
def copied : Request α := free .replicated .unordered

end Request

/-- Which properties of its input hold of an operator's output: none unless the contract keeps
keys; each part only if it mentions kept columns; the arrangement only where keys stay unchanged. -/
def outputThrough (placement : Placement) (arrangement : Arrangement) (contract : Contract)
    (kept : FieldSet) : Placement × Arrangement :=
  if contract.preservesKeys then
    (if placement.mentioned.subset kept then placement else .any,
      if contract.isSameKey && arrangement.mentioned.subset kept then arrangement else .unordered)
  else (.any, .unordered)

end FlowPlanner
