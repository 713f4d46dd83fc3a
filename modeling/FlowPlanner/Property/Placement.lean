/-
FlowPlanner.Property.Placement — how records are spread over parallel instances.

A placement is both what data has and what is asked of it; `Placement.isMetBy`
matches the two. A request for hashing on a set of columns is met by data
hashed on any non-empty part of it: records equal on all of the set are equal
on the part, so they already lie together.
-/
import FlowPlanner.FieldSet
import FlowPlanner.Text.Numeral

namespace FlowPlanner

/-- How records are spread over parallel instances. -/
inductive Placement where
  /-- Nothing is known. -/
  | any
  /-- Records equal on these columns lie on one instance. -/
  | hashed (fields : FieldSet)
  /-- Every instance holds all records. -/
  | replicated
deriving DecidableEq, Inhabited

namespace Placement

/-- Nothing is asked or known. -/
def isTrivial : Placement → Bool
  | any => true
  | _ => false

/-- Every instance holds all records. -/
def isReplicated : Placement → Bool
  | replicated => true
  | _ => false

/-- The columns of a hash placement. -/
def fields? : Placement → Option FieldSet
  | hashed fields => some fields
  | _ => none

/-- The columns that a placement mentions. -/
def mentioned : Placement → FieldSet
  | hashed fields => fields
  | _ => .empty

/-- Data placed as `actual` is placed as asked. -/
def isMetBy (asked actual : Placement) : Bool :=
  match asked, actual with
  | any, _ => true
  | hashed req, hashed act => !act.isEmpty && act.subset req
  | replicated, replicated => true
  | _, _ => false

/-- The text of a placement, columns ascending. -/
def text : Placement → String
  | any => "any"
  | hashed fields => "hash" ++ Text.bracketed "," fields.toList
  | replicated => "replicated"

/-! ## Equations of matching -/

@[simp] theorem any_isMetBy (p : Placement) : any.isMetBy p = true := rfl

@[simp] theorem hashed_isMetBy_hashed (req act : FieldSet) :
    (hashed req).isMetBy (hashed act) = (!act.isEmpty && act.subset req) := rfl

@[simp] theorem hashed_isMetBy_any (req : FieldSet) : (hashed req).isMetBy any = false := rfl

@[simp] theorem hashed_isMetBy_replicated (req : FieldSet) :
    (hashed req).isMetBy replicated = false := rfl

@[simp] theorem replicated_isMetBy (p : Placement) :
    replicated.isMetBy p = p.isReplicated := by cases p <;> rfl

end Placement

end FlowPlanner
