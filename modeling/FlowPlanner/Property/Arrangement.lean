/-
FlowPlanner.Property.Arrangement — how records stand within one instance.

Records may be sorted (`ordering`, most significant column first) and may be
grouped: equal values of some columns stand next to each other. A sort whose
leading columns are a set groups on that set.
-/
import FlowPlanner.FieldSet
import FlowPlanner.Text.Numeral

namespace FlowPlanner

/-- How records stand within one instance. -/
structure Arrangement where
  /-- Sort columns, most significant first; empty when unsorted. -/
  ordering : List Nat := []
  /-- Columns on which equal values stand next to each other. -/
  grouped : Option FieldSet := none
deriving DecidableEq, Inhabited

namespace Arrangement

/-- No order is known. -/
def unordered : Arrangement := {}

/-- Sorted by a list of columns. -/
def sorted (fields : List Nat) : Arrangement := { ordering := fields }

/-- Grouped on a set of columns. -/
def groupedBy (fields : FieldSet) : Arrangement := { grouped := some fields }

/-- Nothing is asked or known. -/
def isTrivial (a : Arrangement) : Bool := a.ordering.isEmpty && a.grouped.isNone

/-- Grouped on exactly these columns: declared so, or sorted with them in front. -/
def isGroupedOn (a : Arrangement) (fields : FieldSet) : Bool :=
  fields.isEmpty || a.grouped == some fields ||
    (fields.size ≤ a.ordering.length && FieldSet.ofList (a.ordering.take fields.size) == fields)

/-- Sorted with these columns in front, in this order. -/
def isSortedOn (a : Arrangement) (fields : List Nat) : Bool := fields.isPrefixOf a.ordering

/-- Data arranged as `actual` is arranged as asked. -/
def isMetBy (asked actual : Arrangement) : Bool :=
  actual.isSortedOn asked.ordering &&
    match asked.grouped with
    | none => true
    | some fields => actual.isGroupedOn fields

/-- The columns to sort by so that the arrangement holds. -/
def sortFields (a : Arrangement) : List Nat :=
  if a.ordering.isEmpty then
    match a.grouped with
    | some fields => fields.toList
    | none => []
  else a.ordering

/-- The columns that an arrangement mentions. -/
def mentioned (a : Arrangement) : FieldSet :=
  match a.grouped with
  | some fields => (FieldSet.ofList a.ordering).union fields
  | none => .ofList a.ordering

/-- The text of an arrangement: the sort, the grouping, or both. -/
def text (a : Arrangement) : String :=
  let order := "sorted" ++ Text.bracketed ", " a.ordering
  match a.grouped with
  | none => if a.ordering.isEmpty then "none" else order
  | some fields =>
    let group := "grouped" ++ Text.bracketed "," fields.toList
    if a.ordering.isEmpty then group else order ++ "+" ++ group

/-! ## Equations of matching -/

@[simp] theorem unordered_isMetBy (a : Arrangement) : unordered.isMetBy a = true := by
  simp [unordered, isMetBy, isSortedOn]

@[simp] theorem sorted_isMetBy (fields : List Nat) (a : Arrangement) :
    (sorted fields).isMetBy a = a.isSortedOn fields := by simp [sorted, isMetBy]

@[simp] theorem groupedBy_isMetBy (fields : FieldSet) (a : Arrangement) :
    (groupedBy fields).isMetBy a = a.isGroupedOn fields := by simp [groupedBy, isMetBy, isSortedOn]

theorem isSortedOn_iff {a : Arrangement} {fields : List Nat} :
    a.isSortedOn fields = true ↔ fields <+: a.ordering := by
  simp [isSortedOn]

end Arrangement

end FlowPlanner
