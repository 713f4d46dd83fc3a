/-
FlowPlanner.Cost — cost vectors.

A cost has three dimensions, each of which may be unknown. Costs add dimension
by dimension; an unknown dimension stays unknown. The weighted total exists only
when all three are known.
-/
import FlowPlanner.Config
import FlowPlanner.Quantity

namespace FlowPlanner

/-- A cost in three dimensions. -/
structure Cost (α : Type) where
  /-- Bytes shipped between instances. -/
  network : Option α
  /-- Bytes written to disk and read back. -/
  disk : Option α
  cpu : Option α
deriving DecidableEq, Repr

namespace Cost

variable {α : Type}

/-- Nothing is known. -/
def unknown : Cost α := ⟨none, none, none⟩

/-- All three dimensions are known. -/
def isKnown (c : Cost α) : Bool := c.network.isSome && c.disk.isSome && c.cpu.isSome

variable [Quantity α]

open Quantity

/-- No cost. -/
def zero : Cost α := ⟨some (ofNat 0), some (ofNat 0), some (ofNat 0)⟩

/-- A network cost alone. -/
def ofNetwork (q : Option α) : Cost α := { zero with network := q }

/-- A cost of computing alone. -/
def ofCpu (q : Option α) : Cost α := { zero with cpu := q }

/-- Costs add dimension by dimension. -/
def add (a b : Cost α) : Cost α :=
  ⟨add? a.network b.network, add? a.disk b.disk, add? a.cpu b.cpu⟩

instance : Add (Cost α) := ⟨add⟩

/-- The weighted total, unknown if a dimension is. -/
def total (w : Weights α) (c : Cost α) : Option α :=
  match c.network, c.disk, c.cpu with
  | some n, some d, some p =>
    some (Quantity.add (Quantity.add (mul n w.network) (mul d w.disk)) (mul p w.cpu))
  | _, _, _ => none

theorem network_add (a b : Cost α) : (a + b).network = add? a.network b.network := rfl
theorem disk_add (a b : Cost α) : (a + b).disk = add? a.disk b.disk := rfl
theorem cpu_add (a b : Cost α) : (a + b).cpu = add? a.cpu b.cpu := rfl

end Cost

end FlowPlanner
