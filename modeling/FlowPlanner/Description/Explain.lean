/-
FlowPlanner.Description.Explain — a description as an indented tree per sink.

A node that several consumers share is shown in full at its first place and
only named afterwards. The tree is made as a list of lines first (`lines`), and
each line then has its text (`Line.text`).
-/
import FlowPlanner.Description

namespace FlowPlanner

/-- A line of the tree, at a depth. -/
inductive Line (α : Type) where
  /-- A node in full. -/
  | node (depth : Nat) (node : NodeDescription α)
  /-- A node that was shown before. -/
  | shared (depth : Nat) (name : String)
  /-- How the node below reaches the node above. -/
  | input (depth : Nat) (ship : Ship) (work : LocalStrategy)

namespace Description

variable {α : Type}

/-- The lines so far, and the positions that were shown. -/
structure Tree (α : Type) where
  shown : List Nat := []
  lines : List (Line α) := []

/-- The tree with one more line. -/
def Tree.add (t : Tree α) (line : Line α) : Tree α := { t with lines := t.lines ++ [line] }

/-- Draw the node at a position and what it reads; its inputs stand at lower positions, so `height`
above the position is enough. -/
def draw (d : Description α) : (height : Nat) → (depth : Nat) → Tree α → (position : Nat) → Tree α
  | 0, _, t, _ => t
  | height + 1, depth, t, position =>
    match d.nodes[position]? with
    | none => t
    | some node =>
      if position ∈ t.shown then t.add (.shared depth node.name)
      else
        node.inputs.foldl
          (fun t i => d.draw height (depth + 2) (t.add (.input depth i.ship i.work)) i.source)
          ({ t with shown := position :: t.shown }.add (.node depth node))

/-- The lines of all sinks' trees. -/
def lines (d : Description α) : List (Line α) :=
  (d.sinks.foldl (d.draw d.nodes.length 0) {}).lines

end Description

/-! ## Text -/

/-- Quantities in the tree: one place after the point, or `unknown`. -/
def quantityText : Option Float → String
  | some x => Decimal.fixed 1 x
  | none => "unknown"

/-- Two blanks per level. -/
def padding (depth : Nat) : String := String.ofList (List.replicate (2 * depth) ' ')

/-- The text of a line. -/
def Line.text : Line Float → String
  | node depth n =>
    padding depth ++ n.name ++ " [" ++ n.driver.name ++ "] p=" ++ toString n.parallelism
      ++ " records=" ++ quantityText n.estimates.records
      ++ " size=" ++ quantityText n.estimates.size
      ++ " out=" ++ n.placement.text ++ "/" ++ n.arrangement.text
  | shared depth name => padding depth ++ name ++ " (shared, see above)"
  | input depth ship work => padding depth ++ "  <- ship=" ++ ship.text ++ " local=" ++ work.text

/-- The first line. -/
def Description.heading (d : Description Float) : String :=
  "dagopt 0.1.0 plan, total cost: " ++ quantityText d.total

/-- The whole text; every line ends in a line feed. -/
def Description.explain (d : Description Float) : String :=
  String.join ((d.heading :: d.lines.map (·.text)).map (· ++ "\n"))

end FlowPlanner
