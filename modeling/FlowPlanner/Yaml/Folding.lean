/-
FlowPlanner.Yaml.Folding — the line breaks inside a scalar.

In quoted and plain scalars one break between lines becomes a space, and of
several breaks the first is dropped. `Gap` is the white space between two pieces
of text: blanks on one line, or a first break and the breaks after it.
-/
import FlowPlanner.Yaml.Cursor

namespace FlowPlanner.Yaml

/-- The white space between two pieces of a scalar. -/
structure Gap where
  /-- Blanks before the first break. -/
  blanks : List Char := []
  /-- The first break; a break escaped in the text counts but leaves no character. -/
  first : Option Char := none
  /-- The breaks after the first. -/
  more : List Char := []
  /-- A break was met. -/
  broken : Bool := false

namespace Gap

/-- The gap holds nothing. -/
def isEmpty (g : Gap) : Bool := g.blanks.isEmpty && !g.broken

/-- The text that a gap becomes. -/
def fold (g : Gap) : List Char :=
  if g.broken then
    if g.first == some '\n' then (if g.more.isEmpty then [' '] else g.more)
    else g.first.toList ++ g.more
  else g.blanks

/-- One more blank; blanks at the start of a line count for nothing. -/
def addBlank (g : Gap) (c : Char) : Gap :=
  if g.broken then g else { g with blanks := g.blanks ++ [c] }

/-- One more break; blanks at the end of a line count for nothing. -/
def addBreak (g : Gap) (b : Char) : Gap :=
  if g.broken then { g with more := g.more ++ [b] }
  else { g with blanks := [], first := some b, broken := true }

end Gap

/-- Read white space; `allowed` refuses a blank, given the gap so far and the place. `steps` bounds
the number of characters. -/
def readGap? (allowed : Gap → Cursor → Bool) : Nat → Gap → Cursor → Option (Gap × Cursor)
  | 0, g, c => some (g, c)
  | steps + 1, g, c =>
    match c.peek? with
    | none => some (g, c)
    | some x =>
      if isBlank x then
        if allowed g c then readGap? allowed steps (g.addBlank x) (c.advance 1) else none
      else match c.readBreak? with
        | some (b, next) => readGap? allowed steps (g.addBreak b) next
        | none => some (g, c)

end FlowPlanner.Yaml
