/-
FlowPlanner.Yaml.Plain — scalars without quotes.

A plain scalar ends before a colon that ends a word, before a comment that white
space precedes, at a document mark, and, outside flow collections, at a line that
is not indented. Inside them brackets and commas end it as well.
-/
import FlowPlanner.Yaml.Folding

namespace FlowPlanner.Yaml

/-- A colon that no flow collection takes inside a plain scalar. -/
def isStrayColon (inFlow : Bool) (c : Cursor) : Bool :=
  inFlow && c.at? ':' &&
    match c.rest.drop 1 with
    | x :: _ => isFlowIndicator x || x == '?'
    | [] => false

/-- A plain scalar ends before the next character. -/
def endsPlain (inFlow : Bool) (c : Cursor) : Bool :=
  match c.peek? with
  | none => true
  | some x =>
    isSpace x || (x == ':' && c.endsAfter 1) || (inFlow && isFlowIndicator x)

/-- Read the characters of a plain scalar up to white space or its end, after those that were
`read`, the latest first; `steps` bounds them. -/
def readPlainRun? (inFlow : Bool) : Nat → (read : List Char) → Cursor → Option (List Char × Cursor)
  | 0, read, c => some (read.reverse, c)
  | steps + 1, read, c =>
    match c.peek? with
    | none => some (read.reverse, c)
    | some x =>
      if isStrayColon inFlow c then none
      else if endsPlain inFlow c then some (read.reverse, c)
      else readPlainRun? inFlow steps (x :: read) (c.advance 1)

/-- A plain scalar as read so far. -/
structure PlainText where
  text : List Char := []
  /-- White space that counts only if more text follows. -/
  gap : Gap := {}

/-- Read the runs of a plain scalar; `indent` is the least column of its lines. -/
def readPlainBody? (inFlow : Bool) (indent : Int) :
    Nat → PlainText → Cursor → Option (PlainText × Cursor)
  | 0, t, c => some (t, c)
  | steps + 1, t, c =>
    if c.atDocumentMark || c.at? '#' then some (t, c)
    else match readPlainRun? inFlow c.left [] c with
      | none => none
      | some (run, c) =>
        let t : PlainText :=
          if run.isEmpty then t else { text := t.text ++ t.gap.fold ++ run, gap := {} }
        match c.peek? with
        | none => some (t, c)
        | some x =>
          if !isSpace x then some (t, c)
          else
            let allowed := fun (g : Gap) (c : Cursor) =>
              !(g.broken && (c.column : Int) < indent && c.at? '\t')
            match readGap? allowed c.left t.gap c with
            | none => none
            | some (g, c) =>
              let t := { t with gap := g }
              if !inFlow && (c.column : Int) < indent then some (t, c)
              else readPlainBody? inFlow indent steps t c

/-- Read a plain scalar: its text, whether a line break followed it, and the place after it. -/
def readPlain? (inFlow : Bool) (indent : Int) (c : Cursor) : Option (String × Bool × Cursor) :=
  (readPlainBody? inFlow indent (c.left + 1) {} c).map fun e =>
    (String.ofList e.1.text, e.1.gap.broken, e.2)

end FlowPlanner.Yaml
