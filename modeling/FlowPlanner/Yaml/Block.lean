/-
FlowPlanner.Yaml.Block — scalars set off by indentation.

After `|` every line break stays; after `>` a single break between two lines that
do not start with a blank becomes a space. Marks behind the indicator say what
becomes of the breaks at the end, and how deep the text is indented; without such
a mark the deepest leading blank line or the first line of text decides.
-/
import FlowPlanner.Text.Numeral
import FlowPlanner.Yaml.Cursor

namespace FlowPlanner.Yaml

/-- What becomes of the line breaks at the end of a block scalar. -/
inductive Chomping where
  | strip
  | clip
  | keep
deriving DecidableEq

/-- The marks behind the indicator. -/
structure BlockHeader where
  chomping : Chomping := .clip
  /-- The indentation relative to the parent. -/
  increment : Option Nat := none

/-- What becomes of the breaks at the end, if a mark says so. -/
def chompingMark? (c : Cursor) : Option Chomping :=
  match c.peek? with
  | some '+' => some .keep
  | some '-' => some .strip
  | _ => none

/-- The indentation, if a mark says so; zero is refused. -/
def incrementMark? (c : Cursor) : Option (Option Nat × Cursor) :=
  match c.peek?.bind (Text.digit? 10) with
  | none => some (none, c)
  | some 0 => none
  | some n => some (some n, c.advance 1)

/-- Read both marks in either order, and the rest of the indicator's line. -/
def readBlockHeader? (c : Cursor) : Option (BlockHeader × Cursor) := do
  let (header, c) ← match chompingMark? c with
    | some chomping => do
      let (increment, c) ← incrementMark? (c.advance 1)
      pure (({ chomping, increment } : BlockHeader), c)
    | none => do
      let (increment, c) ← incrementMark? c
      match increment, chompingMark? c with
      | some _, some chomping => pure ({ chomping, increment }, c.advance 1)
      | _, _ => pure ({ increment }, c)
  let c := (c.skip isBlank).skipComment
  match c.readBreak? with
  | some (_, c) => pure (header, c)
  | none => if c.rest.isEmpty then pure (header, c) else none

/-- The breaks of blank lines, with the deepest column seen. -/
structure BlankLines where
  breaks : List Char := []
  deepest : Nat := 0

/-- Read indentation and blank lines; `indent` is none while it is not known. A tab where
indentation should stand is refused. `steps` bounds the number of lines. -/
def readBlankLines? (indent : Option Nat) : Nat → BlankLines → Cursor → Option (BlankLines × Cursor)
  | 0, b, c => some (b, c)
  | steps + 1, b, c =>
    let limit := match indent with
      | some n => n - c.column
      | none => c.left
    let c := c.advance ((c.rest.take limit).takeWhile (· == ' ')).length
    let b := { b with deepest := max b.deepest c.column }
    let short := match indent with
      | some n => decide (c.column < n)
      | none => true
    if short && c.at? '\t' then none
    else match c.readBreak? with
      | some (x, next) => readBlankLines? indent steps { b with breaks := b.breaks ++ [x] } next
      | none => some (b, c)

/-- A block scalar as read so far. -/
structure BlockText where
  text : List Char := []
  /-- The break after the last line. -/
  leading : List Char := []
  /-- The breaks of the blank lines after it. -/
  trailing : List Char := []
  /-- The last line starts with a blank. -/
  leadingBlank : Bool := false

/-- The text before the next line, whose first character is a blank or not. -/
def BlockText.join (t : BlockText) (folds blank : Bool) : List Char :=
  if folds && t.leading == ['\n'] && !t.leadingBlank && !blank then
    t.text ++ (if t.trailing.isEmpty then [' '] else []) ++ t.trailing
  else t.text ++ t.leading ++ t.trailing

/-- Read the lines of a block scalar; `steps` bounds their number. -/
def readBlockLines? (folds : Bool) (indent : Nat) :
    Nat → BlockText → Cursor → Option (BlockText × Cursor)
  | 0, t, c => some (t, c)
  | steps + 1, t, c =>
    match c.peek? with
    | none => some (t, c)
    | some x =>
      if c.column != indent then some (t, c)
      else
        let blank := isBlank x
        let before := t.join folds blank
        let (line, c) := c.span (!isBreak ·)
        let (leading, c) := match c.readBreak? with
          | some (b, next) => ([b], next)
          | none => ([], c)
        match readBlankLines? (some indent) (c.left + 1) {} c with
        | none => none
        | some (blanks, c) =>
          readBlockLines? folds indent steps
            { text := before ++ line, leading, trailing := blanks.breaks, leadingBlank := blank } c

/-- The breaks that stay at the end. -/
def BlockText.finish (t : BlockText) : Chomping → List Char
  | .strip => t.text
  | .clip => t.text ++ t.leading
  | .keep => t.text ++ t.leading ++ t.trailing

/-- Read a block scalar; the cursor stands at its indicator, `parent` is the column of the
enclosing collection. -/
def readBlock? (folds : Bool) (parent : Int) (c : Cursor) : Option (String × Cursor) := do
  let (header, c) ← readBlockHeader? (c.advance 1)
  let known := header.increment.map fun n => ((max parent 0) + n).toNat
  let (blanks, c) ← readBlankLines? known (c.left + 1) {} c
  let indent := known.getD (max (max blanks.deepest (parent + 1).toNat) 1)
  let (t, c) ← readBlockLines? folds indent (c.left + 1) { trailing := blanks.breaks } c
  pure (String.ofList (t.finish header.chomping), c)

end FlowPlanner.Yaml
