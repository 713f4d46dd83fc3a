/-
FlowPlanner.Yaml.Lexer — cutting a YAML text into tokens.

Two things need memory. Indentation: a block collection starts at the first
entry of a deeper column and ends at the first token of a shallower one. And
keys: a colon may turn a scalar or collection that has been read already into a
key, so the place of every possible key is remembered, one per level of flow
collections, and marks are put in there afterwards. A possible key expires at the
end of its line or after 1024 bytes.
-/
import FlowPlanner.Yaml.Block
import FlowPlanner.Yaml.Plain
import FlowPlanner.Yaml.Quoted
import FlowPlanner.Yaml.Tag

namespace FlowPlanner.Yaml

/-- A place where a key may have begun. -/
structure KeySpot where
  /-- The text is in error unless a key begins here. -/
  required : Bool
  /-- How many tokens stand before it. -/
  tokenIndex : Nat
  line : Nat
  column : Nat
  index : Nat

/-- The state between two tokens. -/
structure Lexer where
  cursor : Cursor
  tokens : Array Token := #[]
  /-- The column of the innermost block collection; negative outside all. -/
  indent : Int := -1
  /-- The columns of the enclosing block collections. -/
  outer : List Int := []
  /-- How many flow collections are open. -/
  flowLevel : Nat := 0
  /-- A key may begin here. -/
  keyAllowed : Bool := true
  /-- The possible keys, innermost level first. -/
  spots : List (Option KeySpot) := [none]

namespace Lexer

/-! ## §1 Keys and indentation -/

/-- The next token stands inside a flow collection. -/
def inFlow (l : Lexer) : Bool := l.flowLevel != 0

/-- Add a token. -/
def push (l : Lexer) (t : Token) : Lexer := { l with tokens := l.tokens.push t }

/-- Put a token in front of those from a place on. -/
def insertAt (l : Lexer) (place : Nat) (t : Token) : Lexer :=
  { l with tokens := l.tokens.take place ++ #[t] ++ l.tokens.drop place }

/-- A possible key is out of date. -/
def isStale (c : Cursor) (s : KeySpot) : Bool := s.line < c.line || s.index + 1024 < c.index

/-- Forget the keys that are out of date; a required one is an error. -/
def dropStale? (l : Lexer) : Option Lexer :=
  if l.spots.any fun s => s.any fun s => isStale l.cursor s && s.required then none
  else some { l with spots := l.spots.map fun s => s.filter fun s => !isStale l.cursor s }

/-- Forget the possible key of the innermost level; a required one is an error. -/
def dropKey? (l : Lexer) : Option Lexer :=
  match l.spots with
  | some s :: rest => if s.required then none else some { l with spots := none :: rest }
  | _ => some l

/-- Remember that a key may begin here. -/
def saveKey? (l : Lexer) : Option Lexer :=
  if l.keyAllowed then
    l.dropKey?.map fun l =>
      { l with
        spots := some
          { required := !l.inFlow && l.indent == (l.cursor.column : Int)
            tokenIndex := l.tokens.size
            line := l.cursor.line
            column := l.cursor.column
            index := l.cursor.index } :: l.spots.drop 1 }
  else some l

/-- Open a block collection if the column is deeper than the innermost one; its start goes in front
of the tokens from `place` on. -/
def openBlock (l : Lexer) (column : Nat) (place : Nat) (start : Token) : Lexer :=
  if !l.inFlow && l.indent < column then
    { l.insertAt place start with indent := column, outer := l.indent :: l.outer }
  else l

/-- Close block collections until the innermost one is no deeper than the column; `outer` holds the
columns of those around. -/
def closeDeeper (column : Int) : Int → List Int → Array Token → Int × List Int × Array Token
  | indent, [], tokens => (indent, [], tokens)
  | indent, next :: outer, tokens =>
    if column < indent then closeDeeper column next outer (tokens.push .blockEnd)
    else (indent, next :: outer, tokens)

/-- Close the block collections that end before this column. -/
def closeBlocks (l : Lexer) (column : Int) : Lexer :=
  if l.inFlow then l
  else
    let (indent, outer, tokens) := closeDeeper column l.indent l.outer l.tokens
    { l with indent, outer, tokens }

/-! ## §2 White space -/

/-- Skip white space, comments and line breaks; `steps` bounds the number of lines. Tabs count as
white space only where no key could begin, and a byte order mark only at the start of a line. -/
def skipSpaceWithin : Nat → Lexer → Lexer
  | 0, l => l
  | steps + 1, l =>
    let tabs := l.inFlow || !l.keyAllowed
    let c := (l.cursor.skipMark.skip fun x => x == ' ' || (tabs && x == '\t')).skipComment
    match c.readBreak? with
    | some (_, next) =>
      skipSpaceWithin steps { l with cursor := next, keyAllowed := l.keyAllowed || !l.inFlow }
    | none => { l with cursor := c }

/-- Skip to the next token. -/
def skipSpace (l : Lexer) : Lexer := skipSpaceWithin (l.cursor.left + 1) l

/-! ## §3 Tokens -/

/-- Step over `n` characters and add a token. -/
def take (l : Lexer) (n : Nat) (t : Token) : Lexer :=
  { l with cursor := l.cursor.advance n }.push t

/-- The end of the text. -/
def fetchEnd? (l : Lexer) : Option Lexer :=
  let l := l.closeBlocks (-1)
  l.dropKey?.map fun l => { l with keyAllowed := false }.push .streamEnd

/-- A directive. -/
def fetchDirective? (l : Lexer) : Option Lexer := do
  let l ← (l.closeBlocks (-1)).dropKey?
  let (token, cursor) ← readDirective? l.cursor
  pure ({ l with cursor, keyAllowed := false }.push token)

/-- The mark of a document's start or end. -/
def fetchDocumentMark? (l : Lexer) : Option Lexer := do
  let token := if l.cursor.at? '-' then Token.documentStart else .documentEnd
  let l ← (l.closeBlocks (-1)).dropKey?
  pure ({ l with keyAllowed := false }.take 3 token)

/-- The opening bracket of a flow collection. -/
def fetchFlowStart? (l : Lexer) (t : Token) : Option Lexer :=
  l.saveKey?.map fun l =>
    { l with flowLevel := l.flowLevel + 1, spots := none :: l.spots, keyAllowed := true }.take 1 t

/-- The closing bracket of a flow collection. -/
def fetchFlowEnd? (l : Lexer) (t : Token) : Option Lexer :=
  l.dropKey?.map fun l =>
    let l :=
      if l.inFlow then { l with flowLevel := l.flowLevel - 1, spots := l.spots.drop 1 } else l
    { l with keyAllowed := false }.take 1 t

/-- A comma in a flow collection. -/
def fetchFlowEntry? (l : Lexer) : Option Lexer :=
  l.dropKey?.map fun l => { l with keyAllowed := true }.take 1 .flowEntry

/-- The hyphen of a block entry. -/
def fetchBlockEntry? (l : Lexer) : Option Lexer := do
  if !l.inFlow && !l.keyAllowed then none
  let l := l.openBlock l.cursor.column l.tokens.size .blockSequenceStart
  let l ← l.dropKey?
  pure ({ l with keyAllowed := true }.take 1 .blockEntry)

/-- The question mark of an explicit key. -/
def fetchKey? (l : Lexer) : Option Lexer := do
  if !l.inFlow && !l.keyAllowed then none
  let l := l.openBlock l.cursor.column l.tokens.size .blockMappingStart
  let l ← l.dropKey?
  pure ({ l with keyAllowed := !l.inFlow }.take 1 .key)

/-- The colon of a value. If a possible key is remembered, it is one. -/
def fetchValue? (l : Lexer) : Option Lexer :=
  match l.spots with
  | some s :: rest =>
    let l := l.insertAt s.tokenIndex .key
    let l := l.openBlock s.column s.tokenIndex .blockMappingStart
    some ({ l with spots := none :: rest, keyAllowed := false }.take 1 .value)
  | _ =>
    if !l.inFlow && !l.keyAllowed then none
    else
      let l := l.openBlock l.cursor.column l.tokens.size .blockMappingStart
      some ({ l with keyAllowed := !l.inFlow }.take 1 .value)

/-- An anchor or alias: a word, and then the end of the word or an indicator. -/
def fetchAnchor? (l : Lexer) (token : String → Token) : Option Lexer := do
  let l ← l.saveKey?
  let (name, cursor) := (l.cursor.advance 1).span isWordChar
  let ends := cursor.endsAfter 0 || (cursor.peek?.any fun x => "?:,]\x7d%@`".toList.contains x)
  if name.isEmpty || !ends then none
  pure ({ l with cursor, keyAllowed := false }.push (token (String.ofList name)))

/-- A tag. -/
def fetchTag? (l : Lexer) : Option Lexer := do
  let l ← l.saveKey?
  let (token, cursor) ← readTag? l.inFlow l.cursor
  pure ({ l with cursor, keyAllowed := false }.push token)

/-- A block scalar. -/
def fetchBlockScalar? (l : Lexer) (style : Style) : Option Lexer := do
  let l ← l.dropKey?
  let (text, cursor) ← readBlock? (style == .folded) l.indent l.cursor
  pure ({ l with cursor, keyAllowed := true }.push (.scalar style text))

/-- A quoted scalar. -/
def fetchQuoted? (l : Lexer) (style : Style) : Option Lexer := do
  let l ← l.saveKey?
  let (text, cursor) ← readQuoted? (style == .singleQuoted) l.cursor
  pure ({ l with cursor, keyAllowed := false }.push (.scalar style text))

/-- A plain scalar; a key may begin after it if a line break followed. -/
def fetchPlain? (l : Lexer) : Option Lexer := do
  let l ← l.saveKey?
  let (text, broken, cursor) ← readPlain? l.inFlow (l.indent + 1) l.cursor
  pure ({ l with cursor, keyAllowed := broken }.push (.scalar .plain text))

/-- A plain scalar may begin with this character, given what follows it. -/
def startsPlain (l : Lexer) (x : Char) (r : List Char) : Bool :=
  if x == '-' then !(r.head?.any isBlank)
  else if x == '?' || x == ':' then !l.inFlow && !endsWord r
  else !(isSpace x || ",[]\x7b\x7d#&*!|>'\"%@`".toList.contains x)

/-- The next token, which starts with `x`. -/
def fetchAt? (l : Lexer) (x : Char) (r : List Char) : Option Lexer :=
  if l.cursor.column == 0 && x == '%' then l.fetchDirective?
  else if l.cursor.atDocumentMark then l.fetchDocumentMark?
  else match x with
    | '[' => l.fetchFlowStart? .flowSequenceStart
    | '\x7b' => l.fetchFlowStart? .flowMappingStart
    | ']' => l.fetchFlowEnd? .flowSequenceEnd
    | '\x7d' => l.fetchFlowEnd? .flowMappingEnd
    | ',' => l.fetchFlowEntry?
    | '*' => l.fetchAnchor? .alias
    | '&' => l.fetchAnchor? .anchor
    | '!' => l.fetchTag?
    | '\'' => l.fetchQuoted? .singleQuoted
    | '"' => l.fetchQuoted? .doubleQuoted
    | _ =>
      if x == '-' && endsWord r then l.fetchBlockEntry?
      else if x == '?' && (l.inFlow || endsWord r) then l.fetchKey?
      else if x == ':' && (l.inFlow || endsWord r) then l.fetchValue?
      else if x == '|' && !l.inFlow then l.fetchBlockScalar? .literal
      else if x == '>' && !l.inFlow then l.fetchBlockScalar? .folded
      else if l.startsPlain x r then l.fetchPlain?
      else none

/-- The tokens of the rest of the text; `steps` bounds their number. -/
def run? : Nat → Lexer → Option (Array Token)
  | 0, _ => none
  | steps + 1, l =>
    match l.skipSpace.dropStale? with
    | none => none
    | some l =>
      match l.cursor.rest with
      | [] => l.fetchEnd?.map (·.tokens)
      | x :: r =>
        match (l.closeBlocks l.cursor.column).fetchAt? x r with
        | some l => run? steps l
        | none => none

end Lexer

/-- Cut a text into tokens; nothing if it breaks the rules of the format. -/
def tokens? (text : String) : Option (List Token) :=
  let chars := text.toList
  if chars.all isAllowed then
    (Lexer.run? (chars.length + 2) { cursor := { rest := chars } }).map (·.toList)
  else none

end FlowPlanner.Yaml
