/-
FlowPlanner.Yaml.Cursor — a place in a YAML text.

A cursor is the rest of the text with its line and column; indentation rules
need the column, simple keys the line and the number of bytes read, in UTF-8. Line
breaks are the five of the format; CR LF counts as one.
-/

namespace FlowPlanner.Yaml

/-! ## §1 Characters -/

/-- Line feed, carriage return, next line, line separator, paragraph separator. -/
def isBreak (c : Char) : Bool :=
  c == '\n' || c == '\r' || c == '\u0085' || c == '\u2028' || c == '\u2029'

/-- Space and tab. -/
def isBlank (c : Char) : Bool := c == ' ' || c == '\t'

/-- Blank or line break. -/
def isSpace (c : Char) : Bool := isBlank c || isBreak c

/-- Letters and digits of ASCII, underscore and hyphen. -/
def isWordChar (c : Char) : Bool := c.isAlphanum || c == '_' || c == '-'

/-- The brackets and the comma of flow collections. -/
def isFlowIndicator (c : Char) : Bool :=
  c == ',' || c == '[' || c == ']' || c == '\x7b' || c == '\x7d'

/-- A character that a YAML text may hold. -/
def isAllowed (c : Char) : Bool :=
  let n := c.toNat
  c == '\t' || c == '\n' || c == '\r' || (0x20 ≤ n && n ≤ 0x7E) || n == 0x85 ||
    (0xA0 ≤ n && n ≤ 0xD7FF) || (0xE000 ≤ n && n ≤ 0xFFFD) || 0x10000 ≤ n

/-- The text ends here, or a space or break follows. -/
def endsWord : List Char → Bool
  | [] => true
  | c :: _ => isSpace c

/-! ## §2 Cursors -/

/-- How many bytes a text takes in UTF-8. -/
def byteLength (cs : List Char) : Nat := cs.foldl (fun n c => n + c.utf8Size) 0

/-- A place in a text. -/
structure Cursor where
  rest : List Char
  line : Nat := 0
  column : Nat := 0
  /-- Bytes read so far. -/
  index : Nat := 0
  /-- Bytes of the whole text. -/
  size : Nat := byteLength rest

namespace Cursor

/-- Step over characters of one line. -/
def advance (c : Cursor) (n : Nat) : Cursor :=
  { c with
    rest := c.rest.drop n
    column := c.column + n
    index := c.index + byteLength (c.rest.take n) }

/-- Read the characters of one line that pass a test. -/
def span (c : Cursor) (p : Char → Bool) : List Char × Cursor :=
  let taken := c.rest.takeWhile p
  (taken, c.advance taken.length)

/-- Step over the characters of one line that pass a test. -/
def skip (c : Cursor) (p : Char → Bool) : Cursor := (c.span p).2

/-- Step to the start of the next line. -/
def newLine (c : Cursor) (n : Nat) : Cursor :=
  { c with
    rest := c.rest.drop n
    line := c.line + 1
    column := 0
    index := c.index + byteLength (c.rest.take n) }

/-- How many bytes are left to read, which is at least the number of characters. -/
def left (c : Cursor) : Nat := c.size - c.index

/-- Read a line break: the separators stand for themselves, every other break is a line feed. -/
def readBreak? (c : Cursor) : Option (Char × Cursor) :=
  match c.rest with
  | '\r' :: '\n' :: _ => some ('\n', c.newLine 2)
  | b :: _ =>
    if isBreak b then
      some (if b == '\u2028' || b == '\u2029' then b else '\n', c.newLine 1)
    else none
  | [] => none

/-- The next character. -/
def peek? (c : Cursor) : Option Char := c.rest.head?

/-- The next character is this one. -/
def at? (c : Cursor) (x : Char) : Bool := c.rest.head? == some x

/-- The character after the next one ends a word. -/
def endsAfter (c : Cursor) (n : Nat) : Bool := endsWord (c.rest.drop n)

/-- A line starts here with the marks of a document's start or end. -/
def atDocumentMark (c : Cursor) : Bool :=
  c.column == 0 && (c.rest.take 3 == ['-', '-', '-'] || c.rest.take 3 == ['.', '.', '.']) &&
    c.endsAfter 3

/-- A byte order mark at the start of a line. -/
def skipMark (c : Cursor) : Cursor :=
  if c.column == 0 && c.at? '\ufeff' then c.advance 1 else c

/-- A comment up to the end of its line, if one starts here. -/
def skipComment (c : Cursor) : Cursor := if c.at? '#' then c.skip (!isBreak ·) else c

end Cursor

end FlowPlanner.Yaml
