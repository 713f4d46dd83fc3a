/-
FlowPlanner.Yaml.Quoted — scalars in quotes.

Between single quotes a quote is written twice. Between double quotes a
backslash starts an escape: a letter, two, four or eight hexadecimal digits, or
a line break that leaves no trace.
-/
import FlowPlanner.Text.Numeral
import FlowPlanner.Yaml.Folding

namespace FlowPlanner.Yaml

/-- The character that an escape letter stands for. -/
def escapedChar? : Char → Option Char
  | '0' => some '\x00'
  | 'a' => some '\x07'
  | 'b' => some '\x08'
  | 't' => some '\t'
  | '\t' => some '\t'
  | 'n' => some '\n'
  | 'v' => some '\x0b'
  | 'f' => some '\x0c'
  | 'r' => some '\r'
  | 'e' => some '\x1b'
  | ' ' => some ' '
  | '"' => some '"'
  | '/' => some '/'
  | '\\' => some '\\'
  | 'N' => some '\u0085'
  | '_' => some '\u00a0'
  | 'L' => some '\u2028'
  | 'P' => some '\u2029'
  | _ => none

/-- How many hexadecimal digits an escape letter asks for. -/
def escapeWidth? : Char → Option Nat
  | 'x' => some 2
  | 'u' => some 4
  | 'U' => some 8
  | _ => none

/-- The character with a code point, which must not be a surrogate. -/
def charOf? (n : Nat) : Option Char := if n.isValidChar then some (Char.ofNat n) else none

/-- What follows a backslash: its character, and how many characters it takes. -/
def escape? : List Char → Option (Char × Nat)
  | [] => none
  | c :: cs =>
    match escapedChar? c with
    | some x => some (x, 1)
    | none =>
      match escapeWidth? c with
      | none => none
      | some width =>
        if cs.length < width then none
        else ((Text.digits? 16 (cs.take width)).bind charOf?).map fun x => (x, width + 1)

/-- What ends a run of characters between quotes. -/
inductive RunEnd where
  /-- The closing quote stands here. -/
  | quote
  /-- White space, or the end of the text. -/
  | gap
  /-- A line break escaped by a backslash has just been read. -/
  | escapedBreak

/-- Read characters up to white space or the closing quote, after those that were `read`, the latest
first; `steps` bounds their number. -/
def readRun? (single : Bool) :
    Nat → (read : List Char) → Cursor → Option (List Char × RunEnd × Cursor)
  | 0, read, c => some (read.reverse, .gap, c)
  | steps + 1, read, c =>
    match c.rest with
    | [] => some (read.reverse, .gap, c)
    | x :: r =>
      if isSpace x then some (read.reverse, .gap, c)
      else if single then
        if x == '\'' then
          if r.head? == some '\'' then readRun? single steps ('\'' :: read) (c.advance 2)
          else some (read.reverse, .quote, c)
        else readRun? single steps (x :: read) (c.advance 1)
      else if x == '"' then some (read.reverse, .quote, c)
      else if x == '\\' then
        match (c.advance 1).readBreak? with
        | some (_, next) => some (read.reverse, .escapedBreak, next)
        | none =>
          match escape? r with
          | some (y, n) => readRun? single steps (y :: read) (c.advance (n + 1))
          | none => none
      else readRun? single steps (x :: read) (c.advance 1)

/-- Read up to the closing quote; `steps` bounds the number of runs. -/
def readQuotedBody? (single : Bool) : Nat → List Char → Cursor → Option (List Char × Cursor)
  | 0, _, _ => none
  | steps + 1, text, c =>
    if c.atDocumentMark || c.rest.isEmpty then none
    else match readRun? single c.left [] c with
      | none => none
      | some (run, .quote, c) => some (text ++ run, c.advance 1)
      | some (run, runEnd, c) =>
        let text := text ++ run
        let start : Gap := match runEnd with
          | .escapedBreak => { broken := true }
          | _ => {}
        if c.at? (if single then '\'' else '"') then some (text, c.advance 1)
        else match readGap? (fun _ _ => true) c.left start c with
          | none => none
          | some (g, c) => readQuotedBody? single steps (text ++ g.fold) c

/-- Read a quoted scalar; the cursor stands at its opening quote. -/
def readQuoted? (single : Bool) (c : Cursor) : Option (String × Cursor) :=
  (readQuotedBody? single (c.left + 1) [] (c.advance 1)).map fun e =>
    (String.ofList e.1, e.2)

end FlowPlanner.Yaml
