/-
FlowPlanner.Yaml.Tag — tags, and the directives at the head of a document.

A tag is a handle and a tail; the handle stands for a stem that directives or the
format itself define. A directive states the version or defines a handle. Tails
and stems are bytes, since their escapes are; what the stem and the tail together
mean is a `Tag`.
-/
import FlowPlanner.Text.Numeral
import FlowPlanner.Yaml.Cursor
import FlowPlanner.Yaml.Token

namespace FlowPlanner.Yaml

/-! ## §1 What a tag means -/

/-- What the tag of a node says about it. -/
inductive Tag where
  | bool
  | int
  | float
  | null
  /-- A name that the document itself gives meaning. -/
  | named (name : String)
  /-- A mark of such a name, and then bytes that are no text. -/
  | nameless
  /-- Any other tag. -/
  | other
deriving DecidableEq, Repr

namespace Tag

/-- The tag that a text stands for: a name follows an exclamation mark, and the mark alone is a name
too. -/
def ofText (text : String) : Tag :=
  match text with
  | "tag:yaml.org,2002:bool" => .bool
  | "tag:yaml.org,2002:int" => .int
  | "tag:yaml.org,2002:float" => .float
  | "tag:yaml.org,2002:null" => .null
  | _ =>
    match text.toList with
    | ['!'] => .named "!"
    | '!' :: name => .named (String.ofList name)
    | _ => .other

/-- The tag that bytes stand for. -/
def ofBytes (bytes : List UInt8) : Tag :=
  match String.fromUTF8? ⟨bytes.toArray⟩ with
  | some text => ofText text
  | none => if bytes.head? == some '!'.toUInt8 then .nameless else .other

/-- The name that a node goes by. -/
def name? : Tag → Option String
  | .named name => some name
  | _ => none

end Tag

/-! ## §2 Reading tags -/

/-- The bytes of a text in UTF-8. -/
def utf8 (cs : List Char) : List UInt8 := cs.flatMap String.utf8EncodeChar

/-- A character that a tag may hold; between angle brackets also commas and brackets. -/
def isTagChar (verbatim : Bool) (c : Char) : Bool :=
  isWordChar c || ";/?:@&=+$.!~*'()%".toList.contains c ||
    (verbatim && (c == ',' || c == '[' || c == ']'))

/-- How many bytes follow the first one of a character. -/
def followers? (first : UInt8) : Option Nat :=
  if first < 0x80 then some 0
  else if first < 0xC0 then none
  else if first < 0xE0 then some 1
  else if first < 0xF0 then some 2
  else if first < 0xF8 then some 3
  else none

/-- How many bytes are still to follow after this one, if `due` were to follow before it. -/
def stillDue? (due : Nat) (byte : UInt8) : Option Nat :=
  match due with
  | 0 => followers? byte
  | due + 1 => if 0x80 ≤ byte && byte < 0xC0 then some due else none

/-- The bytes of a text in which a percent sign and two hexadecimal digits stand for a byte. The
first byte of a character says how many follow it, and none but escaped ones may. -/
def unescapeBytes? : (due : Nat) → List Char → Option (List UInt8)
  | 0, [] => some []
  | _ + 1, [] => none
  | due, '%' :: a :: b :: cs => do
    let byte := UInt8.ofNat (← Text.digits? 16 [a, b])
    return byte :: (← unescapeBytes? (← stillDue? due byte) cs)
  | due, c :: cs =>
    if c == '%' || due != 0 then none else (unescapeBytes? 0 cs).map (utf8 [c] ++ ·)

/-- The bytes that part of a tag stands for; a zero byte ends it. -/
def unescapeTag? (cs : List Char) : Option (List UInt8) :=
  (unescapeBytes? 0 cs).map (·.takeWhile (· != 0))

/-- A handle: an exclamation mark, perhaps word characters, perhaps another exclamation mark. -/
def readHandle? (c : Cursor) : Option (List Char × Cursor) :=
  if c.at? '!' then
    let (word, c) := (c.advance 1).span isWordChar
    if c.at? '!' then some ('!' :: word ++ ['!'], c.advance 1) else some ('!' :: word, c)
  else none

/-- Read a tag: its handle and tail; the cursor stands at its exclamation mark. -/
def readTag? (inFlow : Bool) (c : Cursor) : Option (Token × Cursor) := do
  let (token, c) ←
    if c.rest.drop 1 |>.head? |> (· == some '<') then do
      let (written, c) := (c.advance 2).span (isTagChar true)
      if written.isEmpty || !c.at? '>' then none
      else pure (Token.tag "" (← unescapeTag? written), c.advance 1)
    else do
      let (handle, c) ← readHandle? c
      let (written, c) := c.span (isTagChar false)
      let tail ← unescapeTag? written
      if 2 ≤ handle.length && handle.getLast? == some '!' then
        if written.isEmpty then none
        else pure (Token.tag (String.ofList handle) tail, c)
      else
        let whole := utf8 (handle.drop 1) ++ tail
        if whole.isEmpty then pure (Token.tag "" (utf8 ['!']), c)
        else pure (Token.tag "!" whole, c)
  if c.endsAfter 0 || (inFlow && c.at? ',') then pure (token, c) else none

/-! ## §3 Directives -/

/-- A version: two numbers of at most nine digits and a point between them. -/
def readVersion? (c : Cursor) : Option (Token × Cursor) := do
  let (major, c) := c.span Text.isDecimal
  if !c.at? '.' || 9 < major.length then none
  let (minor, c) := (c.advance 1).span Text.isDecimal
  if 9 < minor.length then none
  pure (Token.version (← Text.digits? 10 major) (← Text.digits? 10 minor), c)

/-- A definition of a handle. -/
def readTagDirective? (c : Cursor) : Option (Token × Cursor) := do
  let (handle, c) ← readHandle? c
  if handle != ['!'] && !(2 ≤ handle.length && handle.getLast? == some '!') then none
  if !(c.peek?.any isBlank) then none
  let (written, c) := (c.skip isBlank).span (isTagChar true)
  if written.isEmpty || !c.endsAfter 0 then none
  pure (Token.tagDirective (String.ofList handle) (← unescapeTag? written), c)

/-- Read a directive and the rest of its line; the cursor stands at its percent sign. -/
def readDirective? (c : Cursor) : Option (Token × Cursor) := do
  let (name, c) := (c.advance 1).span isWordChar
  if !c.endsAfter 0 then none
  let body := c.skip isBlank
  let (token, c) ←
    if name == "YAML".toList then readVersion? body
    else if name == "TAG".toList then readTagDirective? body
    else none
  let c := (c.skip isBlank).skipComment
  match c.readBreak? with
  | some (_, c) => pure (token, c)
  | none => if c.rest.isEmpty then pure (token, c) else none

end FlowPlanner.Yaml
