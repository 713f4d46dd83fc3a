/-
FlowPlanner.Yaml.Value — YAML data where no type is expected.

Aliases are followed while a value is built. The number of times an alias may be
followed and the depth of collections are limited, so that every value is
finite and its size is bounded. `Value.text` is the form that messages show, and
`Value.same` tells the keys of a mapping apart.
-/
import FlowPlanner.Text.Quoted
import FlowPlanner.Yaml.Node
import FlowPlanner.Yaml.Scalar

namespace FlowPlanner.Yaml

/-- YAML data. -/
inductive Value where
  | null
  | bool (b : Bool)
  | int (n : Int)
  | float (x : Float)
  | string (s : String)
  | sequence (items : List Value)
  | mapping (entries : List (Value × Value))
  | tagged (tag : String) (value : Value)
deriving Inhabited

/-! ## §1 The text of a value -/

/-- The name of a tag without the mark in front of it; the mark alone is a name. -/
def bareName (name : String) : String :=
  match name.toList with
  | '!' :: c :: cs => String.ofList (c :: cs)
  | _ => name

mutual

/-- A value as messages show it. -/
def Value.text : Value → String
  | .null => "Null"
  | .bool b => "Bool(" ++ toString b ++ ")"
  | .int n => "Number(" ++ toString n ++ ")"
  | .float x => "Number(" ++ numberLayout.render x ++ ")"
  | .string s => "String(" ++ Text.quoted s ++ ")"
  | .sequence items => "Sequence [" ++ ", ".intercalate (itemTexts items) ++ "]"
  | .mapping entries => "Mapping \x7b" ++ ", ".intercalate (entryTexts entries) ++ "\x7d"
  | .tagged tag value =>
    "TaggedValue \x7b tag: !" ++ bareName tag ++ ", value: " ++ value.text ++ " \x7d"

/-- The items of a sequence as messages show them. -/
def itemTexts : List Value → List String
  | [] => []
  | v :: vs => v.text :: itemTexts vs

/-- The entries of a mapping as messages show them. -/
def entryTexts : List (Value × Value) → List String
  | [] => []
  | e :: es => entryText e :: entryTexts es

/-- An entry of a mapping: a simple key stands without the name of its type. -/
def entryText : Value × Value → String
  | (.bool b, v) => toString b ++ ": " ++ v.text
  | (.int n, v) => toString n ++ ": " ++ v.text
  | (.float x, v) => numberLayout.render x ++ ": " ++ v.text
  | (.string s, v) => Text.quoted s ++ ": " ++ v.text
  | (k, v) => k.text ++ ": " ++ v.text

end

/-- The scalar that a value is as text; nothing for null and collections. -/
def Value.scalarText? : Value → Option String
  | .bool b => some (toString b)
  | .int n => some (toString n)
  | .float x => some (numberLayout.render x)
  | .string s => some s
  | _ => none

/-! ## §2 Equal values -/

/-- Two doubles are equal as numbers, or neither is a number. -/
def sameFloat (x y : Float) : Bool := x == y || (x.isNaN && y.isNaN)

mutual

/-- Two values are equal. The order of a mapping's entries does not count. -/
def Value.same : Value → Value → Bool
  | .null, .null => true
  | .bool a, .bool b => a == b
  | .int a, .int b => a == b
  | .float x, .float y => sameFloat x y
  | .string s, .string t => s == t
  | .sequence xs, .sequence ys => sameItems xs ys
  | .mapping xs, .mapping ys => xs.length == ys.length && entriesIn xs ys
  | .tagged s v, .tagged t w => bareName s == bareName t && v.same w
  | _, _ => false

/-- Two lists have equal items in the same order. -/
def sameItems : List Value → List Value → Bool
  | [], [] => true
  | v :: vs, w :: ws => v.same w && sameItems vs ws
  | _, _ => false

/-- Every entry of the first list has an equal one in the second. -/
def entriesIn : List (Value × Value) → List (Value × Value) → Bool
  | [], _ => true
  | e :: es, others => others.any (sameEntry e) && entriesIn es others

/-- Two entries have equal keys and equal values. -/
def sameEntry : Value × Value → Value × Value → Bool
  | (k, v), (l, w) => k.same l && v.same w

end

/-! ## §3 Reading data out of a document -/

/-- Reading data out of a document: it may fail, and it may follow only so many aliases. -/
abbrev Decode := ReaderT Document (StateT Nat Option)

/-- The node itself, or the one that an alias stands for. -/
def follow : Node → Decode Node
  | .alias slot => do
    match ← getThe Nat with
    | 0 => failure
    | left + 1 =>
      set left
      match (← read).slots.lookup slot with
      | some n => return n
      | none => failure
  | n => return n

/-- The value of a plain scalar. -/
def plainValue? (s : String) : Option Value :=
  if s.isEmpty || isNullWord s then some .null
  else match boolean? s with
    | some b => some (.bool b)
    | none =>
      match integer? s with
      | some n =>
        if -Int.pow 2 63 ≤ n ∧ n < Int.pow 2 64 then some (.int n)
        else if -Int.pow 2 127 ≤ n ∧ n < Int.pow 2 128 then none
        else otherwise s
      | none => otherwise s
where
  /-- A decimal number or text. -/
  otherwise (s : String) : Option Value :=
    if isZeroPadded s.toList then some (.string s)
    else match float? s with
      | some x => some (.float x)
      | none => some (.string s)

/-- The value of a scalar with a tag of the format, or without a tag. -/
def scalarValue? (tag : Option Tag) (style : Style) (s : String) : Option Value :=
  match tag with
  | some .bool => (boolean? s).map .bool
  | some .int =>
    match integer? s with
    | some n => if -Int.pow 2 63 ≤ n ∧ n < Int.pow 2 64 then some (.int n) else none
    | none => none
  | some .float => (float? s).map .float
  | some .null => if isNullWord s then some .null else none
  | some .other => some (.string s)
  | some (.named _) | some .nameless | none =>
    if style == .plain then plainValue? s else some (.string s)

/-- Give a value the name in its tag, if there is one. -/
def wrap (tag : Option Tag) (v : Value) : Value :=
  match tag.bind Tag.name? with
  | some name => .tagged name v
  | none => v

/-- The value of a scalar. -/
def decodeScalar (tag : Option Tag) (style : Style) (s : String) : Decode Value :=
  match scalarValue? tag style s with
  | some v => return wrap tag v
  | none => failure

/-- The entries of a mapping, given how nodes are read; a key equal to one of those `seen` is
refused. -/
def decodeEntries (decode : Node → Decode Value) :
    (seen : List Value) → List (Node × Node) → Decode (List (Value × Value))
  | _, [] => return []
  | seen, (k, v) :: es => do
    let key ← decode k
    if seen.any key.same then failure
    let value ← decode v
    return (key, value) :: (← decodeEntries decode (key :: seen) es)

/-- The value of a node; `depth` is how many collections may still be nested. -/
def decodeValue : (depth : Nat) → Node → Decode Value
  | 0, n => do
    match ← follow n with
    | .scalar tag style s => decodeScalar tag style s
    | _ => failure
  | depth + 1, n => do
    match ← follow n with
    | .scalar tag style s => decodeScalar tag style s
    | .sequence tag items => return wrap tag (.sequence (← items.mapM (decodeValue depth)))
    | .mapping tag entries =>
      return wrap tag (.mapping (← decodeEntries (decodeValue depth) [] entries))
    | .alias _ => failure

end FlowPlanner.Yaml
