/-
FlowPlanner.Yaml.Decode — reading YAML nodes as data of a known type.

Text takes any scalar as it is written; numbers and truth values are plain
scalars; a list or record may be left empty altogether. `Fields` are the entries
of a record by name: a name that the record knows stands at most once.
-/
import FlowPlanner.Yaml.Value

namespace FlowPlanner.Yaml

/-- The value, or failure. -/
def orFail {β : Type} : Option β → Decode β
  | some b => return b
  | none => failure

/-! ## §1 Scalars -/

/-- The text of a scalar, whatever its style. -/
def decodeText (n : Node) : Decode String := do
  match ← follow n with
  | .scalar _ _ s => return s
  | _ => failure

/-- A scalar read as something else than text: it is plain, or tagged in so many words. -/
def decodePlain {β : Type} (tag : Tag) (read : String → Option β) (n : Node) : Decode β := do
  match ← follow n with
  | .scalar t style s =>
    if style == .plain || (style == .literal && t == some tag) then orFail (read s) else failure
  | _ => failure

/-- A non-negative integer below a limit. -/
def decodeNat (limit : Nat) (n : Node) : Decode Nat :=
  decodePlain .int (fun s => (natural? s).filter (· < limit)) n

/-- A double; an integer counts as one. -/
def decodeFloat (n : Node) : Decode Float := decodePlain .float float? n

/-- A truth value. -/
def decodeBool (n : Node) : Decode Bool := decodePlain .bool boolean? n

/-- One of some words; the name in a tag is a word as well if no value follows it. -/
def decodeWord {β : Type} (word? : String → Option β) (n : Node) : Decode β := do
  match ← follow n with
  | .scalar tag style s =>
    match tag.bind Tag.name? with
    | some name =>
      if style == .plain && (s.isEmpty || isNullWord s) then orFail (word? name) else failure
    | none => orFail (word? s)
  | _ => failure

/-! ## §2 What may be left out, lists and records -/

/-- A scalar that says nothing. -/
def isAbsent (tag : Option Tag) (style : Style) (s : String) : Decode Bool :=
  if style != .plain then return false
  else match tag with
    | none => return s.isEmpty || isNullWord s
    | some .null => if isNullWord s then return true else failure
    | some _ => return false

/-- A value, or nothing where the scalar says nothing. -/
def decodeOption {β : Type} (decode : Node → Decode β) (n : Node) : Decode (Option β) := do
  let n ← follow n
  match n with
  | .scalar tag style s => if ← isAbsent tag style s then return none else some <$> decode n
  | _ => some <$> decode n

/-- A list; an empty scalar is the empty list. -/
def decodeList {β : Type} (decode : Node → Decode β) (n : Node) : Decode (List β) := do
  match ← follow n with
  | .sequence _ items => items.mapM decode
  | .scalar _ .plain "" => return []
  | _ => failure

/-- The entries of a mapping; an empty scalar has none. -/
def decodeMapping (n : Node) : Decode (List (Node × Node)) := do
  match ← follow n with
  | .mapping _ entries => return entries
  | .scalar _ .plain "" => return []
  | _ => failure

/-- The fields of a record by name. -/
abbrev Fields := List (String × Node)

/-- The fields of a record: names of `known` stand at most once, and other names are refused if the
record is `closed`, else ignored. -/
def decodeFields (known : List String) (closed : Bool) (n : Node) : Decode Fields := do
  let entries ← decodeMapping n
  let fields ← entries.mapM fun e => do return (← decodeText e.1, e.2)
  let own := fields.filter fun f => known.contains f.1
  if closed && own.length != fields.length then failure
  if (own.map (·.1)).eraseDups.length != own.length then failure
  return own

namespace Fields

/-- A field that has to be there. -/
def require {β : Type} (fields : Fields) (name : String) (decode : Node → Decode β) : Decode β :=
  match fields.lookup name with
  | some n => decode n
  | none => failure

/-- A field with a default. -/
def withDefault {β : Type} (fields : Fields) (name : String) (default : β)
    (decode : Node → Decode β) : Decode β :=
  match fields.lookup name with
  | some n => decode n
  | none => return default

/-- A field that may be absent or say nothing. -/
def optional {β : Type} (fields : Fields) (name : String) (decode : Node → Decode β) :
    Decode (Option β) :=
  fields.withDefault name none (decodeOption decode)

end Fields

/-- Read a whole document; aliases are followed at most a hundred times per event. -/
def Document.decode? {β : Type} (d : Document) (decode : Node → Decode β) : Option β :=
  ((decode d.root).run d).run' (d.events * 100)

end FlowPlanner.Yaml
