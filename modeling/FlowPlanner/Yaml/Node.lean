/-
FlowPlanner.Yaml.Node — the tree that a YAML document spells.

A node is a scalar, a sequence, a mapping or an alias. Anchored nodes are kept in
numbered slots, and an alias names a slot. The number of a slot is the count of
anchor names known when it was given, so a name that is given twice can make a
later anchor take over its slot; an alias means the last node to take its slot.
-/
import FlowPlanner.Yaml.Lexer

namespace FlowPlanner.Yaml

/-- A node of a document. -/
inductive Node where
  | scalar (tag : Option Tag) (style : Style) (text : String)
  | sequence (tag : Option Tag) (items : List Node)
  | mapping (tag : Option Tag) (entries : List (Node × Node))
  | alias (slot : Nat)
deriving Inhabited

/-- A document: its root, the node in each slot, and how many events spell it. -/
structure Document where
  root : Node
  slots : List (Nat × Node)
  events : Nat

/-! ## §1 The state of reading -/

/-- What is left of the tokens, and what is known of anchors and handles. -/
structure Composer where
  tokens : List Token
  /-- Handles defined by directives or by the format. -/
  handles : List (String × List UInt8) := []
  /-- The slot of each anchor name. -/
  names : List (String × Nat) := []
  /-- Who took each slot, latest first; anchored nodes are numbered as they begin. -/
  owners : List (Nat × Nat) := []
  /-- The anchored nodes that are complete, by number. -/
  anchored : List (Nat × Node) := []
  /-- Events so far. -/
  events : Nat := 0

/-- Reading that may fail. -/
abbrev Compose := StateT Composer Option

namespace Compose

/-- The next token. -/
def peek : Compose Token := do return (← get).tokens.headD .streamEnd

/-- Step over a token. -/
def next : Compose Unit := modify fun s => { s with tokens := s.tokens.drop 1 }

/-- Step over this token if it is the next one. -/
def accept (t : Token) : Compose Bool := do
  if (← peek) == t then do next; return true else return false

/-- Count events. -/
def count (n : Nat) : Compose Unit := modify fun s => { s with events := s.events + n }

/-- Give an anchor name to the node that begins here; the result is the node's number. -/
def openAnchor (name : String) : Compose Nat := do
  let s ← get
  let slot := (s.names.map (·.1)).eraseDups.length
  let owner := s.owners.length
  set { s with names := (name, slot) :: s.names, owners := (slot, owner) :: s.owners }
  return owner

/-- The anchored node with this number is complete. -/
def closeAnchor (owner : Option Nat) (n : Node) : Compose Node := do
  match owner with
  | some k => modify fun s => { s with anchored := (k, n) :: s.anchored }
  | none => pure ()
  return n

/-- The slot of an anchor name. -/
def slotOf (name : String) : Compose Nat := do
  match (← get).names.lookup name with
  | some slot => return slot
  | none => failure

/-- The tag that a handle and a tail spell. -/
def resolveTag (handle : String) (tail : List UInt8) : Compose Tag := do
  if handle.isEmpty then return .ofBytes tail
  match (← get).handles.lookup handle with
  | some stem => return .ofBytes (stem ++ tail)
  | none => failure

/-- An empty plain scalar. -/
def blank : Compose Node := do
  count 1
  return .scalar none .plain ""

/-- A node of an anchor and a tag alone is an empty scalar; without either there is no node. -/
def bare (owner : Option Nat) (tag : Option Tag) : Compose Node :=
  if owner.isSome || tag.isSome then do
    count 1
    closeAnchor owner (.scalar tag .plain "")
  else failure

/-- The anchor and the tag in front of a node, in either order. -/
def properties : Compose (Option String × Option Tag) := do
  match ← peek with
  | .anchor name =>
    next
    match ← peek with
    | .tag handle tail => next; return (some name, some (← resolveTag handle tail))
    | _ => return (some name, none)
  | .tag handle tail =>
    next
    let tag ← resolveTag handle tail
    match ← peek with
    | .anchor name => next; return (some name, some tag)
    | _ => return (none, some tag)
  | _ => return (none, none)

end Compose

/-! ## §2 Nodes -/

open Compose

mutual

/-- A node. In a block it may be a block collection; as the value of a key it may be a sequence that
is not indented. `steps` bounds the depth of the reading. -/
def composeNode : Nat → (block indentless : Bool) → Compose Node
  | 0, _, _ => failure
  | steps + 1, block, indentless => do
    match ← peek with
    | .alias name =>
      next
      count 1
      return .alias (← slotOf name)
    | _ =>
      let (anchor, tag) ← properties
      let owner ← match anchor with
        | some name => some <$> openAnchor name
        | none => pure none
      match ← peek with
      | .scalar style text =>
        next
        count 1
        closeAnchor owner (.scalar tag style text)
      | .flowSequenceStart =>
        next
        count 2
        closeAnchor owner (.sequence tag (← composeFlowItems steps true))
      | .flowMappingStart =>
        next
        count 2
        closeAnchor owner (.mapping tag (← composeFlowEntries steps true))
      | .blockEntry =>
        if indentless then do
          count 2
          closeAnchor owner (.sequence tag (← composeIndentlessItems steps))
        else bare owner tag
      | .blockSequenceStart =>
        if block then do
          next
          count 2
          closeAnchor owner (.sequence tag (← composeBlockItems steps))
        else bare owner tag
      | .blockMappingStart =>
        if block then do
          next
          count 2
          closeAnchor owner (.mapping tag (← composeBlockEntries steps))
        else bare owner tag
      | _ => bare owner tag

/-- The items of a block sequence, up to its end. -/
def composeBlockItems : Nat → Compose (List Node)
  | 0 => failure
  | steps + 1 => do
    match ← peek with
    | .blockEntry =>
      next
      let item ← match ← peek with
        | .blockEntry | .blockEnd => blank
        | _ => composeNode steps true false
      return item :: (← composeBlockItems steps)
    | .blockEnd => next; return []
    | _ => failure

/-- The items of a sequence that is not indented; what follows is left alone. -/
def composeIndentlessItems : Nat → Compose (List Node)
  | 0 => failure
  | steps + 1 => do
    match ← peek with
    | .blockEntry =>
      next
      let item ← match ← peek with
        | .blockEntry | .key | .value | .blockEnd => blank
        | _ => composeNode steps true false
      return item :: (← composeIndentlessItems steps)
    | _ => return []

/-- The entries of a block mapping, up to its end. -/
def composeBlockEntries : Nat → Compose (List (Node × Node))
  | 0 => failure
  | steps + 1 => do
    match ← peek with
    | .key =>
      next
      let key ← match ← peek with
        | .key | .value | .blockEnd => blank
        | _ => composeNode steps true true
      let value ← match ← peek with
        | .value =>
          next
          match ← peek with
          | .key | .value | .blockEnd => blank
          | _ => composeNode steps true true
        | _ => blank
      return (key, value) :: (← composeBlockEntries steps)
    | .blockEnd => next; return []
    | _ => failure

/-- The items of a flow sequence, up to its closing bracket; a comma stands before every item but
the first. -/
def composeFlowItems : Nat → (first : Bool) → Compose (List Node)
  | 0, _ => failure
  | steps + 1, first => do
    if ← accept .flowSequenceEnd then return []
    if !first then
      if !(← accept .flowEntry) then failure
    match ← peek with
    | .flowSequenceEnd => next; return []
    | .key =>
      next
      let pair ← composeFlowPair steps
      return pair :: (← composeFlowItems steps false)
    | _ =>
      let item ← composeNode steps false false
      return item :: (← composeFlowItems steps false)

/-- A mapping of one entry that stands without brackets in a flow sequence. A key that is missing
takes the next token with it. -/
def composeFlowPair : Nat → Compose Node
  | 0 => failure
  | steps + 1 => do
    count 2
    let key ← match ← peek with
      | .value | .flowEntry | .flowSequenceEnd => do next; blank
      | _ => composeNode steps false false
    let value ← match ← peek with
      | .value =>
        next
        match ← peek with
        | .flowEntry | .flowSequenceEnd => blank
        | _ => composeNode steps false false
      | _ => blank
    return .mapping none [(key, value)]

/-- The entries of a flow mapping, up to its closing bracket; a comma stands before every entry but
the first. -/
def composeFlowEntries : Nat → (first : Bool) → Compose (List (Node × Node))
  | 0, _ => failure
  | steps + 1, first => do
    if ← accept .flowMappingEnd then return []
    if !first then
      if !(← accept .flowEntry) then failure
    match ← peek with
    | .flowMappingEnd => next; return []
    | .key =>
      next
      let key ← match ← peek with
        | .value | .flowEntry | .flowMappingEnd => blank
        | _ => composeNode steps false false
      let value ← match ← peek with
        | .value =>
          next
          match ← peek with
          | .flowEntry | .flowMappingEnd => blank
          | _ => composeNode steps false false
        | _ => blank
      return (key, value) :: (← composeFlowEntries steps false)
    | _ =>
      let key ← composeNode steps false false
      let value ← blank
      return (key, value) :: (← composeFlowEntries steps false)

end

/-! ## §3 Documents -/

/-- The handles that the format defines. -/
def standardHandles : List (String × List UInt8) :=
  [("!", utf8 ['!']), ("!!", utf8 "tag:yaml.org,2002:".toList)]

/-- The directives in front of a document: one version at most, 1.1 or 1.2, and every handle once.
`steps` bounds their number. -/
def composeDirectives : Nat → (versioned : Bool) → List (String × List UInt8) →
    Compose (Bool × List (String × List UInt8))
  | 0, _, _ => failure
  | steps + 1, versioned, own => do
    match ← peek with
    | .version major minor =>
      if versioned || major != 1 || (minor != 1 && minor != 2) then failure
      next
      composeDirectives steps true own
    | .tagDirective handle stem =>
      if (own.lookup handle).isSome then failure
      next
      composeDirectives steps versioned ((handle, stem) :: own)
    | _ => return (versioned || !own.isEmpty, own)

/-- The only document of a stream; nothing but document ends may follow it. -/
def composeStream (size : Nat) : Compose Node := do
  let (directed, own) ← composeDirectives size false []
  modify fun s => { s with handles := own ++ standardHandles }
  let explicit ← accept .documentStart
  if directed && !explicit then failure
  let root ← match ← peek with
    | .streamEnd => blank
    | .documentStart | .documentEnd | .version _ _ | .tagDirective _ _ =>
      if explicit then blank else failure
    | _ => composeNode (4 * size + 4) true false
  modify fun s => { s with tokens := s.tokens.dropWhile (· == .documentEnd) }
  match ← peek with
  | .streamEnd => return root
  | _ => failure

/-- The document that a text spells; nothing if it spells none or several. -/
def document? (text : String) : Option Document := do
  let tokens ← tokens? text
  let (root, s) ← (composeStream (tokens.length + 1)).run { tokens }
  let slots := s.owners.filterMap fun e => (s.anchored.lookup e.2).map fun n => (e.1, n)
  return { root, slots, events := s.events }

end FlowPlanner.Yaml
