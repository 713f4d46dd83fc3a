/-
FlowPlanner.Yaml.Token — the pieces that a YAML text is cut into.
-/

namespace FlowPlanner.Yaml

/-- How a scalar is written. -/
inductive Style where
  | plain
  | singleQuoted
  | doubleQuoted
  | literal
  | folded
deriving DecidableEq, Repr

/-- A piece of a YAML text. Indentation shows as starts and ends of block collections. -/
inductive Token where
  | streamEnd
  | version (major minor : Nat)
  | tagDirective (handle : String) (stem : List UInt8)
  | documentStart
  | documentEnd
  | blockSequenceStart
  | blockMappingStart
  | blockEnd
  | flowSequenceStart
  | flowSequenceEnd
  | flowMappingStart
  | flowMappingEnd
  | blockEntry
  | flowEntry
  | key
  | value
  | alias (name : String)
  | anchor (name : String)
  | tag (handle : String) (tail : List UInt8)
  | scalar (style : Style) (text : String)
deriving DecidableEq, Repr, Inhabited

end FlowPlanner.Yaml
