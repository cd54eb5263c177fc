import CrystalLattice.Yaml.Problem

/-!
# Tokens

The scanner turns characters into tokens: indicators, the starts and ends of block and flow
collections (block ends come from indentation), directives, anchors, aliases, tags and
scalars. Each token records where it starts and where it stops.
-/

namespace CrystalLattice.Yaml

inductive ScalarStyle where
  | plain
  | singleQuoted
  | doubleQuoted
  | literal
  | folded
  deriving Repr, BEq, DecidableEq, Inhabited

inductive TokenKind where
  | streamStart
  | streamEnd
  | versionDirective (major minor : Nat)
  | tagDirective (handle uri : String)
  | documentStart
  | documentEnd
  | blockSequenceStart
  | blockMappingStart
  | blockEnd
  | flowSequenceStart
  | flowSequenceEnd
  | flowMappingStart
  | flowMappingEnd
  | blockEntry
  | flowEntry
  | key
  | value
  /-- An alias: a reference to the node with the anchor `name`. -/
  | reference (name : String)
  | anchor (name : String)
  | tag (handle suffix : String)
  | scalar (text : String) (style : ScalarStyle)
  deriving Repr, BEq, Inhabited

structure Token where
  kind : TokenKind
  start : Mark
  stop : Mark
  deriving Repr, Inhabited

end CrystalLattice.Yaml
