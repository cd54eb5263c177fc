import CrystalLattice.Yaml.Token

/-!
# Events

The parser turns tokens into a stream of events: the stream and each document start and end,
collections start and end, and scalars and aliases come one event each. A node's anchor and
tag travel on the event that starts it; the tag is already expanded through the tag
directives.
-/

namespace CrystalLattice.Yaml

inductive EventKind where
  | streamStart
  | streamEnd
  | documentStart
  | documentEnd
  /-- An alias: a reference to the node with the anchor `name`. -/
  | reference (name : String)
  | scalar (text : String) (style : ScalarStyle)
  | sequenceStart (flow : Bool)
  | sequenceEnd
  | mappingStart (flow : Bool)
  | mappingEnd
  deriving Repr, BEq, Inhabited

/-- An event with the mark where it starts, and the anchor and tag of the node it starts. -/
structure Event where
  kind : EventKind
  start : Mark
  anchor : Option String
  tag : String
  deriving Repr, Inhabited

def Event.plain (kind : EventKind) (start : Mark) : Event := ⟨kind, start, none, ""⟩

end CrystalLattice.Yaml
