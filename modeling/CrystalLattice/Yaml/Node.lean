import CrystalLattice.Yaml.Parser
import CrystalLattice.Yaml.Resolve

/-!
# Nodes

The first document of a stream as a tree of nodes, each with its resolved tag. Anchored nodes are
kept in a table that aliases index; an anchor is in scope from the moment its node starts.
-/

namespace CrystalLattice.Yaml

inductive Node where
  | scalar (tag text : String) (style : ScalarStyle) (line : Nat)
  | sequence (tag : String) (items : List Node) (line : Nat)
  | mapping (tag : String) (entries : List (Node × Node)) (line : Nat)
  /-- An alias of the anchored node at index `target` of the anchor table; `serial` tells
  aliases apart. -/
  | reference (name : String) (target serial : Nat) (line : Nat)
  deriving Inhabited

namespace Node

def line : Node → Nat
  | scalar _ _ _ l | sequence _ _ l | mapping _ _ l | reference _ _ _ l => l

def tag : Node → String
  | scalar t _ _ _ | sequence t _ _ | mapping t _ _ => t
  | reference _ _ _ _ => ""

def text : Node → String
  | scalar _ t _ _ => t
  | reference n _ _ _ => n
  | _ => ""

def kindCode : Node → Nat
  | scalar .. => 0
  | sequence .. => 1
  | mapping .. => 2
  | reference .. => 3

end Node

/-- The composer: the parser, one event looked at, the anchors in scope, the anchored nodes,
and the count of aliases. -/
structure Composer where
  parser : Parser
  pending : Option Event
  anchors : List (String × Nat)
  table : Array Node
  aliases : Nat

abbrev ComposeM := StateT Composer (Except String)

def peekEvent : ComposeM Event := do
  let c ← get
  match c.pending with
  | some e => pure e
  | none =>
    match nextEvent.run c.parser with
    | .ok (some e, p) =>
      set { c with parser := p, pending := some e }
      pure e
    | .ok (none, p) =>
      set { c with parser := p }
      throw "attempted to go past the end of stream; corrupted value?"
    | .error problem => throw problem.message

def takeEvent : ComposeM Unit := do
  let e ← peekEvent
  if e.kind == .streamEnd then throw "attempted to go past the end of stream; corrupted value?"
  modify fun c => { c with pending := none }

/-- The tag of a node: an explicit tag other than `!`, else the default of its kind. -/
def nodeTag (explicit defaultTag : String) (resolveText : Option String) : String :=
  if explicit ≠ "" && explicit ≠ "!" then shortTag explicit
  else if defaultTag ≠ "" then defaultTag
  else match resolveText with
    | some t => plainTag t
    | none => ""

def openAnchor (anchor : Option String) : ComposeM (Option Nat) := do
  match anchor with
  | none => pure none
  | some name =>
    let c ← get
    let k := c.table.size
    set { c with table := c.table.push default,
                 anchors := (name, k) :: c.anchors.filter (·.1 ≠ name) }
    pure (some k)

def closeAnchor (k : Option Nat) (n : Node) : ComposeM Unit :=
  match k with
  | none => pure ()
  | some k => modify fun c => { c with table := c.table.set! k n }

mutual

/-- The node that starts at the next event. -/
def composeNode : Nat → ComposeM Node
  | 0 => throw "attempted to go past the end of stream; corrupted value?"
  | fuel + 1 => do
    let e ← peekEvent
    let line := e.start.line + 1
    match e.kind with
    | .scalar text style =>
      let defaultTag :=
        if style == .plain then (if text = "<<" then mergeTag else "") else strTag
      let n := Node.scalar (nodeTag e.tag defaultTag (some text)) text style line
      let k ← openAnchor e.anchor
      closeAnchor k n
      takeEvent
      pure n
    | .reference name =>
      let c ← get
      match c.anchors.lookup name with
      | none => throw s!"unknown anchor '{name}' referenced"
      | some k =>
        set { c with aliases := c.aliases + 1 }
        takeEvent
        pure (.reference name k c.aliases line)
    | .sequenceStart _ =>
      let tag := nodeTag e.tag seqTag none
      let k ← openAnchor e.anchor
      takeEvent
      let items ← composeItems fuel #[]
      takeEvent
      let n := Node.sequence tag items.toList line
      closeAnchor k n
      pure n
    | .mappingStart _ =>
      let tag := nodeTag e.tag mapTag none
      let k ← openAnchor e.anchor
      takeEvent
      let entries ← composeEntries fuel #[]
      takeEvent
      let n := Node.mapping tag entries.toList line
      closeAnchor k n
      pure n
    | _ => throw "attempted to parse unknown event (please report)"

def composeItems : Nat → Array Node → ComposeM (Array Node)
  | 0, acc => pure acc
  | fuel + 1, acc => do
    if (← peekEvent).kind == .sequenceEnd then return acc
    let n ← composeNode fuel
    composeItems fuel (acc.push n)

def composeEntries : Nat → Array (Node × Node) → ComposeM (Array (Node × Node))
  | 0, acc => pure acc
  | fuel + 1, acc => do
    if (← peekEvent).kind == .mappingEnd then return acc
    let key ← composeNode fuel
    let value ← composeNode fuel
    composeEntries fuel (acc.push (key, value))

end

/-- The root node of the first document of a text and the table of anchored nodes, or `none`
when the stream holds no document. -/
def firstDocument (text : String) : Except String (Option (Node × Array Node)) :=
  let src := Source.ofString text
  let fuel := 16 * (src.chars.size + 16)
  let run : ComposeM (Option Node) := do
    let e ← peekEvent
    if e.kind != .streamStart then throw "expected stream start"
    takeEvent
    let e ← peekEvent
    if e.kind == .streamEnd then return none
    takeEvent
    let root ← composeNode fuel
    let _ ← peekEvent
    takeEvent
    pure (some root)
  match run.run ⟨Parser.new src, none, [], #[], 0⟩ with
  | .ok (some root, c) => .ok (some (root, c.table))
  | .ok (none, _) => .ok none
  | .error e => .error e

end CrystalLattice.Yaml
