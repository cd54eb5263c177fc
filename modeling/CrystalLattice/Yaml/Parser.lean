import CrystalLattice.Yaml.Scanner.Fetch
import CrystalLattice.Yaml.Event

/-!
# The event parser

A state machine over the token stream, one production per state. The states to return to
after a nested node sit on a stack, as do the marks where the open collections start; a
collection that is not closed properly is reported at its start when that is past the first
line. Tag handles are expanded through the `%TAG` directives of the document and the two
standard handles `!` and `!!`.
-/

namespace CrystalLattice.Yaml

inductive ParseState where
  | streamStart
  | implicitDocumentStart
  | documentStart
  | documentContent
  | documentEnd
  | blockNode
  | blockNodeOrIndentlessSequence
  | flowNode
  | blockSequenceFirstEntry
  | blockSequenceEntry
  | indentlessSequenceEntry
  | blockMappingFirstKey
  | blockMappingKey
  | blockMappingValue
  | flowSequenceFirstEntry
  | flowSequenceEntry
  | flowSequenceEntryMappingKey
  | flowSequenceEntryMappingValue
  | flowSequenceEntryMappingEnd
  | flowMappingFirstKey
  | flowMappingKey
  | flowMappingValue
  | flowMappingEmptyValue
  | finished
  deriving Repr, BEq, DecidableEq, Inhabited

/-- The parser: its scanner, state, stacks and tag directives. -/
structure Parser where
  scanner : Scanner
  state : ParseState
  states : List ParseState
  marks : List Mark
  directives : List (String × String)
  streamEnded : Bool
  deriving Inhabited

def Parser.new (src : Source) : Parser :=
  ⟨Scanner.new src, .streamStart, [], [], [], false⟩

abbrev ParseM := StateT Parser (Except Problem)

def liftScan {α : Type} (m : ScanM α) : ParseM α := do
  let p ← get
  match m.run p.scanner with
  | .ok (a, sc) =>
    set { p with scanner := sc }
    pure a
  | .error e => throw e

/-- Stop with a parser problem at `mark`, in the construct that starts at `context`. -/
def parseFail {α : Type} (context : Mark) (text : String) (mark : Mark) : ParseM α :=
  throw ⟨.parser, context, mark, text⟩

def peekToken : ParseM Token := liftScan Scanner.peekToken

def skipToken : ParseM Unit := do
  let t ← peekToken
  modify fun p => { p with streamEnded := t.kind == .streamEnd }
  liftScan Scanner.skipToken

def popState : ParseM Unit := modify fun p =>
  match p.states with
  | s :: rest => { p with state := s, states := rest }
  | [] => p

def pushState (s : ParseState) : ParseM Unit := modify fun p => { p with states := s :: p.states }

def goTo (s : ParseState) : ParseM Unit := modify fun p => { p with state := s }

def popMark : ParseM Mark := do
  let p ← get
  match p.marks with
  | m :: rest =>
    set { p with marks := rest }
    pure m
  | [] => pure default

def pushMarkAndSkip : ParseM Unit := do
  let t ← peekToken
  modify fun p => { p with marks := t.start :: p.marks }
  skipToken

def emptyScalar (mark : Mark) : ParseM Event := pure (.plain (.scalar "" .plain) mark)

def defaultDirectives : List (String × String) := [("!", "!"), ("!!", "tag:yaml.org,2002:")]

/-- Add a tag directive; a second one for the same handle is a problem unless duplicates are
allowed, in which case it is ignored. -/
def appendDirective (d : String × String) (allowDuplicates : Bool) (mark : Mark) :
    ParseM Unit := do
  let p ← get
  if p.directives.any (·.1 == d.1) then
    if allowDuplicates then return
    parseFail default "found duplicate %TAG directive" mark
  set { p with directives := p.directives ++ [d] }

/-- Read the directives before a document, then add the standard handles. -/
def processDirectives : ParseM Unit := do
  let bound := (← get).scanner.bound
  let mut version : Option (Nat × Nat) := none
  for _ in [0:bound] do
    let t ← peekToken
    match t.kind with
    | .versionDirective major minor =>
      if version.isSome then parseFail default "found duplicate %YAML directive" t.start
      if major ≠ 1 || minor ≠ 1 then parseFail default "found incompatible YAML document" t.start
      version := some (major, minor)
    | .tagDirective handle uri => appendDirective (handle, uri) false t.start
    | _ => break
    skipToken
  let t ← peekToken
  for d in defaultDirectives do
    appendDirective d true t.start

def startsDocument (k : TokenKind) : Bool :=
  match k with
  | .versionDirective _ _ | .tagDirective _ _ | .documentStart | .streamEnd => true
  | _ => false

def parseStreamStart : ParseM Event := do
  let t ← peekToken
  if t.kind != .streamStart then parseFail default "did not find expected <stream-start>" t.start
  goTo .implicitDocumentStart
  skipToken
  pure (.plain .streamStart t.start)

def parseDocumentStart (implicit : Bool) : ParseM Event := do
  let bound := (← get).scanner.bound
  let mut t ← peekToken
  if !implicit then
    for _ in [0:bound] do
      if t.kind != .documentEnd then break
      skipToken
      t ← peekToken
  if implicit && !startsDocument t.kind then
    processDirectives
    pushState .documentEnd
    goTo .blockNode
    pure (.plain .documentStart t.start)
  else if t.kind != .streamEnd then
    let start := t.start
    processDirectives
    let found ← peekToken
    if found.kind != .documentStart then
      parseFail default "did not find expected <document start>" found.start
    pushState .documentEnd
    goTo .documentContent
    skipToken
    pure (.plain .documentStart start)
  else
    goTo .finished
    skipToken
    pure (.plain .streamEnd t.start)

def parseDocumentEnd : ParseM Event := do
  let t ← peekToken
  if t.kind == .documentEnd then skipToken
  modify fun p => { p with directives := [] }
  goTo .documentStart
  pure (.plain .documentEnd t.start)

/-- A node: an alias, or an optional anchor and tag followed by a scalar or the start of a
collection; with an anchor or tag but nothing else, an empty scalar. -/
def parseNode (block indentless : Bool) : ParseM Event := do
  let mut t ← peekToken
  if let .reference name := t.kind then
    popState
    skipToken
    return .plain (.reference name) t.start
  let mut start := t.start
  let mut anchor : Option String := none
  let mut tagged : Option (String × String × Mark) := none
  if let .anchor a := t.kind then
    anchor := some a
    skipToken
    t ← peekToken
    if let .tag h s := t.kind then
      tagged := some (h, s, t.start)
      skipToken
      t ← peekToken
  else if let .tag h s := t.kind then
    tagged := some (h, s, t.start)
    start := t.start
    skipToken
    t ← peekToken
    if let .anchor a := t.kind then
      anchor := some a
      skipToken
      t ← peekToken
  let mut tag := ""
  if let some (handle, suffix, tagMark) := tagged then
    if handle.isEmpty then tag := suffix
    else
      match (← get).directives.lookup handle with
      | some uri => tag := uri ++ suffix
      | none => pure ()
      if tag.isEmpty then parseFail start "found undefined tag handle" tagMark
  let ev (k : EventKind) : Event := ⟨k, start, anchor, tag⟩
  match t.kind with
  | .blockEntry =>
    if indentless then
      goTo .indentlessSequenceEntry
      return ev (.sequenceStart false)
  | .scalar text style =>
    popState
    skipToken
    return ev (.scalar text style)
  | .flowSequenceStart =>
    goTo .flowSequenceFirstEntry
    return ev (.sequenceStart true)
  | .flowMappingStart =>
    goTo .flowMappingFirstKey
    return ev (.mappingStart true)
  | .blockSequenceStart =>
    if block then
      goTo .blockSequenceFirstEntry
      return ev (.sequenceStart false)
  | .blockMappingStart =>
    if block then
      goTo .blockMappingFirstKey
      return ev (.mappingStart false)
  | _ => pure ()
  if anchor.isSome || !tag.isEmpty then
    popState
    return ev (.scalar "" .plain)
  parseFail start "did not find expected node content" t.start

def parseBlockSequenceEntry (first : Bool) : ParseM Event := do
  if first then pushMarkAndSkip
  let t ← peekToken
  match t.kind with
  | .blockEntry =>
    let mark := t.stop
    skipToken
    let t ← peekToken
    if t.kind != .blockEntry && t.kind != .blockEnd then
      pushState .blockSequenceEntry
      parseNode true false
    else
      goTo .blockSequenceEntry
      emptyScalar mark
  | .blockEnd =>
    popState
    let _ ← popMark
    skipToken
    pure (.plain .sequenceEnd t.start)
  | _ =>
    let context ← popMark
    parseFail context "did not find expected '-' indicator" t.start

def parseIndentlessSequenceEntry : ParseM Event := do
  let t ← peekToken
  if t.kind == .blockEntry then
    let mark := t.stop
    skipToken
    let t ← peekToken
    if t.kind != .blockEntry && t.kind != .key && t.kind != .value && t.kind != .blockEnd then
      pushState .indentlessSequenceEntry
      parseNode true false
    else
      goTo .indentlessSequenceEntry
      emptyScalar mark
  else
    popState
    pure (.plain .sequenceEnd t.start)

def parseBlockMappingKey (first : Bool) : ParseM Event := do
  if first then pushMarkAndSkip
  let t ← peekToken
  match t.kind with
  | .key =>
    let mark := t.stop
    skipToken
    let t ← peekToken
    if t.kind != .key && t.kind != .value && t.kind != .blockEnd then
      pushState .blockMappingValue
      parseNode true true
    else
      goTo .blockMappingValue
      emptyScalar mark
  | .blockEnd =>
    popState
    let _ ← popMark
    skipToken
    pure (.plain .mappingEnd t.start)
  | _ =>
    let context ← popMark
    parseFail context "did not find expected key" t.start

/-- A value of a block mapping; empty when the `:` or the value is missing. -/
def parseBlockMappingValue : ParseM Event := do
  let t ← peekToken
  if t.kind == .value then
    let mark := t.stop
    skipToken
    let t ← peekToken
    if t.kind != .key && t.kind != .value && t.kind != .blockEnd then
      pushState .blockMappingKey
      parseNode true true
    else
      goTo .blockMappingKey
      emptyScalar mark
  else
    goTo .blockMappingKey
    emptyScalar t.start

def parseFlowSequenceEntry (first : Bool) : ParseM Event := do
  if first then pushMarkAndSkip
  let mut t ← peekToken
  if t.kind != .flowSequenceEnd then
    if !first then
      if t.kind == .flowEntry then
        skipToken
        t ← peekToken
      else
        let context ← popMark
        parseFail context "did not find expected ',' or ']'" t.start
    if t.kind == .key then
      goTo .flowSequenceEntryMappingKey
      skipToken
      return .plain (.mappingStart true) t.start
    else if t.kind != .flowSequenceEnd then
      pushState .flowSequenceEntry
      return (← parseNode false false)
  popState
  let _ ← popMark
  skipToken
  pure (.plain .sequenceEnd t.start)

def parseFlowSequenceEntryMappingKey : ParseM Event := do
  let t ← peekToken
  if t.kind != .value && t.kind != .flowEntry && t.kind != .flowSequenceEnd then
    pushState .flowSequenceEntryMappingValue
    parseNode false false
  else
    let mark := t.stop
    skipToken
    goTo .flowSequenceEntryMappingValue
    emptyScalar mark

def parseFlowSequenceEntryMappingValue : ParseM Event := do
  let t ← peekToken
  if t.kind == .value then
    skipToken
    let next ← peekToken
    if next.kind != .flowEntry && next.kind != .flowSequenceEnd then
      pushState .flowSequenceEntryMappingEnd
      return (← parseNode false false)
  goTo .flowSequenceEntryMappingEnd
  emptyScalar t.start

def parseFlowSequenceEntryMappingEnd : ParseM Event := do
  let t ← peekToken
  goTo .flowSequenceEntry
  pure (.plain .mappingEnd t.start)

def parseFlowMappingKey (first : Bool) : ParseM Event := do
  if first then pushMarkAndSkip
  let mut t ← peekToken
  if t.kind != .flowMappingEnd then
    if !first then
      if t.kind == .flowEntry then
        skipToken
        t ← peekToken
      else
        let context ← popMark
        parseFail context "did not find expected ',' or '\x7d'" t.start
    if t.kind == .key then
      skipToken
      let next ← peekToken
      if next.kind != .value && next.kind != .flowEntry && next.kind != .flowMappingEnd then
        pushState .flowMappingValue
        return (← parseNode false false)
      else
        goTo .flowMappingValue
        return (← emptyScalar next.start)
    else if t.kind != .flowMappingEnd then
      pushState .flowMappingEmptyValue
      return (← parseNode false false)
  popState
  let _ ← popMark
  skipToken
  pure (.plain .mappingEnd t.start)

def parseFlowMappingValue (empty : Bool) : ParseM Event := do
  let mut t ← peekToken
  if empty then
    goTo .flowMappingKey
    return (← emptyScalar t.start)
  if t.kind == .value then
    skipToken
    t ← peekToken
    if t.kind != .flowEntry && t.kind != .flowMappingEnd then
      pushState .flowMappingKey
      return (← parseNode false false)
  goTo .flowMappingKey
  emptyScalar t.start

/-- The next event, or `none` once the stream has ended. -/
def nextEvent : ParseM (Option Event) := do
  let p ← get
  if p.streamEnded || p.state = .finished then return none
  let e ← match p.state with
    | .streamStart => parseStreamStart
    | .implicitDocumentStart => parseDocumentStart true
    | .documentStart => parseDocumentStart false
    | .documentContent => do
      let t ← peekToken
      if startsDocument t.kind || t.kind == .documentEnd then
        popState
        emptyScalar t.start
      else parseNode true false
    | .documentEnd => parseDocumentEnd
    | .blockNode => parseNode true false
    | .blockNodeOrIndentlessSequence => parseNode true true
    | .flowNode => parseNode false false
    | .blockSequenceFirstEntry => parseBlockSequenceEntry true
    | .blockSequenceEntry => parseBlockSequenceEntry false
    | .indentlessSequenceEntry => parseIndentlessSequenceEntry
    | .blockMappingFirstKey => parseBlockMappingKey true
    | .blockMappingKey => parseBlockMappingKey false
    | .blockMappingValue => parseBlockMappingValue
    | .flowSequenceFirstEntry => parseFlowSequenceEntry true
    | .flowSequenceEntry => parseFlowSequenceEntry false
    | .flowSequenceEntryMappingKey => parseFlowSequenceEntryMappingKey
    | .flowSequenceEntryMappingValue => parseFlowSequenceEntryMappingValue
    | .flowSequenceEntryMappingEnd => parseFlowSequenceEntryMappingEnd
    | .flowMappingFirstKey => parseFlowMappingKey true
    | .flowMappingKey => parseFlowMappingKey false
    | .flowMappingValue => parseFlowMappingValue false
    | .flowMappingEmptyValue => parseFlowMappingValue true
    | .finished => parseDocumentEnd
  pure (some e)

end CrystalLattice.Yaml
