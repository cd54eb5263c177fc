import CrystalLattice.Yaml.Scanner.Scalar
import CrystalLattice.Yaml.Scanner.Directive

/-!
# Fetching tokens

Each fetch skips blanks, comments and line breaks, closes the indentation levels, and scans one
token chosen by its first character. The queue is filled until its first token is settled.
-/

namespace CrystalLattice.Yaml

/-- Consume a comment and any further comment lines after it, with the blank or empty lines
between them, looking at most 512 characters past the end of each comment. -/
def scanComments : ScanM Unit := do
  let bound := (← get).bound
  let mut peek := 0
  for _ in [0:bound * 514] do
    if peek ≥ 512 then break
    ensure (peek + 1)
    let s ← get
    let c := s.ahead peek
    if isBlank c then
      peek := peek + 1
      continue
    if (s.flowLevel > 0 && (c = ']' || c = '}')) || isBreakOrEnd c then
      if !isBreak c then break
      peek := peek + 1
      continue
    if c ≠ '#' then break
    let seen := s.mark.index + peek
    for _ in [0:bound + peek] do
      ensure 1
      let s ← get
      if isBreakOrEnd (s.ahead 0) then
        if s.mark.index ≥ seen then break
        ensure 2
        skipLine
      else skip
    peek := 1

/-- Skip to the start of the next token. At the start of a line, one character is passed over
when the read buffer starts with a byte order mark. -/
def scanToNextToken : ScanM Unit := do
  let bound := (← get).bound
  for _ in [0:bound] do
    let s ← get
    if s.mark.column = 0 && (s.source.chars.getD s.bufferStart ' ').toNat = 0xFEFF then skip
    ensure 1
    for _ in [0:bound] do
      let s ← get
      let c := s.ahead 0
      if c = ' ' || ((s.flowLevel > 0 || !s.keyAllowed) && c = '\t') then
        skip
        ensure 1
      else break
    if (← get).ahead 0 = '#' then scanComments
    let s ← get
    if isBreak (s.ahead 0) then
      ensure 2
      skipLine
      if s.flowLevel = 0 then modify fun s => { s with keyAllowed := true }
    else break

def pushHere (kind : TokenKind) : ScanM Unit := do
  let m := (← get).mark
  insertToken none ⟨kind, m, m⟩

def pushIndicator (kind : TokenKind) (width : Nat) : ScanM Unit := do
  let start := (← get).mark
  for _ in [0:width] do
    skip
  insertToken none ⟨kind, start, (← get).mark⟩

def fetchStreamStart : ScanM Unit := do
  modify fun s =>
    { s with indent := -1, keys := s.keys.push default, keyAllowed := true, started := true }
  pushHere .streamStart

/-- The last token; it may be fetched more than once. -/
def fetchStreamEnd : ScanM Unit := do
  let s ← get
  if s.mark.column ≠ 0 then set { s with mark := { s.mark with column := 0, line := s.mark.line + 1 } }
  unrollIndent (-1) (← get).mark
  removeKey
  modify fun s => { s with keyAllowed := false }
  pushHere .streamEnd

def fetchDirective : ScanM Unit := do
  unrollIndent (-1) (← get).mark
  removeKey
  modify fun s => { s with keyAllowed := false }
  let t ← scanDirective
  insertToken none t

def fetchDocumentIndicator (kind : TokenKind) : ScanM Unit := do
  unrollIndent (-1) (← get).mark
  removeKey
  modify fun s => { s with keyAllowed := false }
  pushIndicator kind 3

def fetchFlowStart (kind : TokenKind) : ScanM Unit := do
  saveKey
  increaseFlowLevel
  modify fun s => { s with keyAllowed := true }
  pushIndicator kind 1

def fetchFlowEnd (kind : TokenKind) : ScanM Unit := do
  removeKey
  decreaseFlowLevel
  modify fun s => { s with keyAllowed := false }
  pushIndicator kind 1

def fetchFlowEntry : ScanM Unit := do
  removeKey
  modify fun s => { s with keyAllowed := true }
  pushIndicator .flowEntry 1

def fetchBlockEntry : ScanM Unit := do
  let s ← get
  if s.flowLevel = 0 then
    if !s.keyAllowed then scanFail s.mark "block sequence entries are not allowed in this context"
    rollIndent s.mark.column none .blockSequenceStart s.mark
  removeKey
  modify fun s => { s with keyAllowed := true }
  pushIndicator .blockEntry 1

def fetchKey : ScanM Unit := do
  let s ← get
  if s.flowLevel = 0 then
    if !s.keyAllowed then scanFail s.mark "mapping keys are not allowed in this context"
    rollIndent s.mark.column none .blockMappingStart s.mark
  removeKey
  modify fun s => { s with keyAllowed := s.flowLevel = 0 }
  pushIndicator .key 1

/-- `:`; when a simple key is pending, its `KEY` token (and in block context the mapping start)
goes in before it. -/
def fetchValue : ScanM Unit := do
  let s ← get
  let i := s.keys.size - 1
  let k := s.keys.getD i default
  if ← keyStillValid i then
    let s ← get
    insertToken (some (k.tokenNumber - s.taken)) ⟨.key, k.mark, k.mark⟩
    rollIndent k.mark.column (some k.tokenNumber) .blockMappingStart k.mark
    modify fun s =>
      { s with keys := s.keys.modify i fun k => { k with possible := false },
               keyIndex := s.keyIndex.filter fun e => e.1 ≠ k.tokenNumber,
               keyAllowed := false }
  else
    let s ← get
    if s.flowLevel = 0 then
      if !s.keyAllowed then scanFail s.mark "mapping values are not allowed in this context"
      rollIndent s.mark.column none .blockMappingStart s.mark
    modify fun s => { s with keyAllowed := s.flowLevel = 0 }
  pushIndicator .value 1

def fetchKeyCandidate (scan : ScanM Token) : ScanM Unit := do
  saveKey
  modify fun s => { s with keyAllowed := false }
  let t ← scan
  insertToken none t

def fetchBlockScalar (literal : Bool) : ScanM Unit := do
  removeKey
  modify fun s => { s with keyAllowed := true }
  let t ← scanBlock literal
  insertToken none t

def startsPlain (s : Scanner) : Bool :=
  let c := s.ahead 0
  !(isSpaceOrEnd c || "-?:,[]\x7b\x7d#&*!|>'\"%@".contains c || c = Char.ofNat 96) ||
    (c = '-' && !isBlank (s.ahead 1)) ||
    (s.flowLevel = 0 && (c = '?' || c = ':') && !isSpaceOrEnd (s.ahead 1))

def fetchToken : ScanM Unit := do
  let s ← get
  let c := s.ahead 0
  let next := s.ahead 1
  if c = '[' then fetchFlowStart .flowSequenceStart
  else if c = '{' then fetchFlowStart .flowMappingStart
  else if c = ']' then fetchFlowEnd .flowSequenceEnd
  else if c = '}' then fetchFlowEnd .flowMappingEnd
  else if c = ',' then fetchFlowEntry
  else if c = '-' && isSpaceOrEnd next then fetchBlockEntry
  else if c = '?' && (s.flowLevel > 0 || isSpaceOrEnd next) then fetchKey
  else if c = ':' && (s.flowLevel > 0 || isSpaceOrEnd next) then fetchValue
  else if c = '*' then fetchKeyCandidate (scanAnchor true)
  else if c = '&' then fetchKeyCandidate (scanAnchor false)
  else if c = '!' then fetchKeyCandidate scanTag
  else if c = '|' && s.flowLevel = 0 then fetchBlockScalar true
  else if c = '>' && s.flowLevel = 0 then fetchBlockScalar false
  else if c = '\'' then fetchKeyCandidate (scanQuoted true)
  else if c = '"' then fetchKeyCandidate (scanQuoted false)
  else if startsPlain s then fetchKeyCandidate scanPlain
  else scanFail s.mark "found character that cannot start any token"

def fetchNextToken : ScanM Unit := do
  ensure 1
  if !(← get).started then
    fetchStreamStart
    return
  let scanMark := (← get).mark
  scanToNextToken
  unrollIndent (← get).mark.column scanMark
  ensure 4
  let s ← get
  let c := s.ahead 0
  if isEnd c then
    fetchStreamEnd
  else if s.mark.column = 0 && c = '%' then
    fetchDirective
  else if s.mark.column = 0 && c = '-' && s.ahead 1 = '-' && s.ahead 2 = '-' &&
      isSpaceOrEnd (s.ahead 3) then
    fetchDocumentIndicator .documentStart
  else if s.mark.column = 0 && c = '.' && s.ahead 1 = '.' && s.ahead 2 = '.' &&
      isSpaceOrEnd (s.ahead 3) then
    fetchDocumentIndicator .documentEnd
  else
    fetchToken
    match (← get).queue.back? with
    | some t => if t.kind != .blockEntry then scanLineComment
    | none => scanLineComment

/-- Fetch until the first queued token is settled and two more follow it. -/
def fetchMoreTokens : ScanM Unit := do
  let s0 ← get
  for _ in [0:4 * (s0.source.chars.size + 16)] do
    let s ← get
    if s.queue.size > 2 then
      match s.keyIndex.lookup s.taken with
      | none => break
      | some i => if !(← keyStillValid i) then break
    fetchNextToken
  modify fun s => { s with ready := true }

namespace Scanner

def peekToken : ScanM Token := do
  if !(← get).ready then fetchMoreTokens
  pure ((← get).queue[0]?.getD default)

def skipToken : ScanM Unit := modify fun s =>
  { s with ready := false, taken := s.taken + 1, queue := s.queue.extract 1 s.queue.size }

end Scanner

end CrystalLattice.Yaml
