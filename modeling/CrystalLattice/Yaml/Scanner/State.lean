import CrystalLattice.Yaml.Source
import CrystalLattice.Yaml.Token

/-!
# Scanner state

The scanner keeps its place in the source, the queued tokens, the indentation stack, the flow
level and one pending simple key per level. Every loop consumes a character per round, so each
is bounded by the length of the source.
-/

namespace CrystalLattice.Yaml

structure SimpleKey where
  possible : Bool
  required : Bool
  tokenNumber : Nat
  mark : Mark
  deriving Inhabited

structure Scanner where
  source : Source
  reads : Nat
  /-- NUL characters added after the end of the source, one by each refill that found no
  more to read. -/
  padding : Nat
  /-- The index of the first character the read buffer holds: the character the scanner was
  at when the buffer was last refilled. -/
  bufferStart : Nat
  mark : Mark
  /-- Line breaks consumed since the last character that is not a blank. -/
  newlines : Nat
  started : Bool
  flowLevel : Nat
  queue : Array Token
  taken : Nat
  /-- Whether the first queued token may be taken without fetching more. -/
  ready : Bool
  indent : Int
  indents : List Int
  keyAllowed : Bool
  keys : Array SimpleKey
  /-- For token numbers that start a pending key, the flow level of the key. -/
  keyIndex : List (Nat × Nat)
  deriving Inhabited

def Scanner.new (src : Source) : Scanner :=
  { source := src, reads := 0, padding := 0, bufferStart := 0, mark := default, newlines := 0, started := false, flowLevel := 0,
    queue := #[], taken := 0, ready := false, indent := -1, indents := [], keyAllowed := false,
    keys := #[], keyIndex := [] }

abbrev ScanM := StateT Scanner (Except Problem)

def isBlank (c : Char) : Bool := c = ' ' || c = '\t'

/-- A line break: carriage return, line feed, next line, line or paragraph separator. -/
def isBreak (c : Char) : Bool :=
  c = '\r' || c = '\n' || c.toNat = 0x85 || c.toNat = 0x2028 || c.toNat = 0x2029

def isEnd (c : Char) : Bool := c.toNat = 0

def isBreakOrEnd (c : Char) : Bool := isBreak c || isEnd c

def isSpaceOrEnd (c : Char) : Bool := isBlank c || isBreakOrEnd c

/-- A character of an anchor name or tag handle: an ASCII letter or digit, `_` or `-`. -/
def isWordChar (c : Char) : Bool :=
  ('0' ≤ c && c ≤ '9') || ('A' ≤ c && c ≤ 'Z') || ('a' ≤ c && c ≤ 'z') || c = '_' || c = '-'

def isDigitChar (c : Char) : Bool := '0' ≤ c && c ≤ '9'

def isHexChar (c : Char) : Bool :=
  isDigitChar c || ('a' ≤ c && c ≤ 'f') || ('A' ≤ c && c ≤ 'F')

def hexValue (c : Char) : Nat :=
  if isDigitChar c then c.toNat - 48
  else if 'a' ≤ c && c ≤ 'f' then c.toNat - 87
  else c.toNat - 55

/-- The deepest nesting of flow collections or block indentation allowed. -/
def maxDepth : Nat := 10000

namespace Scanner

def ahead (s : Scanner) (k : Nat) : Char := s.source.chars.getD (s.mark.index + k) (Char.ofNat 0)

def bound (s : Scanner) : Nat := s.source.chars.size + 2

def available (s : Scanner) : Nat :=
  if s.reads = 0 then 0 else s.source.frontiers.getD (s.reads - 1) s.source.chars.size

def nextTokenNumber (s : Scanner) : Nat := s.taken + s.queue.size

end Scanner

def scanFail {α : Type} (context : Mark) (text : String) : ScanM α := do
  throw ⟨.scanner, context, (← get).mark, text⟩

/-- Make sure the next `n` characters have been read, refilling the buffer from the current
character; past the source a refill adds one NUL character. -/
def ensure (n : Nat) : ScanM Unit := do
  let s ← get
  if s.available + s.padding ≥ s.mark.index + n then return
  set { s with bufferStart := s.mark.index }
  for _ in [0:s.source.frontiers.size + 1] do
    let s ← get
    if s.reads < s.source.frontiers.size then
      let got := s.available
      let next := s.source.frontiers.getD s.reads s.source.chars.size
      if let some i := s.source.fault then
        if got ≤ i && i < next then throw (Problem.ofReader "control characters are not allowed")
      set { s with reads := s.reads + 1 }
      if next + s.padding ≥ s.mark.index + n then break
    else
      set { s with padding := s.padding + 1 }
      break

def skip : ScanM Unit := modify fun s =>
  { s with newlines := if isBlank (s.ahead 0) then s.newlines else 0,
           mark := { s.mark with index := s.mark.index + 1, column := s.mark.column + 1 } }

def skipLine : ScanM Unit := modify fun s =>
  if s.ahead 0 = '\r' && s.ahead 1 = '\n' then
    { s with mark := ⟨s.mark.index + 2, s.mark.line + 1, 0⟩, newlines := s.newlines + 1 }
  else if isBreak (s.ahead 0) then
    { s with mark := ⟨s.mark.index + 1, s.mark.line + 1, 0⟩, newlines := s.newlines + 1 }
  else s

def readChar (buf : String) : ScanM String := do
  let c := (← get).ahead 0
  skip
  pure (buf.push c)

/-- Move past a line break, appending it to `buf`: line feed for carriage return, line feed,
both together and next line; line and paragraph separators as they are. -/
def readLine (buf : String) : ScanM String := do
  let s ← get
  let c := s.ahead 0
  let step (width : Nat) : Scanner :=
    { s with mark := ⟨s.mark.index + width, s.mark.line + 1, 0⟩, newlines := s.newlines + 1 }
  if c = '\r' && s.ahead 1 = '\n' then
    set (step 2)
    pure (buf.push '\n')
  else if c = '\r' || c = '\n' || c.toNat = 0x85 then
    set (step 1)
    pure (buf.push '\n')
  else if c.toNat = 0x2028 || c.toNat = 0x2029 then
    set (step 1)
    pure (buf.push c)
  else pure buf

def insertToken (position : Option Nat) (t : Token) : ScanM Unit := modify fun s =>
  match position with
  | none => { s with queue := s.queue.push t }
  | some i => { s with queue := (s.queue.toList.take i ++ t :: s.queue.toList.drop i).toArray }

/-- Whether the pending key at flow level `i` can still be completed. A key that cannot is
dropped; if it was required, that is a problem. -/
def keyStillValid (i : Nat) : ScanM Bool := do
  let s ← get
  let k := s.keys.getD i default
  if !k.possible then return false
  if k.mark.line < s.mark.line || k.mark.index + 1024 < s.mark.index then
    if k.required then scanFail k.mark "could not find expected ':'"
    set { s with keys := s.keys.modify i fun k => { k with possible := false } }
    return false
  return true

def removeKey : ScanM Unit := do
  let s ← get
  let i := s.keys.size - 1
  let k := s.keys.getD i default
  if k.possible then
    if k.required then scanFail k.mark "could not find expected ':'"
    set { s with keys := s.keys.modify i fun k => { k with possible := false },
                 keyIndex := s.keyIndex.filter fun e => e.1 ≠ k.tokenNumber }

/-- Record that a simple key may start at the next token. It is required when, in block
context, it starts at the current indentation. -/
def saveKey : ScanM Unit := do
  let s ← get
  let required := s.flowLevel == 0 && s.indent == (s.mark.column : Int)
  if s.keyAllowed then
    let k : SimpleKey := ⟨true, required, s.nextTokenNumber, s.mark⟩
    removeKey
    modify fun s =>
      let i := s.keys.size - 1
      { s with keys := s.keys.modify i fun _ => k,
               keyIndex := (k.tokenNumber, i) :: s.keyIndex.filter fun e => e.1 ≠ k.tokenNumber }

def increaseFlowLevel : ScanM Unit := do
  modify fun s =>
    { s with keys := s.keys.push ⟨false, false, 0, s.mark⟩, flowLevel := s.flowLevel + 1 }
  let s ← get
  if s.flowLevel > maxDepth then scanFail s.mark s!"exceeded max depth of {maxDepth}"

def decreaseFlowLevel : ScanM Unit := modify fun s =>
  if s.flowLevel > 0 then
    let k := s.keys.back?.getD default
    { s with flowLevel := s.flowLevel - 1, keys := s.keys.pop,
             keyIndex := s.keyIndex.filter fun e => e.1 ≠ k.tokenNumber }
  else s

/-- In block context, open a deeper indentation level at `column` and put the token that
starts the collection there: at the end, or before the token numbered `number`. -/
def rollIndent (column : Int) (number : Option Nat) (kind : TokenKind) (mark : Mark) :
    ScanM Unit := do
  let s ← get
  if s.flowLevel > 0 then return
  if s.indent < column then
    set { s with indents := s.indent :: s.indents, indent := column }
    if s.indents.length + 1 > maxDepth then
      scanFail (s.keys.back?.getD default).mark s!"exceeded max depth of {maxDepth}"
    insertToken (number.map (· - s.taken)) ⟨kind, mark, mark⟩

def unwindIndents (column : Int) (t : Token) :
    Int → List Int → Array Token → Int × List Int × Array Token
  | indent, [], q => (indent, [], q)
  | indent, i :: rest, q =>
    if indent > column then unwindIndents column t i rest (q.push t) else (indent, i :: rest, q)

def unrollIndent (column : Int) (scanMark : Mark) : ScanM Unit := modify fun s =>
  if s.flowLevel > 0 then s
  else
    let m := { scanMark with index := scanMark.index - 1 }
    let (indent, indents, queue) := unwindIndents column ⟨.blockEnd, m, m⟩ s.indent s.indents s.queue
    { s with indent := indent, indents := indents, queue := queue }

end CrystalLattice.Yaml
