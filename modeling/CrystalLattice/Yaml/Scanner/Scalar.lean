import CrystalLattice.Yaml.Scanner.State

/-!
# Scanning scalars

Plain, single- and double-quoted, literal and folded scalars. Line folding is the same
everywhere: a single line break becomes a space, and each further empty line a line feed.
-/

namespace CrystalLattice.Yaml

/-- Whether the next characters are a document marker `---` or `...` at the start of a line,
followed by a blank, a line break or the end. -/
def atDocumentMarker (s : Scanner) : Bool :=
  s.mark.column = 0 &&
    ((s.ahead 0 = '-' && s.ahead 1 = '-' && s.ahead 2 = '-') ||
      (s.ahead 0 = '.' && s.ahead 1 = '.' && s.ahead 2 = '.')) &&
    isSpaceOrEnd (s.ahead 3)

/-- The text that joins two runs of a scalar separated by line breaks: the first break folds
to a space when no empty lines follow it. -/
def foldBreaks (leadingBreak trailingBreaks : String) : String :=
  if leadingBreak.startsWith "\n" then
    if trailingBreaks.isEmpty then " " else trailingBreaks
  else leadingBreak ++ trailingBreaks

def scanPlain : ScanM Token := do
  let s0 ← get
  let indent : Int := s0.indent + 1
  let start := s0.mark
  let bound := s0.bound
  let mut stop := s0.mark
  let mut text := ""
  let mut leadingBreak := ""
  let mut trailingBreaks := ""
  let mut whitespaces := ""
  let mut leadingBlanks := false
  for _ in [0:bound] do
    ensure 4
    let s ← get
    if atDocumentMarker s then break
    if s.ahead 0 = '#' then break
    for _ in [0:bound] do
      let s ← get
      let c := s.ahead 0
      if isSpaceOrEnd c then break
      if (c = ':' && isSpaceOrEnd (s.ahead 1)) ||
          (s.flowLevel > 0 &&
            (c = ',' || c = '?' || c = '[' || c = ']' || c = '{' || c = '}')) then
        break
      if leadingBlanks || !whitespaces.isEmpty then
        if leadingBlanks then
          text := text ++ foldBreaks leadingBreak trailingBreaks
          trailingBreaks := ""
          leadingBreak := ""
          leadingBlanks := false
        else
          text := text ++ whitespaces
          whitespaces := ""
      text ← readChar text
      stop := (← get).mark
      ensure 2
    let s ← get
    if !(isBlank (s.ahead 0) || isBreak (s.ahead 0)) then break
    ensure 1
    for _ in [0:bound] do
      let s ← get
      let c := s.ahead 0
      if !(isBlank c || isBreak c) then break
      if isBlank c then
        if leadingBlanks && (s.mark.column : Int) < indent && c = '\t' then
          scanFail start "found a tab character that violates indentation"
        if !leadingBlanks then whitespaces ← readChar whitespaces else skip
      else
        ensure 2
        if !leadingBlanks then
          whitespaces := ""
          leadingBreak ← readLine leadingBreak
          leadingBlanks := true
        else
          trailingBreaks ← readLine trailingBreaks
      ensure 1
    let s ← get
    if s.flowLevel = 0 && (s.mark.column : Int) < indent then break
  if leadingBlanks then modify fun s => { s with keyAllowed := true }
  pure ⟨.scalar text .plain, start, stop⟩

/-- The text of a one-character escape after a backslash in a double-quoted scalar, or the
number of hexadecimal digits that follow `x`, `u` or `U`. -/
def escapeOf (c : Char) : Option (String ⊕ Nat) :=
  match c with
  | '0' => some (.inl (Char.ofNat 0).toString)
  | 'a' => some (.inl (Char.ofNat 7).toString)
  | 'b' => some (.inl (Char.ofNat 8).toString)
  | 't' => some (.inl "\t")
  | '\t' => some (.inl "\t")
  | 'n' => some (.inl "\n")
  | 'v' => some (.inl (Char.ofNat 11).toString)
  | 'f' => some (.inl (Char.ofNat 12).toString)
  | 'r' => some (.inl "\r")
  | 'e' => some (.inl (Char.ofNat 27).toString)
  | ' ' => some (.inl " ")
  | '"' => some (.inl "\"")
  | '\'' => some (.inl "'")
  | '\\' => some (.inl "\\")
  | 'N' => some (.inl (Char.ofNat 0x85).toString)
  | '_' => some (.inl (Char.ofNat 0xA0).toString)
  | 'L' => some (.inl (Char.ofNat 0x2028).toString)
  | 'P' => some (.inl (Char.ofNat 0x2029).toString)
  | 'x' => some (.inr 2)
  | 'u' => some (.inr 4)
  | 'U' => some (.inr 8)
  | _ => none

def scanEscape (start : Mark) (text : String) : ScanM String := do
  let s ← get
  match escapeOf (s.ahead 1) with
  | none => scanFail start "found unknown escape character"
  | some (.inl t) =>
    skip
    skip
    pure (text ++ t)
  | some (.inr width) =>
    skip
    skip
    ensure width
    let s ← get
    let mut value := 0
    for k in [0:width] do
      if !isHexChar (s.ahead k) then scanFail start "did not find expected hexdecimal number"
      value := value * 16 + hexValue (s.ahead k)
    if (0xD800 ≤ value && value ≤ 0xDFFF) || value > 0x10FFFF then
      scanFail start "found invalid Unicode character escape code"
    for _ in [0:width] do
      skip
    pure (text.push (Char.ofNat value))

def scanQuoted (single : Bool) : ScanM Token := do
  let s0 ← get
  let start := s0.mark
  let bound := s0.bound
  skip
  let mut text := ""
  let mut leadingBreak := ""
  let mut trailingBreaks := ""
  let mut whitespaces := ""
  for _ in [0:bound] do
    ensure 4
    let s ← get
    if atDocumentMarker s then scanFail start "found unexpected document indicator"
    if isEnd (s.ahead 0) then scanFail start "found unexpected end of stream"
    let mut leadingBlanks := false
    for _ in [0:bound] do
      let s ← get
      let c := s.ahead 0
      if isSpaceOrEnd c then break
      if single && c = '\'' && s.ahead 1 = '\'' then
        text := text.push '\''
        skip
        skip
      else if single && c = '\'' then break
      else if !single && c = '"' then break
      else if !single && c = '\\' && isBreak (s.ahead 1) then
        ensure 3
        skip
        skipLine
        leadingBlanks := true
        break
      else if !single && c = '\\' then
        text ← scanEscape start text
      else
        text ← readChar text
      ensure 2
    ensure 1
    let s ← get
    if s.ahead 0 = (if single then '\'' else '"') then break
    for _ in [0:bound] do
      let s ← get
      let c := s.ahead 0
      if !(isBlank c || isBreak c) then break
      if isBlank c then
        if !leadingBlanks then whitespaces ← readChar whitespaces else skip
      else
        ensure 2
        if !leadingBlanks then
          whitespaces := ""
          leadingBreak ← readLine leadingBreak
          leadingBlanks := true
        else
          trailingBreaks ← readLine trailingBreaks
      ensure 1
    if leadingBlanks then
      text := text ++ foldBreaks leadingBreak trailingBreaks
      trailingBreaks := ""
      leadingBreak := ""
    else
      text := text ++ whitespaces
      whitespaces := ""
  skip
  let stop := (← get).mark
  pure ⟨.scalar text (if single then .singleQuoted else .doubleQuoted), start, stop⟩

/-- Skip the indentation and empty lines before a line of a block scalar, collecting the line
breaks. With indentation `0` still open, the indentation becomes the deepest column reached,
but at least one more than the enclosing block and at least one. -/
def blockBreaks (indent : Int) (breaks : String) (start : Mark) :
    ScanM (Int × String × Mark) := do
  let bound := (← get).bound
  let mut stop := (← get).mark
  let mut maxIndent : Nat := 0
  let mut breaks := breaks
  for _ in [0:bound] do
    ensure 1
    for _ in [0:bound] do
      let s ← get
      if !((indent = 0 || (s.mark.column : Int) < indent) && s.ahead 0 = ' ') then break
      skip
      ensure 1
    let s ← get
    if s.mark.column > maxIndent then maxIndent := s.mark.column
    if (indent = 0 || (s.mark.column : Int) < indent) && s.ahead 0 = '\t' then
      scanFail start "found a tab character where an indentation space is expected"
    if !isBreak (s.ahead 0) then break
    ensure 2
    breaks ← readLine breaks
    stop := (← get).mark
  let mut indent := indent
  if indent = 0 then
    let s ← get
    indent := maxIndent
    if indent < s.indent + 1 then indent := s.indent + 1
    if indent < 1 then indent := 1
  pure (indent, breaks, stop)

/-- Consume a comment that follows a token on the same line, up to the line break; blanks
before it go with it. -/
def scanLineComment : ScanM Unit := do
  let s0 ← get
  if s0.newlines > 0 then return
  for peek in [0:512] do
    ensure (peek + 1)
    let s ← get
    let c := s.ahead peek
    if isBlank c then continue
    if c = '#' then
      let seen := s.mark.index + peek
      for _ in [0:s0.bound + peek] do
        ensure 1
        let s ← get
        if isBreakOrEnd (s.ahead 0) then
          if s.mark.index ≥ seen then break
          ensure 2
          skipLine
        else skip
    break

def scanBlock (literal : Bool) : ScanM Token := do
  let s0 ← get
  let start := s0.mark
  let bound := s0.bound
  skip
  ensure 1
  let mut chomping : Int := 0
  let mut increment : Nat := 0
  let s ← get
  if s.ahead 0 = '+' || s.ahead 0 = '-' then
    chomping := if s.ahead 0 = '+' then 1 else -1
    skip
    ensure 1
    let s ← get
    if isDigitChar (s.ahead 0) then
      if s.ahead 0 = '0' then scanFail start "found an indentation indicator equal to 0"
      increment := (s.ahead 0).toNat - 48
      skip
  else if isDigitChar (s.ahead 0) then
    if s.ahead 0 = '0' then scanFail start "found an indentation indicator equal to 0"
    increment := (s.ahead 0).toNat - 48
    skip
    ensure 1
    let s ← get
    if s.ahead 0 = '+' || s.ahead 0 = '-' then
      chomping := if s.ahead 0 = '+' then 1 else -1
      skip
  ensure 1
  for _ in [0:bound] do
    if !isBlank ((← get).ahead 0) then break
    skip
    ensure 1
  if (← get).ahead 0 = '#' then
    scanLineComment
    for _ in [0:bound] do
      if isBreakOrEnd ((← get).ahead 0) then break
      skip
      ensure 1
  if !isBreakOrEnd ((← get).ahead 0) then
    scanFail start "did not find expected comment or line break"
  if isBreak ((← get).ahead 0) then
    ensure 2
    skipLine
  let s ← get
  let mut indent : Int :=
    if increment > 0 then (if s.indent ≥ 0 then s.indent + increment else increment) else 0
  let mut text := ""
  let mut leadingBreak := ""
  let (i, b, m) ← blockBreaks indent "" start
  indent := i
  let mut trailingBreaks := b
  let mut stop := m
  ensure 1
  let mut leadingBlank := false
  for _ in [0:bound] do
    let s ← get
    if !((s.mark.column : Int) = indent && !isEnd (s.ahead 0)) then break
    let trailingBlank := isBlank (s.ahead 0)
    if !literal && !leadingBlank && !trailingBlank && leadingBreak.startsWith "\n" then
      if trailingBreaks.isEmpty then text := text.push ' '
    else
      text := text ++ leadingBreak
    leadingBreak := ""
    text := text ++ trailingBreaks
    trailingBreaks := ""
    leadingBlank := isBlank (s.ahead 0)
    for _ in [0:bound] do
      if isBreakOrEnd ((← get).ahead 0) then break
      text ← readChar text
      ensure 1
    ensure 2
    leadingBreak ← readLine leadingBreak
    let (i, b, m) ← blockBreaks indent trailingBreaks start
    indent := i
    trailingBreaks := b
    stop := m
  if chomping ≠ -1 then text := text ++ leadingBreak
  if chomping = 1 then text := text ++ trailingBreaks
  pure ⟨.scalar text (if literal then .literal else .folded), start, stop⟩

end CrystalLattice.Yaml
