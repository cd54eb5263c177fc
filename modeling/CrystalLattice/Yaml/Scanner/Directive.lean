import CrystalLattice.Yaml.Scanner.State
import CrystalLattice.Utf8

/-!
# Scanning directives, anchors, aliases and tags

A directive line is `%YAML major.minor` or `%TAG handle uri`. Anchors (`&name`) and aliases
(`*name`) take a name of letters, digits, `_` and `-`. A tag is verbatim (`!<uri>`), or a
handle (`!`, `!!` or `!word!`) followed by a suffix; a lone `!` is the non-specific tag. URIs
may hold `%`-escaped UTF-8 bytes.
-/

namespace CrystalLattice.Yaml

def skipBlanks : ScanM Unit := do
  let bound := (← get).bound
  for _ in [0:bound] do
    if !isBlank ((← get).ahead 0) then break
    skip
    ensure 1

def scanDirectiveName (start : Mark) : ScanM String := do
  let bound := (← get).bound
  ensure 1
  let mut name := ""
  for _ in [0:bound] do
    if !isWordChar ((← get).ahead 0) then break
    name ← readChar name
    ensure 1
  if name.isEmpty then scanFail start "could not find expected directive name"
  if !isSpaceOrEnd ((← get).ahead 0) then
    scanFail start "found unexpected non-alphabetical character"
  pure name

def scanVersionNumber (start : Mark) : ScanM Nat := do
  let bound := (← get).bound
  ensure 1
  let mut value := 0
  let mut length := 0
  for _ in [0:bound] do
    let c := (← get).ahead 0
    if !isDigitChar c then break
    length := length + 1
    if length > 2 then scanFail start "found extremely long version number"
    value := value * 10 + (c.toNat - 48)
    skip
    ensure 1
  if length = 0 then scanFail start "did not find expected version number"
  pure value

def scanVersion (start : Mark) : ScanM (Nat × Nat) := do
  ensure 1
  skipBlanks
  let major ← scanVersionNumber start
  if (← get).ahead 0 ≠ '.' then
    scanFail start "did not find expected digit or '.' character"
  skip
  let minor ← scanVersionNumber start
  pure (major, minor)

def utf8Width (b : Nat) : Nat :=
  if b < 0x80 then 1
  else if b / 32 = 6 then 2
  else if b / 16 = 14 then 3
  else if b / 8 = 30 then 4
  else 0

/-- Scan `%`-escaped bytes that make one UTF-8 character, appending it to `uri`. -/
def scanUriEscapes (start : Mark) (uri : String) : ScanM String := do
  let mut width := 1024
  let mut bytes : Array UInt8 := #[]
  for _ in [0:5] do
    if width = 0 then break
    ensure 3
    let s ← get
    if !(s.ahead 0 = '%' && isHexChar (s.ahead 1) && isHexChar (s.ahead 2)) then
      scanFail start "did not find URI escaped octet"
    let octet := hexValue (s.ahead 1) * 16 + hexValue (s.ahead 2)
    if width = 1024 then
      width := utf8Width octet
      if width = 0 then scanFail start "found an incorrect leading UTF-8 octet"
    else if octet / 64 ≠ 2 then
      scanFail start "found an incorrect trailing UTF-8 octet"
    bytes := bytes.push octet.toUInt8
    skip
    skip
    skip
    width := width - 1
  pure (uri ++ Utf8.text bytes.toList)

/-- Scan a tag handle: `!`, then letters, digits, `_` or `-`, then `!` if present. In a tag
directive the handle must end with `!` unless it is `!` alone. -/
def scanTagHandle (directive : Bool) (start : Mark) : ScanM String := do
  let bound := (← get).bound
  ensure 1
  if (← get).ahead 0 ≠ '!' then scanFail start "did not find expected '!'"
  let mut handle ← readChar ""
  ensure 1
  for _ in [0:bound] do
    if !isWordChar ((← get).ahead 0) then break
    handle ← readChar handle
    ensure 1
  if (← get).ahead 0 = '!' then
    handle ← readChar handle
  else if directive && handle ≠ "!" then
    scanFail start "did not find expected '!'"
  pure handle

def isUriChar (c : Char) : Bool := isWordChar c || ";/?:@&=+$,.!~*'()[]%".contains c

/-- Scan a tag URI; `head`, a handle that turned out to start the URI, is kept without its
first `!`. -/
def scanTagUri (head : String) (start : Mark) : ScanM String := do
  let bound := (← get).bound
  let mut uri := if head.length > 1 then head.drop 1 |>.toString else ""
  let mut hasTag : Bool := head.length > 0
  ensure 1
  for _ in [0:bound] do
    let c := (← get).ahead 0
    if !isUriChar c then break
    if c = '%' then uri ← scanUriEscapes start uri
    else uri ← readChar uri
    ensure 1
    hasTag := true
  if !hasTag then scanFail start "did not find expected tag URI"
  pure uri

def scanDirective : ScanM Token := do
  let start := (← get).mark
  skip
  let name ← scanDirectiveName start
  let token ← if name = "YAML" then do
      let (major, minor) ← scanVersion start
      pure (⟨.versionDirective major minor, start, (← get).mark⟩ : Token)
    else if name = "TAG" then do
      ensure 1
      skipBlanks
      let handle ← scanTagHandle true start
      ensure 1
      if !isBlank ((← get).ahead 0) then scanFail start "did not find expected whitespace"
      skipBlanks
      let uri ← scanTagUri "" start
      ensure 1
      if !isSpaceOrEnd ((← get).ahead 0) then
        scanFail start "did not find expected whitespace or line break"
      pure (⟨.tagDirective handle uri, start, (← get).mark⟩ : Token)
    else scanFail start "found unknown directive name"
  ensure 1
  skipBlanks
  if (← get).ahead 0 = '#' then
    let bound := (← get).bound
    for _ in [0:bound] do
      if isBreakOrEnd ((← get).ahead 0) then break
      skip
      ensure 1
  if !isBreakOrEnd ((← get).ahead 0) then
    scanFail start "did not find expected comment or line break"
  if isBreak ((← get).ahead 0) then
    ensure 2
    skipLine
  pure token

def scanAnchor (isAlias : Bool) : ScanM Token := do
  let s0 ← get
  let start := s0.mark
  skip
  ensure 1
  let mut name := ""
  for _ in [0:s0.bound] do
    if !isWordChar ((← get).ahead 0) then break
    name ← readChar name
    ensure 1
  let stop := (← get).mark
  let c := (← get).ahead 0
  if name.isEmpty || !(isSpaceOrEnd c || "?:,]\x7d%@".contains c || c = Char.ofNat 96) then
    scanFail start "did not find expected alphabetic or numeric character"
  pure ⟨if isAlias then .reference name else .anchor name, start, stop⟩

/-- Scan a tag. A blank or a line break must follow it, also where a comma would end a
value of a flow collection. -/
def scanTag : ScanM Token := do
  let s0 ← get
  let start := s0.mark
  ensure 2
  let (handle, suffix) ← if s0.ahead 1 = '<' then do
      skip
      skip
      let suffix ← scanTagUri "" start
      if (← get).ahead 0 ≠ '>' then scanFail start "did not find the expected '>'"
      skip
      pure ("", suffix)
    else do
      let handle ← scanTagHandle false start
      if handle.startsWith "!" && handle.length > 1 && handle.endsWith "!" then
        let suffix ← scanTagUri "" start
        pure (handle, suffix)
      else
        let suffix ← scanTagUri handle start
        if suffix.isEmpty then pure ("", "!") else pure ("!", suffix)
  ensure 1
  let s ← get
  if !isSpaceOrEnd (s.ahead 0) then scanFail start "did not find expected whitespace or line break"
  pure ⟨.tag handle suffix, start, s.mark⟩

end CrystalLattice.Yaml
