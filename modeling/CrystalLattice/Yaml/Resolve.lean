import CrystalLattice.Decimal.Read

/-!
# Resolving scalars

A plain scalar's type is decided by its text: numbers, dates, booleans, null, infinities and NaN,
and strings otherwise. An explicit tag asks for one type, and a text of another type is an
error.
-/

namespace CrystalLattice.Yaml

open CrystalLattice.Decimal

def strTag : String := "!!str"
def seqTag : String := "!!seq"
def mapTag : String := "!!map"
def nullTag : String := "!!null"
def boolTag : String := "!!bool"
def intTag : String := "!!int"
def floatTag : String := "!!float"
def timestampTag : String := "!!timestamp"
def binaryTag : String := "!!binary"
def mergeTag : String := "!!merge"

def standardTagStart : String := "tag:yaml.org,2002:"

def shortTag (tag : String) : String :=
  if tag.startsWith standardTagStart then "!!" ++ (tag.drop standardTagStart.length).toString
  else tag

/-- A point in time as a timestamp writes it: the date, the time of day with nanoseconds, and
the offset from UTC in seconds when one is written; `Z` or no zone at all mean UTC. -/
structure Timestamp where
  year : Nat
  month : Nat
  day : Nat
  hour : Nat
  minute : Nat
  second : Nat
  nanos : Nat
  offset : Option Int
  deriving Repr, BEq, Inhabited

/-- A scalar's value once its type is known. Integers beyond the signed 64-bit range are kept
apart, as they only fit unsigned. -/
inductive Resolved where
  | null
  | bool (b : Bool)
  | int (n : Int)
  | uint (n : Nat)
  | float (x : Float)
  | str (s : String)
  | timestamp (t : Timestamp)
  deriving Inhabited

def resolvable (tag : String) : Bool :=
  [ "", strTag, boolTag, intTag, floatTag, nullTag, timestampTag ].contains tag

def fixedWord (text : String) : Option (String × Resolved) :=
  if ["true", "True", "TRUE"].contains text then some (boolTag, .bool true)
  else if ["false", "False", "FALSE"].contains text then some (boolTag, .bool false)
  else if ["", "~", "null", "Null", "NULL"].contains text then some (nullTag, .null)
  else if [".nan", ".NaN", ".NAN"].contains text then some (floatTag, .float (0 / 0))
  else if [".inf", ".Inf", ".INF", "+.inf", "+.Inf", "+.INF"].contains text then
    some (floatTag, .float (1 / 0))
  else if ["-.inf", "-.Inf", "-.INF"].contains text then some (floatTag, .float (-1 / 0))
  else if text = "<<" then some (mergeTag, .str "<<")
  else none

/-- The hint from the first character: `S` sign, `D` digit, `M` fixed word, `.` float, `N` for
the empty text, and NUL for none. -/
def hintOf (text : String) : Char :=
  match text.toList with
  | [] => 'N'
  | c :: _ =>
    if c = '+' || c = '-' then 'S'
    else if '0' ≤ c && c ≤ '9' then 'D'
    else if "yYnNtTfFoO~".contains c then 'M'
    else if c = '.' then '.'
    else Char.ofNat 0

def spanDigits (s : List Char) : List Char × List Char := s.span fun c => '0' ≤ c && c ≤ '9'

/-- Whether a text has the shape of a float: optional sign, then `.digits` or
`digits[.digits]`, then an optional exponent. -/
def floatShaped (s : List Char) : Bool :=
  let s := match s with
    | '+' :: r => r
    | '-' :: r => r
    | _ => s
  let exponentOk (r : List Char) : Bool :=
    match r with
    | [] => true
    | e :: r =>
      if e = 'e' || e = 'E' then
        let r := match r with
          | '+' :: r => r
          | '-' :: r => r
          | _ => r
        let (d, rest) := spanDigits r
        !d.isEmpty && rest.isEmpty
      else false
  match s with
  | '.' :: r =>
    let (d, rest) := spanDigits r
    !d.isEmpty && exponentOk rest
  | _ =>
    let (d, rest) := spanDigits s
    if d.isEmpty then false
    else
      let rest := match rest with
        | '.' :: r => (spanDigits r).2
        | _ => rest
      exponentOk rest

def clockNumber (s : List Char) (fixed : Bool) : Option (Nat × List Char) :=
  match s with
  | a :: b :: r =>
    if !('0' ≤ a && a ≤ '9') then none
    else if '0' ≤ b && b ≤ '9' then some ((a.toNat - 48) * 10 + (b.toNat - 48), r)
    else if fixed then none
    else some (a.toNat - 48, b :: r)
  | [a] => if '0' ≤ a && a ≤ '9' && !fixed then some (a.toNat - 48, []) else none
  | [] => none

def daysIn (month year : Nat) : Nat :=
  if month = 2 then
    if year % 4 = 0 && (year % 100 ≠ 0 || year % 400 = 0) then 29 else 28
  else if [4, 6, 9, 11].contains month then 30
  else 31

def literal (c : Char) : List Char → Option (List Char)
  | d :: r => if c = d then some r else none
  | [] => none

def fieldNumber (s : List Char) : Option (Nat × List Char) := clockNumber s false

/-- A date `yyyy-m-d`, with month and day of one or two digits and a valid day. -/
def readDate (s : List Char) : Option ((Nat × Nat × Nat) × List Char) := do
  let y := s.take 4
  if y.length < 4 || !y.all fun c => '0' ≤ c && c ≤ '9' then none
  let year := y.foldl (fun n c => n * 10 + (c.toNat - 48)) 0
  let r ← literal '-' (s.drop 4)
  let (month, r) ← fieldNumber r
  if month = 0 || month > 12 then none
  let r ← literal '-' r
  let (day, r) ← fieldNumber r
  if day = 0 || day > daysIn month year then none
  pure ((year, month, day), r)

def fractionNanos (digits : List Char) : Nat :=
  let nine := (digits.take 9) ++ List.replicate (9 - min 9 digits.length) '0'
  nine.foldl (fun n c => n * 10 + (c.toNat - 48)) 0

/-- A time `h:m:s` with an optional fraction of a second after `.` or `,`: hours, minutes,
seconds and nanoseconds. -/
def readClock (s : List Char) : Option ((Nat × Nat × Nat × Nat) × List Char) := do
  let (hour, r) ← fieldNumber s
  if hour ≥ 24 then none
  let r ← literal ':' r
  let (minute, r) ← fieldNumber r
  if minute ≥ 60 then none
  let r ← literal ':' r
  let (second, r) ← fieldNumber r
  if second ≥ 60 then none
  match r with
  | p :: d :: rest =>
    if (p = '.' || p = ',') && '0' ≤ d && d ≤ '9' then
      let (more, r) := spanDigits rest
      some ((hour, minute, second, fractionNanos (d :: more)), r)
    else some ((hour, minute, second, 0), r)
  | _ => some ((hour, minute, second, 0), r)

def readZone (s : List Char) : Option (Option Int × List Char) :=
  match s with
  | 'Z' :: r => some (none, r)
  | sign :: h1 :: h2 :: colon :: m1 :: m2 :: r =>
    if colon ≠ ':' then none
    else do
      let (hour, _) ← clockNumber [h1, h2] true
      let (minute, _) ← clockNumber [m1, m2] true
      if sign ≠ '+' && sign ≠ '-' then none
      if hour > 24 || minute > 60 then none
      let seconds : Int := (hour * 3600 + minute * 60 : Nat)
      pure (some (if sign = '-' then -seconds else seconds), r)
  | _ => none

/-- A timestamp: a date alone, a date and time with a zone after `T` or `t`, or a date and
time without zone after spaces. -/
def readTimestamp (text : String) : Option Timestamp :=
  let s := text.toList
  let (lead, rest) := spanDigits s
  if lead.length ≠ 4 || rest.head? != some '-' then none
  else do
    let ((year, month, day), r) ← readDate s
    let stamp (clock : Nat × Nat × Nat × Nat) (offset : Option Int) : Timestamp :=
      let (hour, minute, second, nanos) := clock
      ⟨year, month, day, hour, minute, second, nanos, offset⟩
    let withZone (sep : Char) : Option Timestamp := do
      let r ← literal sep r
      let (clock, r) ← readClock r
      let (offset, r) ← readZone r
      if r.isEmpty then some (stamp clock offset) else none
    let spaced : Option Timestamp :=
      match r with
      | ' ' :: r => do
        let (clock, r) ← readClock (r.dropWhile (· = ' '))
        if r.isEmpty then some (stamp clock none) else none
      | _ => none
    if r.isEmpty then some (stamp (0, 0, 0, 0) none)
    else (withZone 'T').orElse fun _ => (withZone 't').orElse fun _ => spaced

def readWhole (s : List Char) (base : Nat) : Option Resolved :=
  match readInt s base with
  | .ok n => some (.int n)
  | .error _ =>
    match readNat s base with
    | .ok n => some (.uint n)
    | .error _ => none

def resolveNumeric (tag text : String) : String × Resolved :=
  match (if tag = "" || tag = timestampTag then readTimestamp text else none) with
  | some t => (timestampTag, .timestamp t)
  | none =>
    let plain := text.toList.filter (· ≠ '_')
    match readWhole plain 0 with
    | some r => (intTag, r)
    | none =>
      let asFloat : Option Float :=
        if floatShaped plain then (readFloat plain).toOption else none
      match asFloat with
      | some x => (floatTag, .float x)
      | none =>
        let binary : Option Resolved :=
          match plain with
          | '0' :: 'b' :: r => readWhole r 2
          | '-' :: '0' :: 'b' :: r => (readInt ('-' :: r) 2).toOption.map .int
          | _ => none
        let octal : Option Resolved :=
          match plain with
          | '0' :: 'o' :: r => readWhole r 8
          | '-' :: '0' :: 'o' :: r => (readInt ('-' :: r) 8).toOption.map .int
          | _ => none
        match binary, octal with
        | some r, _ => (intTag, r)
        | none, some r => (intTag, r)
        | none, none => (strTag, .str text)

def resolveText (tag text : String) : String × Resolved :=
  let hint := hintOf text
  if hint.toNat ≠ 0 && tag ≠ strTag && tag ≠ binaryTag then
    match fixedWord text with
    | some r => r
    | none =>
      if hint = '.' then
        match readFloat text.toList with
        | .ok x => (floatTag, .float x)
        | .error _ => (strTag, .str text)
      else if hint = 'D' || hint = 'S' then resolveNumeric tag text
      else (strTag, .str text)
  else (strTag, .str text)

/-- The type and value of a scalar with a tag (empty for none). A text of another type than
an explicit tag asks for is an error, except that an integer is taken as a float. -/
def resolve (tag text : String) : Except String (String × Resolved) :=
  let tag := shortTag tag
  if !resolvable tag then .ok (tag, .str text)
  else
    let (rtag, out) := resolveText tag text
    if tag = "" || tag = rtag || tag = strTag || tag = binaryTag then .ok (rtag, out)
    else
      match tag, rtag, out with
      | "!!float", "!!int", .int n => .ok (floatTag, .float (Float.ofInt n))
      | _, _, _ =>
        .error ("cannot decode " ++ shortTag rtag ++ " \x60" ++ text ++ "\x60 as a " ++ shortTag tag)

def plainTag (text : String) : String := (resolveText "" text).1

end CrystalLattice.Yaml
