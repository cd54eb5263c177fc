import CrystalLattice.Decimal.Read
import CrystalLattice.Decimal.Layout
import CrystalLattice.Quote

/-!
# Command-line flags

A flag has a long name, perhaps a one-letter shorthand, a kind that fixes how its value is
read, and a line of usage text. A switch is set by its name alone; other flags take a value.
List flags read comma-separated items, and a flag given again appends to what it had. A value
that cannot be read leaves the flag as it was and yields a message naming the value, the flag
and the reason, in the words of the number readers.
-/

namespace CrystalLattice.CommandLine

inductive FlagKind where
  | switch
  /-- A 64-bit integer, in the base its prefix names. -/
  | integer
  | real
  /-- A list of floats, given separated by commas. -/
  | reals
  /-- A list of decimal integers, given separated by commas. -/
  | integers
  deriving DecidableEq, Repr

structure FlagSpec where
  name : String
  shorthand : Option Char
  kind : FlagKind
  usage : String
  deriving Repr

inductive FlagValue where
  | switch (on : Bool)
  | integer (n : Int)
  | real (x : Float)
  | reals (xs : List Float)
  | integers (ns : List Int)

structure Flag where
  spec : FlagSpec
  value : FlagValue
  changed : Bool

def FlagKind.initial : FlagKind → FlagValue
  | .switch => .switch false
  | .integer => .integer 0
  | .real => .real 0
  | .reals => .reals []
  | .integers => .integers []

def FlagKind.placeholder : FlagKind → String
  | .switch => ""
  | .integer => "int"
  | .real => "float"
  | .reals => "float64Slice"
  | .integers => "ints"

def FlagSpec.fresh (spec : FlagSpec) : Flag := ⟨spec, spec.kind.initial, false⟩

/-- How messages name a flag: with its shorthand first when it has one. -/
def FlagSpec.title (spec : FlagSpec) : String :=
  match spec.shorthand with
  | some c => "-" ++ c.toString ++ ", --" ++ spec.name
  | none => "--" ++ spec.name

def readFailure (reader text : String) (e : Decimal.ReadError) : String :=
  "strconv." ++ reader ++ ": parsing " ++ quoted text ++ ": " ++
    (match e with
     | .malformed => "invalid syntax"
     | .range => "value out of range")

/-- A boolean from one of its spellings: `1`, `t`, `true` and `0`, `f`, `false`, the words
also in upper case or capitalised. -/
def readSwitch (text : String) : Except String Bool :=
  if ["1", "t", "T", "TRUE", "true", "True"].contains text then .ok true
  else if ["0", "f", "F", "FALSE", "false", "False"].contains text then .ok false
  else .error (readFailure "ParseBool" text .malformed)

def readInteger (text : String) : Except String Int :=
  (Decimal.readInt text.toList 0).mapError (readFailure "ParseInt" text)

def readReal (text : String) : Except String Float :=
  (Decimal.readFloat text.toList).mapError (readFailure "ParseFloat" text)

def readDecimal (text : String) : Except String Int :=
  (Decimal.readDecimalInt text.toList).mapError (readFailure "Atoi" text)

/-- A float as a list flag hands it back: its text with six decimals, read again. Values
below half a millionth become zero, and the infinities and NaN come back as they were. -/
def sixDecimals (x : Float) : Float :=
  match Decimal.readFloat (Decimal.renderFixed 6 x).toList with
  | .ok y => y
  | .error _ => x

/-- The value after reading `text` into a flag that holds `v`. The items of a list are read
in order and the first bad one is reported; they replace the list when the flag was not set
before (`changed` false) and are appended to it otherwise. -/
def FlagValue.update (v : FlagValue) (changed : Bool) (text : String) : Except String FlagValue :=
  match v with
  | .switch _ => FlagValue.switch <$> readSwitch text
  | .integer _ => FlagValue.integer <$> readInteger text
  | .real _ => FlagValue.real <$> readReal text
  | .reals old => do
    let xs ← (text.splitOn ",").mapM readReal
    pure (.reals (if changed then old ++ xs else xs))
  | .integers old => do
    let ns ← (text.splitOn ",").mapM readDecimal
    pure (.integers (if changed then old ++ ns else ns))

/-- The flag after one use with value `text`, or the message saying why the value is bad. -/
def Flag.set (f : Flag) (text : String) : Except String Flag :=
  match f.value.update f.changed text with
  | .ok v => .ok { f with value := v, changed := true }
  | .error e =>
    .error ("invalid argument " ++ quoted text ++ " for " ++ quoted f.spec.title ++ " flag: " ++ e)

def FlagSpec.head (spec : FlagSpec) : String :=
  let names := match spec.shorthand with
    | some c => "  -" ++ c.toString ++ ", --" ++ spec.name
    | none => "      --" ++ spec.name
  let word := spec.kind.placeholder
  if word = "" then names else names ++ " " ++ word

/-- The right part of a flag's usage line: its usage text, and the default of a list of floats,
which is shown although it is empty. -/
def FlagSpec.description (spec : FlagSpec) : String :=
  if spec.kind = .reals then spec.usage ++ " (default [])" else spec.usage

def spaces (n : Nat) : String := String.ofList (List.replicate n ' ')

/-- The usage lines of some flags in order of name, each ending in a line break. The
descriptions start in one column, two places past the end of the longest left part. -/
def usageLines (specs : List FlagSpec) : String :=
  let sorted := specs.mergeSort fun a b => a.name ≤ b.name
  let width := sorted.foldl (fun w s => max w (s.head.utf8ByteSize + 1)) 0
  String.join (sorted.map fun s =>
    s.head ++ " " ++ spaces (width - s.head.utf8ByteSize) ++ " " ++ s.description ++ "\n")

end CrystalLattice.CommandLine
