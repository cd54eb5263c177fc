import CrystalLattice.CommandLine.Flag

/-!
# Reading flags from arguments

Arguments are read left to right: `--name=value`, `--name value`, grouped shorthands `-abc`, and
`--`, after which everything is positional. The first flag that is unknown, lacks its value or
has a bad value stops the reading with a message.
-/

namespace CrystalLattice.CommandLine

abbrev FlagTable := List Flag

namespace FlagTable

def byName? (t : FlagTable) (name : String) : Option Flag := t.find? (·.spec.name == name)

def byShorthand? (t : FlagTable) (c : Char) : Option Flag := t.find? (·.spec.shorthand == some c)

def fresh (specs : List FlagSpec) : FlagTable := specs.map FlagSpec.fresh

def assign (t : FlagTable) (f : Flag) (text : String) : Except String FlagTable := do
  let g ← f.set text
  pure (t.map fun h => if h.spec.name == g.spec.name then g else h)

def valueOf? (t : FlagTable) (name : String) : Option FlagValue := (t.byName? name).map Flag.value

def switchOn (t : FlagTable) (name : String) : Bool :=
  match t.valueOf? name with
  | some (.switch b) => b
  | _ => false

def integer (t : FlagTable) (name : String) : Int :=
  match t.valueOf? name with
  | some (.integer n) => n
  | _ => 0

def real (t : FlagTable) (name : String) : Float :=
  match t.valueOf? name with
  | some (.real x) => x
  | _ => 0

/-- The float list flag of this name, each item as the flag hands it back, rounded to six
decimals. -/
def reals (t : FlagTable) (name : String) : List Float :=
  match t.valueOf? name with
  | some (.reals xs) => xs.map sixDecimals
  | _ => []

def integers (t : FlagTable) (name : String) : List Int :=
  match t.valueOf? name with
  | some (.integers ns) => ns
  | _ => []

def changed (t : FlagTable) (name : String) : Bool := ((t.byName? name).map Flag.changed).getD false

end FlagTable

/-- The character a message shows for the first byte of `c`'s encoding: `c` itself when it is
ASCII, otherwise the character whose code is that byte. -/
def leadByte (c : Char) : Char :=
  let v := c.toNat
  if v < 0x80 then c
  else if v < 0x800 then Char.ofNat (0xC0 + v / 0x40)
  else if v < 0x10000 then Char.ofNat (0xE0 + v / 0x1000)
  else Char.ofNat (0xF0 + v / 0x40000)

/-- Read the long flag argument `word` (`--` and then the rest). The answer says whether the
flag took `next` as its value. -/
def readLong (t : FlagTable) (word : String) (next : Option String) :
    Except String (FlagTable × Bool) :=
  let body := word.toList.drop 2
  match body with
  | [] | '-' :: _ | '=' :: _ => .error ("bad flag syntax: " ++ word)
  | _ =>
    let key := String.ofList (body.takeWhile (· ≠ '='))
    let given := match body.dropWhile (· ≠ '=') with
      | _ :: v => some (String.ofList v)
      | [] => none
    match t.byName? key with
    | none => .error ("unknown flag: --" ++ key)
    | some f =>
      match given with
      | some v => (·, false) <$> t.assign f v
      | none =>
        if f.spec.kind = .switch then (·, false) <$> t.assign f "true"
        else match next with
          | some v => (·, true) <$> t.assign f v
          | none => .error ("flag needs an argument: " ++ word)

/-- Read the shorthand letters `shorts` of one argument. The answer says whether the last
letter took `next` as its value. A group that starts with `test.` is passed over. -/
def readShorts (t : FlagTable) (next : Option String) : List Char → Except String (FlagTable × Bool)
  | [] => .ok (t, false)
  | c :: more =>
    if "test.".toList.isPrefixOf (c :: more) then .ok (t, false)
    else match t.byShorthand? c with
    | none =>
      .error ("unknown shorthand flag: " ++ quotedChar (leadByte c) ++ " in -" ++
        String.ofList (c :: more))
    | some f =>
      match more with
      | '=' :: v@(_ :: _) => (·, false) <$> t.assign f (String.ofList v)
      | _ =>
        if f.spec.kind = .switch then do
          let t ← t.assign f "true"
          readShorts t next more
        else if !more.isEmpty then (·, false) <$> t.assign f (String.ofList more)
        else match next with
          | some v => (·, true) <$> t.assign f v
          | none => .error ("flag needs an argument: " ++ quotedChar c ++ " in -" ++ c.toString)

def readArguments (t : FlagTable) (kept : List String) : List String →
    Except String (FlagTable × List String)
  | [] => .ok (t, kept)
  | word :: rest =>
    match word.toList with
    | '-' :: '-' :: [] => .ok (t, kept ++ rest)
    | '-' :: '-' :: _ => do
      let (t, took) ← readLong t word rest.head?
      if took then
        match rest with
        | _ :: rest => readArguments t kept rest
        | [] => .ok (t, kept)
      else readArguments t kept rest
    | '-' :: c :: more => do
      let (t, took) ← readShorts t rest.head? (c :: more)
      if took then
        match rest with
        | _ :: rest => readArguments t kept rest
        | [] => .ok (t, kept)
      else readArguments t kept rest
    | _ => readArguments t (kept ++ [word]) rest

end CrystalLattice.CommandLine
