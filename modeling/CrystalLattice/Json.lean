import CrystalLattice.Decimal.Layout

/-!
# JSON documents

A small JSON value type with two writers: a compact one on a single line, and an indented one
that puts every array element and object member on a line of its own, two spaces deeper
than its container. Both write object members in the order given and take the text of a
float from a function, so that each output can choose its number layout.
-/

namespace CrystalLattice

/-- A JSON value. Integers and floats are kept apart because they are written differently. -/
inductive Json where
  | null
  | bool (b : Bool)
  | int (n : Int)
  | float (x : Float)
  | str (s : String)
  | arr (items : List Json)
  | obj (members : List (String × Json))
  deriving Inhabited

namespace Json

def escapeChar (c : Char) : String :=
  if c = '"' then "\\\""
  else if c = '\\' then "\\\\"
  else if c = '\n' then "\\n"
  else if c = '\r' then "\\r"
  else if c = '\t' then "\\t"
  else if c.toNat < 0x20 then
    let h := Nat.toDigits 16 c.toNat
    "\\u" ++ String.ofList (List.replicate (4 - h.length) '0' ++ h)
  else c.toString

def quote (s : String) : String := "\"" ++ String.join (s.toList.map escapeChar) ++ "\""

mutual

/-- The compact text of a value on one line. -/
def compact (num : Float → String) : Json → String
  | null => "null"
  | bool b => if b then "true" else "false"
  | int n => toString n
  | float x => num x
  | str s => quote s
  | arr items => "[" ++ compactItems num items ++ "]"
  | obj members => "\x7b" ++ compactMembers num members ++ "\x7d"

def compactItems (num : Float → String) : List Json → String
  | [] => ""
  | [v] => compact num v
  | v :: rest => compact num v ++ "," ++ compactItems num rest

def compactMembers (num : Float → String) : List (String × Json) → String
  | [] => ""
  | [(k, v)] => quote k ++ ":" ++ compact num v
  | (k, v) :: rest => quote k ++ ":" ++ compact num v ++ "," ++ compactMembers num rest

end

def pad (depth : Nat) : String := String.ofList (List.replicate (2 * depth) ' ')

mutual

/-- The indented text of a value whose first line is already at depth `depth`. -/
def indented (num : Float → String) (depth : Nat) : Json → String
  | arr [] => "[]"
  | obj [] => "\x7b\x7d"
  | arr (v :: rest) => "[\n" ++ indentedItems num (depth + 1) (v :: rest) ++ "\n" ++ pad depth ++ "]"
  | obj (m :: rest) =>
    "\x7b\n" ++ indentedMembers num (depth + 1) (m :: rest) ++ "\n" ++ pad depth ++ "\x7d"
  | null => "null"
  | bool b => if b then "true" else "false"
  | int n => toString n
  | float x => num x
  | str s => quote s

def indentedItems (num : Float → String) (depth : Nat) : List Json → String
  | [] => ""
  | [v] => pad depth ++ indented num depth v
  | v :: rest => pad depth ++ indented num depth v ++ ",\n" ++ indentedItems num depth rest

def indentedMembers (num : Float → String) (depth : Nat) : List (String × Json) → String
  | [] => ""
  | [(k, v)] => pad depth ++ quote k ++ ": " ++ indented num depth v
  | (k, v) :: rest =>
    pad depth ++ quote k ++ ": " ++ indented num depth v ++ ",\n" ++ indentedMembers num depth rest

end

mutual

/-- The first float, in document order, that JSON cannot write. -/
def firstNonFinite? : Json → Option Float
  | .float x => if x.isNaN || x.isInf then some x else none
  | .arr items => firstNonFiniteItem? items
  | .obj members => firstNonFiniteMember? members
  | _ => none

def firstNonFiniteItem? : List Json → Option Float
  | [] => none
  | v :: rest => (firstNonFinite? v).orElse fun _ => firstNonFiniteItem? rest

def firstNonFiniteMember? : List (String × Json) → Option Float
  | [] => none
  | (_, v) :: rest => (firstNonFinite? v).orElse fun _ => firstNonFiniteMember? rest

end

end Json

end CrystalLattice
