import CrystalLattice.Printable

/-!
# Quoted text in messages

Messages show user text in double quotes with escapes: quotes and backslashes get a
backslash, the usual control characters their letter escapes, other control characters a
two-digit hexadecimal escape, and characters that do not print a four- or eight-digit one.
Lists of names may instead be shown in backquotes when no character needs an escape.
-/

namespace CrystalLattice

def hexDigits (width n : Nat) : String :=
  let h := Nat.toDigits 16 n
  String.ofList (List.replicate (width - h.length) '0' ++ h)

/-- The escape of one character inside quotes of the given kind: that quote and the
backslash get a backslash, the other quote stands as it is. -/
def escapeIn (quote : Char) (c : Char) : String :=
  let v := c.toNat
  if c = quote then "\\" ++ c.toString
  else if c = '\\' then "\\\\"
  else if printsAsItself c then c.toString
  else if v = 7 then "\\a"
  else if v = 8 then "\\b"
  else if v = 12 then "\\f"
  else if v = 10 then "\\n"
  else if v = 13 then "\\r"
  else if v = 9 then "\\t"
  else if v = 11 then "\\v"
  else if v < 0x20 || v = 0x7F then "\\x" ++ hexDigits 2 v
  else if v < 0x10000 then "\\u" ++ hexDigits 4 v
  else "\\U" ++ hexDigits 8 v

def quoted (s : String) : String := "\"" ++ String.join (s.toList.map (escapeIn '"')) ++ "\""

def quotedChar (c : Char) : String := "\x27" ++ escapeIn (Char.ofNat 39) c ++ "\x27"

/-- A text in backquotes when it holds no backquote, no control character other than tab and
no byte order mark; otherwise in double quotes. -/
def backquoted (s : String) : String :=
  let plain := s.toList.all fun c =>
    let v := c.toNat
    !((v < 0x20 && v ≠ 9) || v = 0x60 || v = 0x7F || v = 0xFEFF)
  if plain then "\x60" ++ s ++ "\x60" else quoted s

end CrystalLattice
