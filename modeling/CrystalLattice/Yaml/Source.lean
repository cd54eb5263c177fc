/-!
# The character source

A document is decoded from its UTF-8 bytes in reads of at most 512 bytes, each read checking the
characters it decodes. After the last character the source yields NUL characters.
-/

namespace CrystalLattice.Yaml

/-- Whether a character may appear in a document: tab, line feed, carriage return, printable
ASCII, next line, and the printable ranges above that. -/
def allowed (c : Char) : Bool :=
  let v := c.toNat
  v = 0x09 || v = 0x0A || v = 0x0D || (0x20 ≤ v && v ≤ 0x7E) || v = 0x85 ||
    (0xA0 ≤ v && v ≤ 0xD7FF) || (0xE000 ≤ v && v ≤ 0xFFFD) || (0x10000 ≤ v && v ≤ 0x10FFFF)

def readSize : Nat := 512

/-- The characters of a document, how many of them each read makes available, and the first
character that may not appear, if any. -/
structure Source where
  chars : Array Char
  frontiers : Array Nat
  fault : Option Nat
  deriving Inhabited

/-- Walk the characters with the byte offset of the next one, the byte where the current read
ends and the count of characters so far. A character that ends past the read closes it, and
the next read starts at that character's first byte. -/
def readFrontiers (total : Nat) : List Char → Nat → Nat → Nat → Array Nat → Array Nat
  | [], _, _, count, acc => acc.push count
  | c :: rest, offset, limit, count, acc =>
    let next := offset + c.utf8Size
    if next ≤ limit then readFrontiers total rest next limit (count + 1) acc
    else readFrontiers total rest next (min total (offset + readSize)) (count + 1) (acc.push count)

def Source.ofString (s : String) : Source :=
  let all := s.toList
  let total := s.utf8ByteSize
  let (chars, offset) := match all with
    | c :: rest => if c.toNat = 0xFEFF then (rest, 3) else (all, 0)
    | [] => ([], 0)
  { chars := chars.toArray
    frontiers := readFrontiers total chars offset (min total readSize) 0 #[]
    fault := chars.findIdx? fun c => !allowed c }

end CrystalLattice.Yaml
