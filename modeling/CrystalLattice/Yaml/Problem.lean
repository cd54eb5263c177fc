/-!
# Positions and problems

A problem stops the reader, the scanner or the parser. It carries a context mark and a problem
mark, and its message names a line when one of the marks is past the first line.
-/

namespace CrystalLattice.Yaml

/-- A position in the character stream: the character index, line and column, from zero. -/
structure Mark where
  index : Nat
  line : Nat
  column : Nat
  deriving Repr, BEq, Inhabited

inductive Stage where
  | reader
  | scanner
  | parser
  deriving Repr, BEq, DecidableEq

structure Problem where
  stage : Stage
  context : Mark
  mark : Mark
  text : String
  deriving Repr

namespace Problem

def ofReader (text : String) : Problem := ⟨.reader, default, default, text⟩

def line (p : Problem) : Option Nat :=
  let shift := if p.stage = .scanner then 1 else 0
  if p.context.line ≠ 0 then some (p.context.line + shift)
  else if p.mark.line ≠ 0 then some (p.mark.line + shift)
  else none

/-- The message of a problem: its text, after the line when there is one. -/
def message (p : Problem) : String :=
  match p.line with
  | some n => s!"line {n}: " ++ p.text
  | none => p.text

end Problem

end CrystalLattice.Yaml
