import CrystalLattice.CommandLine.Command
import CrystalLattice.CommandLine.Parse
import CrystalLattice.Casing

/-!
# Finding the command the arguments name

The command is found before any flag is read, by walking down the tree and taking at each level
the first word that is not a flag or a flag value. Only flags the command already knows are
considered when guessing which flags take the next word. The root refuses a word that is not a
command, suggesting the commands it resembles.
-/

namespace CrystalLattice.CommandLine

/-- Whether `word` is a flag that takes the next word as its value, among the flags `known`:
a long flag without `=` that is not a known switch, or a dash and one byte, not `=`, that is
not the shorthand of a known switch. -/
def takesNext (known : List FlagSpec) (word : String) : Bool :=
  let cs := word.toList
  if cs.contains '=' then false
  else match cs with
    | '-' :: '-' :: name =>
      match (FlagTable.fresh known).byName? (String.ofList name) with
      | some f => f.spec.kind ≠ .switch
      | none => true
    | ['-', c] =>
      if c.toNat < 0x80 then
        match (FlagTable.fresh known).byShorthand? c with
        | some f => f.spec.kind ≠ .switch
        | none => true
      else false
    | _ => false

def commandWords (known : List FlagSpec) : List String → List String
  | [] => []
  | word :: rest =>
    if word = "--" then []
    else if takesNext known word then
      match rest with
      | [] | [_] => []
      | _ :: more => commandWords known more
    else if word ≠ "" && word.toList.head? ≠ some '-' then word :: commandWords known rest
    else commandWords known rest

/-- `args` without the first word equal to `x` that is not a flag or flag value, if there is
one before `--`. -/
def withoutWord? (known : List FlagSpec) (x : String) : List String → Option (List String)
  | [] => none
  | word :: rest =>
    if word = "--" then none
    else if takesNext known word then
      match rest with
      | [] => none
      | v :: more => (fun l => word :: v :: l) <$> withoutWord? known x more
    else if word.toList.head? ≠ some '-' && word = x then some rest
    else (word :: ·) <$> withoutWord? known x rest

def withoutWord (known : List FlagSpec) (x : String) (args : List String) : List String :=
  (withoutWord? known x args).getD args

def Command.child? (c : Command) (name : String) : Option Command :=
  c.children.find? (·.name == name)

/-- Walk down from `c` as the arguments direct; `depth` bounds the walk by the height of the
tree. The answer is the command reached and the arguments left for it. -/
def descend : Nat → Command → List String → Command × List String
  | 0, c, args => (c, args)
  | depth + 1, c, args =>
    match commandWords c.knownFlags args with
    | [] => (c, args)
    | next :: _ =>
      match c.child? next with
      | some sub => descend depth sub (withoutWord c.knownFlags next args)
      | none => (c, args)

/-- The next row of the table of edit distances: `prev` is the row for the text before `a`,
`left` the entry already computed to the left. -/
def editRow (a : UInt8) : List UInt8 → List Nat → Nat → List Nat
  | b :: t, diag :: up :: prev, left =>
    let here := if a = b then diag else min (min up left) diag + 1
    here :: editRow a t (up :: prev) here
  | _, _, _ => []

def editDistance (s t : List UInt8) : Nat :=
  let first := List.range (t.length + 1)
  let (last, _) := s.foldl (fun (prev, i) a => ((i + 1) :: editRow a t prev (i + 1), i + 1))
    (first, 0)
  last.getLast?.getD 0

/-- The listed commands under `c` whose names are within two byte edits of `typed`, or start
with it, both in lower case. -/
def Command.suggestions (c : Command) (typed : String) : List String :=
  let t := lowerText typed
  c.children.filterMap fun sub =>
    let n := lowerText sub.name
    if sub.available &&
        (editDistance t.toUTF8.toList n.toUTF8.toList ≤ 2 || t.toList.isPrefixOf n.toList) then
      some sub.name
    else none

def unknownCommand (c : Command) (word : String) : String :=
  let hint := match c.suggestions word with
    | [] => ""
    | names => "\n\nDid you mean this?\n" ++ String.join (names.map fun n => "\t" ++ n ++ "\n")
  "unknown command " ++ quoted word ++ " for " ++ quoted c.path ++ hint

/-- The command the arguments name, with the arguments left for it, or the message for a word
the root cannot take. -/
def findCommand (args : List String) : Command × List String × Option String :=
  let (c, rest) := descend 3 .root args
  let problem :=
    if c.arity = .any && !c.children.isEmpty && c.parent?.isNone then
      match commandWords c.knownFlags rest with
      | word :: _ => some (unknownCommand c word)
      | [] => none
    else none
  (c, rest, problem)

end CrystalLattice.CommandLine
