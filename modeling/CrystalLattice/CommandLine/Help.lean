import CrystalLattice.CommandLine.Command

/-!
# Help and usage texts

The usage of a command lists how to call it, the commands under it, its own flags and the flags
it inherits, each part only when it has something to show; its help is its description followed
by the usage.
-/

namespace CrystalLattice.CommandLine

def trimEnd (s : String) : String :=
  String.ofList (s.toList.reverse.dropWhile Char.isWhitespace).reverse

def padRight (s : String) (width : Nat) : String := s ++ spaces (width - s.length)

namespace Command

/-- The flags listed as a command's own: those it defines, shared or not, and, once it is set
up to run, its help and version flags. -/
def ownListed (c : Command) (ready : Bool) : List FlagSpec :=
  c.localFlags ++ c.sharedFlags ++ (if ready then c.runFlags else [])

def hasListedChildren (c : Command) : Bool := c.children.any (·.available)

/-- The use line: the path of the parent, the use of the command and, when it has flags and
mentions them, `[flags]`. -/
def useLine (c : Command) : String :=
  let line := match c.parent? with
    | some p => p.path ++ " " ++ c.use
    | none => c.use
  if c.flagsInUse && !c.knownFlags.isEmpty then line ++ " [flags]" else line

def namePadding (c : Command) : Nat :=
  match c.parent? with
  | some p => max 11 (p.children.foldl (fun w s => max w s.name.length) 0)
  | none => 11

def usage (c : Command) (ready : Bool) : String :=
  let listed := c.hasListedChildren
  let sorted := c.children.mergeSort fun a b => a.name ≤ b.name
  let own := c.ownListed ready
  "Usage:" ++
    (if c.runnable then "\n  " ++ c.useLine else "") ++
    (if listed then "\n  " ++ c.path ++ " [command]" else "") ++
    (if listed then
      "\n\nAvailable Commands:" ++ String.join (sorted.filterMap fun s =>
        if s.available || s.name = "help" then
          some ("\n  " ++ padRight s.name s.namePadding ++ " " ++ s.short)
        else none)
     else "") ++
    (if own.isEmpty then "" else "\n\nFlags:\n" ++ trimEnd (usageLines own)) ++
    (if c.inheritedFlags.isEmpty then "" else
      "\n\nGlobal Flags:\n" ++ trimEnd (usageLines c.inheritedFlags)) ++
    (if listed then
      "\n\nUse \"" ++ c.path ++ " [command] --help\" for more information about a command."
     else "") ++
    "\n"

def helpText (c : Command) : String :=
  let lead := trimEnd (if c.long = "" then c.short else c.long)
  (if lead = "" then "" else lead ++ "\n\n") ++
    (if c.runnable || !c.children.isEmpty then c.usage true else "")

end Command

end CrystalLattice.CommandLine
