import CrystalLattice.CommandLine.Flag

/-!
# The commands of the program

The program is a tree of commands: the root, the working commands `reduce`, `distance` and
`neighbors`, `help`, and `completion` with one command per shell. Each command has its use line,
descriptions, flags, arity and flag groups; `--debug` and `--json` are shared by the whole tree.
-/

namespace CrystalLattice.CommandLine

def programName : String := "lsms-lattice"

def programVersion : String := "dev"

inductive Shell where
  | bash
  | zsh
  | fish
  | powershell
  deriving DecidableEq, Repr

def Shell.name : Shell → String
  | .bash => "bash"
  | .zsh => "zsh"
  | .fish => "fish"
  | .powershell => "powershell"

inductive Command where
  | root
  | reduce
  | distance
  | neighbors
  | help
  | completion
  | script (shell : Shell)
  deriving DecidableEq, Repr

inductive Arity where
  /-- Any number; the root refuses words it does not know as commands. -/
  | any
  | exactly (n : Nat)
  | zero
  deriving DecidableEq, Repr

namespace Command

def name : Command → String
  | root => programName
  | reduce => "reduce"
  | distance => "distance"
  | neighbors => "neighbors"
  | help => "help"
  | completion => "completion"
  | script sh => sh.name

def parent? : Command → Option Command
  | root => none
  | script _ => some completion
  | _ => some root

def children : Command → List Command
  | root => [reduce, distance, neighbors, help, completion]
  | completion => [script .bash, script .zsh, script .fish, script .powershell]
  | _ => []

def path : Command → String
  | root => programName
  | script sh => programName ++ " completion " ++ sh.name
  | c => programName ++ " " ++ c.name

/-- The use line of a command: its name and what it expects after it. -/
def use : Command → String
  | reduce => "reduce <structure.yaml>"
  | distance => "distance <structure.yaml>"
  | neighbors => "neighbors <structure.yaml>"
  | help => "help [command]"
  | c => c.name

def short : Command → String
  | root => "Lattice reduction and periodic distances"
  | reduce => "LLL-reduce the lattice of a structure"
  | distance => "Minimum-image distance between two points or sites"
  | neighbors => "List minimum-image neighbours of a site"
  | help => "Help about any command"
  | completion => "Generate the autocompletion script for the specified shell"
  | script sh => "Generate the autocompletion script for " ++ sh.name

/-- How a completion script is installed, for each shell. -/
def scriptLong : Shell → String
  | .bash =>
    "Generate the autocompletion script for the bash shell.\n\n" ++
    "This script depends on the \x27bash-completion\x27 package.\n" ++
    "If it is not installed already, you can install it via your OS\x27s package manager.\n\n" ++
    "To load completions in your current shell session:\n\n" ++
    "\tsource <(" ++ programName ++ " completion bash)\n\n" ++
    "To load completions for every new session, execute once:\n\n" ++
    "#### Linux:\n\n" ++
    "\t" ++ programName ++ " completion bash > /etc/bash_completion.d/" ++ programName ++ "\n\n" ++
    "#### macOS:\n\n" ++
    "\t" ++ programName ++ " completion bash > $(brew --prefix)/etc/bash_completion.d/" ++
      programName ++ "\n\n" ++
    "You will need to start a new shell for this setup to take effect.\n"
  | .zsh =>
    "Generate the autocompletion script for the zsh shell.\n\n" ++
    "If shell completion is not already enabled in your environment you will need\n" ++
    "to enable it.  You can execute the following once:\n\n" ++
    "\techo \"autoload -U compinit; compinit\" >> ~/.zshrc\n\n" ++
    "To load completions in your current shell session:\n\n" ++
    "\tsource <(" ++ programName ++ " completion zsh)\n\n" ++
    "To load completions for every new session, execute once:\n\n" ++
    "#### Linux:\n\n" ++
    "\t" ++ programName ++ " completion zsh > \"$\x7bfpath[1]\x7d/_" ++ programName ++ "\"\n\n" ++
    "#### macOS:\n\n" ++
    "\t" ++ programName ++ " completion zsh > $(brew --prefix)/share/zsh/site-functions/_" ++
      programName ++ "\n\n" ++
    "You will need to start a new shell for this setup to take effect.\n"
  | .fish =>
    "Generate the autocompletion script for the fish shell.\n\n" ++
    "To load completions in your current shell session:\n\n" ++
    "\t" ++ programName ++ " completion fish | source\n\n" ++
    "To load completions for every new session, execute once:\n\n" ++
    "\t" ++ programName ++ " completion fish > ~/.config/fish/completions/" ++ programName ++
      ".fish\n\n" ++
    "You will need to start a new shell for this setup to take effect.\n"
  | .powershell =>
    "Generate the autocompletion script for powershell.\n\n" ++
    "To load completions in your current shell session:\n\n" ++
    "\t" ++ programName ++ " completion powershell | Out-String | Invoke-Expression\n\n" ++
    "To load completions for every new session, add the output of the above command\n" ++
    "to your powershell profile.\n"

def long : Command → String
  | root => "Reduce crystal lattices with LLL and compute minimum-image distances between sites."
  | reduce =>
    "Reduce the lattice of a structure and print the reduced basis, the\n" ++
    "integer mapping from the original basis and its inverse."
  | distance =>
    "Compute the shortest periodic displacement between two fractional points\n" ++
    "(--from, --to) or two sites of the structure (--sites)."
  | neighbors => "List every other site within --cutoff of --site, nearest first."
  | help =>
    "Help provides help for any command in the application.\n" ++
    "Simply type " ++ programName ++ " help [path to command] for full details."
  | completion =>
    "Generate the autocompletion script for " ++ programName ++ " for the specified shell.\n" ++
    "See each sub-command\x27s help for details on how to use the generated script.\n"
  | script sh => scriptLong sh

/-- Whether a command does something of its own; `completion` only groups others. -/
def runnable : Command → Bool
  | completion => false
  | _ => true

def arity : Command → Arity
  | root | help => .any
  | reduce | distance | neighbors => .exactly 1
  | completion | script _ => .zero

def flagsInUse : Command → Bool
  | script .bash => false
  | _ => true

def localFlags : Command → List FlagSpec
  | distance =>
    [⟨"from", none, .reals, "First fractional point, e.g. 0,0,0"⟩,
     ⟨"to", none, .reals, "Second fractional point, e.g. 0.9,0.9,0.9"⟩,
     ⟨"sites", none, .integers, "Pair of site indices, e.g. 0,1"⟩]
  | neighbors =>
    [⟨"site", none, .integer, "Centre site index"⟩,
     ⟨"cutoff", none, .real, "Neighbour cutoff radius (Cartesian units)"⟩]
  | script _ => [⟨"no-descriptions", none, .switch, "disable completion descriptions"⟩]
  | _ => []

def sharedFlags : Command → List FlagSpec
  | root =>
    [⟨"debug", none, .switch, "Log every reduction step to stderr"⟩,
     ⟨"json", none, .switch, "Output in JSON format"⟩]
  | _ => []

def inheritedFlags : Command → List FlagSpec
  | root => []
  | script _ => completion.sharedFlags ++ root.sharedFlags
  | _ => root.sharedFlags

/-- The flags of a command before it runs: its own, shared or not, and those it inherits. -/
def knownFlags (c : Command) : List FlagSpec := c.localFlags ++ c.sharedFlags ++ c.inheritedFlags

def helpFlag (c : Command) : FlagSpec := ⟨"help", some 'h', .switch, "help for " ++ c.name⟩

def versionFlag : FlagSpec := ⟨"version", some 'v', .switch, "version for " ++ programName⟩

/-- The flags a command adds when it runs: help always, version for the root. -/
def runFlags (c : Command) : List FlagSpec :=
  c.helpFlag :: (if c = root then [versionFlag] else [])

def requiredFlags : Command → List String
  | neighbors => ["cutoff"]
  | _ => []

def togetherGroups : Command → List (List String)
  | distance => [["from", "to"]]
  | _ => []

def exclusiveGroups : Command → List (List String)
  | distance => [["sites", "from"], ["sites", "to"]]
  | _ => []

/-- Whether the help listings show a command: it does something or groups commands that do,
and it is not the help command, which is listed anyway. -/
def available : Command → Bool
  | help => false
  | root | reduce | distance | neighbors | script _ => true
  | completion => true

end Command

end CrystalLattice.CommandLine
