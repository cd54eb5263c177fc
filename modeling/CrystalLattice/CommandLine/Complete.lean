import CrystalLattice.CommandLine.Find

/-!
# Completion requests

Completion scripts call the hidden command `__complete` (or `__completeNoDesc`) with the words
typed so far. The words before the last are read as a run reads them; the last word is completed
as a flag value (nothing to offer), a flag name, or a command name, and a directive tells the
shell whether it may offer file names as well.
-/

namespace CrystalLattice.CommandLine

inductive Directive where
  /-- Nothing more is said: the shell may offer file names as well. -/
  | anything
  /-- The shell must not offer file names. -/
  | noFiles
  deriving DecidableEq, Repr

def Directive.code : Directive → Nat
  | .anything => 0
  | .noFiles => 4

def Directive.describe : Directive → String
  | .anything => "ShellCompDirectiveDefault"
  | .noFiles => "ShellCompDirectiveNoFileComp"

def requestName : String := "__complete"

def requestNameBare : String := "__completeNoDesc"

/-- When the arguments call the hidden completion command: whether descriptions are wanted,
and the words left for the command. It is found like any command under the root. -/
def completionRequest? (args : List String) : Option (Bool × List String) :=
  let known := Command.root.knownFlags
  match commandWords known args with
  | word :: _ =>
    if word = requestName then some (true, withoutWord known word args)
    else if word = requestNameBare then some (false, withoutWord known word args)
    else none
  | [] => none

/-- The command a completion is for: one of the program's, or the hidden completion command
itself, which leaves its words unread. -/
inductive Target where
  | command (c : Command)
  | request
  deriving DecidableEq, Repr

namespace Target

def requestHelp : FlagSpec := ⟨"help", some 'h', .switch, "help for " ++ requestName⟩

def name : Target → String
  | command c => c.name
  | request => requestName

def inherited : Target → List FlagSpec
  | command c => c.inheritedFlags
  | request => Command.root.sharedFlags

/-- The command's own flags, its help flag and, for the root, its version flag among them. -/
def own : Target → List FlagSpec
  | command c => c.localFlags ++ c.sharedFlags ++ c.runFlags
  | request => [requestHelp]

def unshared : Target → List FlagSpec
  | command c => c.localFlags ++ c.runFlags
  | request => [requestHelp]

def allFlags (t : Target) : List FlagSpec := t.inherited ++ t.own

def readsFlags : Target → Bool
  | command _ => true
  | request => false

def children : Target → List Command
  | command c => c.children.mergeSort fun a b => a.name ≤ b.name
  | request => []

def findFlag? (t : Target) (flagName : String) : Option FlagSpec :=
  match flagName.toList with
  | [c] => if flagName.utf8ByteSize = 1 then t.allFlags.find? (·.shorthand == some c)
    else t.allFlags.find? (·.name == flagName)
  | _ => t.allFlags.find? (·.name == flagName)

/-- The flags in the order completion visits them: the inherited ones by name, then the
command's own by name. -/
def visitOrder (t : Target) : List FlagSpec :=
  let byName (specs : List FlagSpec) := specs.mergeSort fun a b => a.name ≤ b.name
  byName t.inherited ++ byName t.own

/-- The flags a completion treats as required: those the command requires, and every flag of
a group to be given together once one of the group is given. -/
def requiredNow (t : Target) (table : FlagTable) : List String :=
  match t with
  | command c => c.requiredFlags ++ (c.togetherGroups.filter fun g => g.any table.changed).flatten
  | request => []

def hiddenNow (t : Target) (table : FlagTable) : List String :=
  match t with
  | command c =>
    c.exclusiveGroups.flatMap fun g => g.filter fun n => g.any fun m => m ≠ n && table.changed m
  | request => []

end Target

/-- The ways to write a flag that start with `typed`, its long name first, each with the flag's
usage after a tab. A hidden flag offers none. -/
def flagChoices (hidden : List String) (typed : String) (f : FlagSpec) : List String :=
  if hidden.contains f.name then []
  else
    let short := match f.shorthand with
      | some c => ["-" ++ c.toString]
      | none => []
    (("--" ++ f.name) :: short).filterMap fun w =>
      if w.startsWith typed then some (w ++ "\t" ++ f.usage) else none

def requiredChoices (t : Target) (table : FlagTable) (typed : String) : List String :=
  let required := t.requiredNow table
  let hidden := t.hiddenNow table
  t.visitOrder.flatMap fun f =>
    if required.contains f.name && !table.changed f.name then flagChoices hidden typed f else []

def flagNameChoices (t : Target) (table : FlagTable) (typed : String) : List String :=
  let hidden := t.hiddenNow table
  t.visitOrder.flatMap fun f =>
    if !table.changed f.name || f.kind = .reals || f.kind = .integers then
      flagChoices hidden typed f
    else []

def listedUnder (sub : Command) : Bool := sub.available || sub = .help

def commandChoices (t : Target) (typed : String) : List String :=
  (t.children.filter listedUnder).filterMap fun sub =>
    if sub.name.startsWith typed then some (sub.name ++ "\t" ++ sub.short) else none

def wordList (words : List String) : String := "[" ++ " ".intercalate words ++ "]"

/-- The command that words name, found as a run finds it, with the hidden completion command
among those under the root, and the words left for it. -/
def findTarget (words : List String) : Except String (Target × List String) :=
  match completionRequest? words with
  | some (_, rest) => .ok (.request, rest)
  | none =>
    match findCommand words with
    | (c, rest, none) => .ok (.command c, rest)
    | (_, _, some _) => .error ("unable to find a command for arguments: " ++ wordList words)

def helpChoices (words : List String) (typed : String) : List String :=
  match findTarget words with
  | .ok (t, _) => commandChoices t typed
  | .error _ => []

def isFlagWord (w : String) : Bool :=
  match w.toList with
  | '-' :: '-' :: _ => w.utf8ByteSize ≥ 3
  | '-' :: c :: _ => c ≠ '-'
  | _ => false

def splitAtEqual (s : String) : Option (String × String) :=
  match s.splitOn "=" with
  | before :: after@(_ :: _) => some (before, "=".intercalate after)
  | _ => none

/-- The name of the flag a word names: after two dashes the rest, else its last byte, which
is a character only when it is ASCII; a lone byte of a longer character is shown as the
replacement character and names no flag. -/
def namedFlag (w : String) : String :=
  if w.startsWith "--" then (w.drop 2).toString
  else match w.toList.getLast? with
    | some c => if c.toNat < 0x80 then c.toString else (Char.ofNat 0xFFFD).toString
    | none => ""

/-- What the last words say about the flag whose value is being completed. -/
structure FlagAsk where
  flag : Option FlagSpec
  args : List String
  typed : String
  problem : Option String

/-- Find whether the value of a flag is being completed: the last word is `--flag=...` (or
`-f=...`), or it follows a word that is a flag without `=`. A switch takes no value, so after
one the completion is not of a value. -/
def flagAsk (t : Target) (args : List String) (last : String) : FlagAsk :=
  let plain : FlagAsk := ⟨none, args, last, none⟩
  if !t.readsFlags then plain
  else
    let fromLast : Option (String × String) :=
      if last.startsWith "-" then
        match splitAtEqual last with
        | some (before, after) => some (namedFlag before, after)
        | none => none
      else some ("", last)
    match fromLast with
    | none => plain
    | some (named, typed) =>
      let withEqual := typed ≠ last || named ≠ ""
      let (named, trimmed) :=
        if named ≠ "" then (named, args)
        else match args.getLast? with
          | some prev =>
            if isFlagWord prev && !prev.contains '=' then (namedFlag prev, args.dropLast)
            else ("", args)
          | none => ("", args)
      if named = "" then ⟨none, trimmed, typed, none⟩
      else match t.findFlag? named with
        | none =>
          ⟨none, args, last, some ("Subcommand \x27" ++ t.name ++
            "\x27 does not support flag \x27" ++ named ++ "\x27")⟩
        | some f =>
          if !withEqual && f.kind = .switch then ⟨none, args, typed, none⟩
          else ⟨some f, trimmed, typed, none⟩

/-- The answer to a completion request: the choices, the directive, and the problem that
stopped the request, if one did. -/
structure Answer where
  choices : List String
  directive : Directive
  problem : Option String

def Answer.stopped (problem : String) : Answer := ⟨[], .anything, some problem⟩

/-- The choices once the flags are read: `table` holds the flags, `args` the positional words,
and `flagCompletion` is false after a `--`. -/
def answerAfterFlags (t : Target) (table : FlagTable) (flag : Option FlagSpec)
    (args : List String) (typed : String) (flagCompletion : Bool) : Answer :=
  if table.changed "help" || table.changed "version" then ⟨[], .noFiles, none⟩
  else if flag.isNone && typed.startsWith "-" && !typed.contains '=' && flagCompletion then
    let required := requiredChoices t table typed
    ⟨if required.isEmpty then flagNameChoices t table typed else required, .noFiles, none⟩
  else if flag.isSome && flagCompletion then ⟨[], .anything, none⟩
  else
    let (commands, directive) :=
      if flag.isNone && args.isEmpty && !t.unshared.any (fun f => table.changed f.name) then
        (commandChoices t typed, if t.children.any listedUnder then Directive.noFiles else .anything)
      else ([], .anything)
    let choices := if flag.isNone then commands ++ requiredChoices t table typed else []
    match t with
    | .command .help => ⟨choices ++ helpChoices args typed, .noFiles, none⟩
    | .command .completion | .command (.script _) => ⟨choices, .noFiles, none⟩
    | _ => ⟨choices, directive, none⟩

/-- The answer to a completion request for the words `words` before the word `last` that is
being completed. -/
def completionAnswer (words : List String) (last : String) : Answer :=
  match findTarget words with
  | .error e => .stopped e
  | .ok (t, args) =>
    let ask := flagAsk t args last
    if !t.readsFlags then
      answerAfterFlags t (FlagTable.fresh t.allFlags) none ask.args ask.typed true
    else
      let fresh := FlagTable.fresh t.allFlags
      let extended := match readArguments fresh [] (ask.args ++ ["--"]) with
        | .ok (_, positional) => positional.length
        | .error _ => 0
      match readArguments fresh [] ask.args with
      | .error e =>
        .stopped ("Error while parsing flags from args " ++ wordList ask.args ++ ": " ++ e)
      | .ok (table, positional) =>
        let flagCompletion := !(extended > positional.length)
        match ask.problem with
        | some p => if flagCompletion then .stopped p
          else answerAfterFlags t table ask.flag positional ask.typed flagCompletion
        | none => answerAfterFlags t table ask.flag positional ask.typed flagCompletion

def isEndSpace (c : Char) : Bool :=
  c = ' ' || c = '\t' || c = '\n' || c = '\r' || c.toNat = 0x0B || c.toNat = 0x0C ||
    c.toNat = 0x85 || c.toNat = 0xA0

/-- A choice as printed: its first line, without its description when none are wanted, and
without white space at its ends. -/
def choiceLine (descriptions : Bool) (choice : String) : String :=
  let kept := if descriptions then choice else (choice.splitOn "\t").headD ""
  let firstLine := (kept.splitOn "\n").headD ""
  let cs := (firstLine.toList.dropWhile isEndSpace).reverse.dropWhile isEndSpace
  String.ofList cs.reverse

/-- What the completion command prints on standard output and on the error stream: the choices
one a line, then a colon and the directive's number; the problem met, then the directive's
name. -/
def Answer.render (a : Answer) (descriptions : Bool) : String × String :=
  let out := String.join (a.choices.map fun c => choiceLine descriptions c ++ "\n") ++ ":" ++
    toString a.directive.code ++ "\n"
  let problem := match a.problem with
    | some p => "[Debug] [Error] " ++ p ++ "\n"
    | none => ""
  (out, problem ++ "Completion ended with directive: " ++ a.directive.describe ++ "\n")

end CrystalLattice.CommandLine
