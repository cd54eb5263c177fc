import CrystalLattice.CommandLine.Find
import CrystalLattice.CommandLine.Complete
import CrystalLattice.CommandLine.Help
import CrystalLattice.CommandLine.Report
import CrystalLattice.Crystal.Document

/-!
# A run of the program

A run finds its command, reads the flags, handles help and version, checks the arguments, the
required flags and the flag groups, and does the work; the first failure ends it with status 1.
A run that needs a structure file waits for what its path holds.
-/

namespace CrystalLattice.CommandLine

/-- What a run printed and the status it ended with. -/
structure Outcome where
  exit : Nat
  stdout : String
  stderr : String
  deriving Repr, BEq

inductive Lookup where
  | file (text : String)
  /-- A folder, which opens but cannot be read as text. -/
  | folder
  | missing
  | belowFile
  deriving Repr, BEq

/-- A run: finished, or waiting for what one path holds. -/
inductive Session where
  | done (o : Outcome)
  | reads (path : String) (next : Lookup → Outcome)

def printed (out : String) : Outcome := ⟨0, out, ""⟩

def failed (records message : String) : Outcome :=
  ⟨1, "", records ++ programName ++ ": " ++ message ++ "\n"⟩

/-- A run ended by a runtime fault: the program stops with status 2 and names the fault. The
fault passed through a handler that let it go on, which the message notes. -/
def crashed (message : String) : Outcome :=
  ⟨2, "", "panic: " ++ message ++ " [recovered, repanicked]\n\ngoroutine 1 [running]:\n"⟩

inductive Place where
  /-- A folder; the working folder when `home` holds. -/
  | folder (home : Bool)
  | file (text : String)
  | missing
  | belowFile

/-- One step of a walk along a path, into the part `part`. The working folder holds exactly
`files`; other folders are taken to be empty. -/
def Place.enter (files : List (String × String)) (p : Place) (part : String) : Place :=
  match p with
  | .folder home =>
    if part = "" || part = "." then .folder home
    else if part = ".." then .folder false
    else if home then
      match files.find? (·.1 == part) with
      | some (_, text) => .file text
      | none => .missing
    else .missing
  | .file _ => .belowFile
  | .missing => .missing
  | .belowFile => .belowFile

def Lookup.inFolder (files : List (String × String)) (path : String) : Lookup :=
  if path = "" then .missing
  else
    let start : Place := .folder (path.toList.head? ≠ some '/')
    match (path.splitOn "/").foldl (Place.enter files) start with
    | .folder _ => .folder
    | .file text => .file text
    | .missing => .missing
    | .belowFile => .belowFile

def loadStructure (path : String) (found : Lookup) (settings : List (Reduction.Setting Float)) :
    Except (Failure Float) (Structure Float) :=
  match found with
  | .missing => .error (Failure.within .load (.ofCause (.missingFile path)))
  | .belowFile => .error (Failure.within .load (.ofCause (.notFolder path)))
  | .folder =>
    .error (Failure.within .parse
      (.ofCause (.documentSyntax ("input error: read " ++ path ++ ": is a directory"))))
  | .file text => Structure.ofYaml text settings

def present (json : Bool) (doc : Json) (text : String) : Except String String :=
  if json then jsonDocument doc else .ok text

def explain (e : Failure Float) : String := e.message Decimal.render

def reduceWork (flags : FlagTable) (path : String) (s : Structure Float) :
    Except String String × Structure Float :=
  let (cell, s) := s.cell
  match cell with
  | .error e => (.error ("reduce " ++ path ++ ": " ++ explain e), s)
  | .ok cell =>
    let r := cell.reduction
    (present (flags.switchOn "json") (reductionJson r s.volume) (reductionText r s.volume), s)

def distanceAnswer (flags : FlagTable) (d : Except (Failure Float) (Displacement Float)) :
    Except String String :=
  match d with
  | .error e => .error ("distance: " ++ explain e)
  | .ok d => present (flags.switchOn "json") (displacementJson d) (displacementText d)

def distanceWork (flags : FlagTable) (s : Structure Float) :
    Except String String × Structure Float :=
  let sites := flags.integers "sites"
  if !sites.isEmpty then
    match sites with
    | [i, j] =>
      let (d, s) := s.siteDisplacement i j
      (distanceAnswer flags d, s)
    | _ => (.error s!"--sites: want 2 indices, got {sites.length}", s)
  else if flags.changed "from" then
    match Vec3.ofList? (flags.reals "from"), Vec3.ofList? (flags.reals "to") with
    | .error e, _ => (.error ("--from: " ++ explain e), s)
    | .ok _, .error e => (.error ("--to: " ++ explain e), s)
    | .ok f₁, .ok f₂ =>
      let (d, s) := s.displacement f₁ f₂
      (distanceAnswer flags d, s)
  else (.error "give either --sites i,j or both --from and --to", s)

def neighborsWork (flags : FlagTable) (s : Structure Float) :
    Except String String × Structure Float :=
  let (found, s) := s.neighbors (flags.integer "site") (flags.real "cutoff")
  match found with
  | .error e => (.error ("neighbors: " ++ explain e), s)
  | .ok ns => (present (flags.switchOn "json") (neighborsJson ns) (neighborsText ns), s)

/-- The work of a command that reads a structure, once the structure's path is looked up.
With `--debug` the records of loading and of every reduction step precede the outcome. -/
def work (c : Command) (flags : FlagTable) (path : String) (found : Lookup) : Outcome :=
  let debug := flags.switchOn "debug"
  match loadStructure path found (if debug then [.trace] else []) with
  | .error e => if e.kind = .crash then crashed (explain e) else failed "" (explain e)
  | .ok s =>
    let loaded := if debug then loadedRecord c.name path s else ""
    let (answer, s) := match c with
      | .reduce => reduceWork flags path s
      | .distance => distanceWork flags s
      | _ => neighborsWork flags s
    let steps := if debug then String.join ((s.trace.getD #[]).toList.map (stepRecord c.name))
      else ""
    match answer with
    | .ok out => ⟨0, out, loaded ++ steps⟩
    | .error msg => failed (loaded ++ steps) msg

def Command.checkArguments (c : Command) (args : List String) : Except String Unit :=
  match c.arity with
  | .any => .ok ()
  | .exactly n =>
    if args.length = n then .ok () else .error s!"accepts {n} arg(s), received {args.length}"
  | .zero =>
    match args with
    | [] => .ok ()
    | a :: _ => .error ("unknown command " ++ quoted a ++ " for " ++ quoted c.path)

def Command.checkRequired (c : Command) (flags : FlagTable) : Except String Unit :=
  let missing := (c.requiredFlags.mergeSort fun a b => a ≤ b).filter fun n => !flags.changed n
  if missing.isEmpty then .ok ()
  else .error ("required flag(s) \"" ++ "\", \"".intercalate missing ++ "\" not set")

def sortGroups (groups : List (List String)) : List (List String) :=
  groups.mergeSort fun a b => " ".intercalate a ≤ " ".intercalate b

def bracketed (names : List String) : String :=
  "[" ++ " ".intercalate (names.mergeSort fun a b => a ≤ b) ++ "]"

/-- Check the flag groups: of a group given together, either all or none are given; of an
exclusive group, at most one. -/
def Command.checkGroups (c : Command) (flags : FlagTable) : Except String Unit := do
  for g in sortGroups c.togetherGroups do
    let unset := g.filter fun n => !flags.changed n
    if !unset.isEmpty && unset.length ≠ g.length then
      throw ("if any flags in the group [" ++ " ".intercalate g ++
        "] are set they must all be set; missing " ++ bracketed unset)
  for g in sortGroups c.exclusiveGroups do
    let given := g.filter flags.changed
    if given.length > 1 then
      throw ("if any flags in the group [" ++ " ".intercalate g ++
        "] are set none of the others can be; " ++ bracketed given ++ " were all set")

/-- The help command: the help of the command its arguments name, or, for a name the root
does not know, the root's usage on the error stream. -/
def helpTopic (args : List String) : Outcome :=
  let (target, _, problem) := findCommand args
  match problem with
  | some _ =>
    ⟨0, "", "Unknown help topic [" ++ " ".intercalate (args.map backquoted) ++ "]\n" ++
      Command.root.usage false⟩
  | none => printed target.helpText

def execute (c : Command) (args : List String) : Session :=
  match readArguments (FlagTable.fresh (c.knownFlags ++ c.runFlags)) [] args with
  | .error msg => .done (failed "" msg)
  | .ok (flags, positional) =>
    if flags.switchOn "help" then .done (printed c.helpText)
    else if c = .root && flags.switchOn "version" then
      .done (printed (programName ++ " version " ++ programVersion ++ "\n"))
    else if !c.runnable then .done (printed c.helpText)
    else
      let checked := do
        c.checkArguments positional
        c.checkRequired flags
        c.checkGroups flags
      match checked with
      | .error msg => .done (failed "" msg)
      | .ok () =>
        match c, positional with
        | .root, _ => .done (printed c.helpText)
        | .help, _ => .done (helpTopic positional)
        | .reduce, path :: _ | .distance, path :: _ | .neighbors, path :: _ =>
          .reads path (work c flags path)
        | _, _ => .done (printed "")

def session (args : List String) : Session :=
  match completionRequest? args with
  | some (descriptions, words) =>
    match words.reverse with
    | [] => .done (failed "" "requires at least 1 arg(s), only received 0")
    | last :: before =>
      let (out, err) := (completionAnswer before.reverse last).render descriptions
      .done ⟨0, out, err⟩
  | none =>
    match findCommand args with
    | (_, _, some msg) => .done (failed "" msg)
    | (c, rest, none) => execute c rest

def runIn (files : List (String × String)) (args : List String) : Outcome :=
  match session args with
  | .done o => o
  | .reads path next => next (Lookup.inFolder files path)

end CrystalLattice.CommandLine
