import CrystalLattice.CommandLine.Session

/-!
# The program

The command line is run as a session; when a command needs a structure file, the file is
opened here and what was found is handed back. The outcome's two texts are then printed and its
status returned.
-/

open CrystalLattice.CommandLine

/-- What opening `path` finds on disk. A read that fails because the path is a folder reports
code 21; a path that goes on below a file fails with another code of the same kind. -/
def lookupPath (path : String) : IO Lookup := do
  try
    pure (.file (← IO.FS.readFile path))
  catch e =>
    match e with
    | .inappropriateType _ code _ =>
      pure (if code = 21 || code = 4294967275 then .folder else .belowFile)
    | _ => pure .missing

def main (args : List String) : IO UInt32 := do
  let outcome ← match session args with
    | .done o => pure o
    | .reads path next => next <$> lookupPath path
  let out ← IO.getStdout
  out.putStr outcome.stdout
  out.flush
  let err ← IO.getStderr
  err.putStr outcome.stderr
  err.flush
  pure outcome.exit.toUInt32
