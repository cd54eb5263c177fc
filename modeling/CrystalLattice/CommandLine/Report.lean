import CrystalLattice.Crystal.Structure
import CrystalLattice.Linear.Text
import CrystalLattice.Json
import CrystalLattice.CommandLine.Table

/-!
# What the commands print

Results are printed as text or, with `--json`, as an indented JSON document, which cannot hold
NaN or the infinities. Debug records go to the error stream as `key=value` pairs, a value quoted
when it would not read back as one word.
-/

namespace CrystalLattice.CommandLine

/-- A text value of a debug record, quoted when it would not read back as one word. -/
def recordValue (s : String) : String :=
  let plain (c : Char) : Bool :=
    if c.toNat < 0x80 then c.toNat ≥ 0x20 && c ≠ ' ' && c ≠ '=' && c ≠ '"'
    else c.toNat ≠ 0xFFFD && printsAsItself c
  if s ≠ "" && s.toList.all plain then s else quoted s

def debugRecord (message : String) (fields : List (String × String)) : String :=
  "level=DEBUG msg=" ++ recordValue message ++
    String.join (fields.map fun (k, v) => " " ++ k ++ "=" ++ v) ++ "\n"

def loadedRecord (command path : String) (s : Structure Float) : String :=
  debugRecord "structure loaded"
    [("command", recordValue command), ("path", recordValue path), ("sites", toString s.size),
     ("volume", Decimal.render s.volume)]

def stepRecord (command : String) (e : Reduction.StepEvent) : String :=
  debugRecord "reduction step"
    [("command", recordValue command), ("iteration", toString e.iteration), ("k", toString e.k),
     ("action", Reduction.Action.describe e.action.code), ("updates", toString e.updates),
     ("swaps", toString e.swaps)]

/-- A JSON document indented by two spaces and ended by a line break, or the message naming
the first value JSON cannot write. -/
def jsonDocument (v : Json) : Except String String :=
  match Json.firstNonFinite? v with
  | some x => .error ("json: unsupported value: " ++ Decimal.render x)
  | none => .ok (Json.indented (fun x => (Decimal.renderJson? x).getD "") 0 v ++ "\n")

def vecJson (v : Vec3 Float) : Json := .arr (v.toList.map .float)

def matJson (m : Mat3 Float) : Json := .arr (m.rows.map vecJson)

def offsetJson (o : Offset) : Json := .arr [.int o.i, .int o.j, .int o.k]

def offsetText (o : Offset) : String := s!"[{o.i} {o.j} {o.k}]"

def fixed6 (x : Float) : String := Decimal.renderFixed 6 x

def reductionText (r : Reduction.Result Float) (volume : Float) : String :=
  "reduced:\n" ++ r.reduced.text ++ "mapping:\n" ++ r.mapping.text ++ "inverse:\n" ++
    r.inverse.text ++ s!"steps: {r.steps} swaps: {r.swaps} volume: " ++ Decimal.render volume ++
    "\n"

def reductionJson (r : Reduction.Result Float) (volume : Float) : Json :=
  .obj [("inverse", matJson r.inverse), ("mapping", matJson r.mapping),
    ("reduced", matJson r.reduced), ("steps", .int r.steps), ("swaps", .int r.swaps),
    ("volume", .float volume)]

def displacementText (d : Displacement Float) : String :=
  "distance: " ++ fixed6 d.distance ++ "\nvector:   " ++ d.vector.text fixed6 ++
    "\nimage:    " ++ offsetText d.image ++ "\n"

def displacementJson (d : Displacement Float) : Json :=
  .obj [("distance", .float d.distance), ("image", offsetJson d.image),
    ("vector", vecJson d.vector)]

def neighborsText (ns : List Neighbor) : String :=
  table (["INDEX", "SPECIES", "DISTANCE", "VECTOR"] :: ns.map fun n =>
    [toString n.index, toString n.species, fixed6 n.displacement.distance,
      n.displacement.vector.text fixed6])

def neighborsJson (ns : List Neighbor) : Json :=
  .arr (ns.map fun n =>
    .obj [("distance", .float n.displacement.distance), ("index", .int n.index),
      ("species", .int n.species), ("vector", vecJson n.displacement.vector)])

end CrystalLattice.CommandLine
