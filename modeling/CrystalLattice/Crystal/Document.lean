import CrystalLattice.Crystal.Structure
import CrystalLattice.Yaml.Decode

/-!
# Structure documents

A structure is a YAML mapping with a `lattice` of three rows, an optional Lovász parameter
`delta`, and `sites`, each with an integer `species` and a fractional position `frac`. Only the
first document is read and unknown keys are refused; the document's `delta` comes first among
the settings, so the caller's overrides it.
-/

namespace CrystalLattice

open CrystalLattice.Yaml

structure SiteEntry where
  species : Int
  frac : List Float

structure Document where
  lattice : Option (List (List Float))
  delta : Option Float
  sites : List SiteEntry

namespace Document

def siteSchema : Schema := .record "structure.siteDoc" [("species", .integer), ("frac", .list .real)]

def schema : Schema :=
  .record "structure.document"
    [("lattice", .list (.list .real)), ("delta", .optional .real), ("sites", .list siteSchema)]

/-- Floats of a decoded list; an absent list is empty. -/
def reals : Datum → List Float
  | .list items => items.filterMap fun
    | .real x => some x
    | _ => none
  | _ => []

def siteOf : Datum → SiteEntry
  | .record fields =>
    { species := match fields.lookup "species" with
        | some (.integer n) => n
        | _ => 0
      frac := reals ((fields.lookup "frac").getD .absent) }
  | _ => ⟨0, []⟩

def ofDatum : Datum → Document
  | .record fields =>
    { lattice := match fields.lookup "lattice" with
        | some (.list rows) => some (rows.map reals)
        | _ => none
      delta := match fields.lookup "delta" with
        | some (.real x) => some x
        | _ => none
      sites := match fields.lookup "sites" with
        | some (.list items) => items.map siteOf
        | _ => [] }
  | _ => ⟨none, none, []⟩

/-- Read the first document of a text. -/
def parse (text : String) : Except (Failure Float) Document :=
  match decodeFirst text schema with
  | .error (.problem msg) => .error (.within .parse (.ofCause (.documentSyntax msg)))
  | .error (.types errors) => .error (.within .parse (.ofCause (.documentType errors)))
  | .error (.fault message) => .error (.ofCause (.runtimeFault message))
  | .ok none => .error (.within .parse (.ofCause .emptyDocument))
  | .ok (some d) =>
    let doc := ofDatum d
    if doc.lattice.isNone then .error (.within .parse (.ofCause .emptyDocument)) else .ok doc

/-- The settings of a document's structure: its `delta` first, then the caller's. -/
def settings (doc : Document) (extra : List (Reduction.Setting Float)) :
    List (Reduction.Setting Float) :=
  match doc.delta with
  | some d => .delta d :: extra
  | none => extra

def build (doc : Document) (extra : List (Reduction.Setting Float)) :
    Except (Failure Float) (Structure Float) := do
  let lattice ← (Mat3.ofRows? (doc.lattice.getD [])).mapError (Failure.within .parseLattice)
  let mut coords : Array (Vec3 Float) := #[]
  for h : i in [0:doc.sites.length] do
    let site := doc.sites[i]
    let v ← (Vec3.ofList? site.frac).mapError (Failure.within (.parseSite i))
    coords := coords.push v
  let species := (doc.sites.map (·.species)).toArray
  Structure.new lattice coords species (doc.settings extra)

end Document

/-- The structure of the first document of a text, with settings after the document's own. -/
def Structure.ofYaml (text : String) (extra : List (Reduction.Setting Float)) :
    Except (Failure Float) (Structure Float) := do
  let doc ← Document.parse text
  doc.build extra

end CrystalLattice
