import CrystalLattice.Binary64
import CrystalLattice.Decimal.Shortest
import CrystalLattice.Decimal.Layout
import CrystalLattice.Decimal.Read
import CrystalLattice.Scalar
import CrystalLattice.Failure
import CrystalLattice.Json
import CrystalLattice.Linear.Vec3
import CrystalLattice.Linear.Mat3
import CrystalLattice.Linear.Shape
import CrystalLattice.Linear.Inverse
import CrystalLattice.Linear.Index
import CrystalLattice.Reduction.Options
import CrystalLattice.Reduction.GramSchmidt
import CrystalLattice.Reduction.Check
import CrystalLattice.Reduction.Run
import CrystalLattice.Periodic.Image
import CrystalLattice.Periodic.Cell
import CrystalLattice.Crystal.Structure
import CrystalLattice.Linear.Text
import CrystalLattice.Printable
import CrystalLattice.Casing
import CrystalLattice.Quote
import CrystalLattice.Utf8
import CrystalLattice.Yaml.Problem
import CrystalLattice.Yaml.Source
import CrystalLattice.Yaml.Token
import CrystalLattice.Yaml.Scanner.State
import CrystalLattice.Yaml.Scanner.Scalar
import CrystalLattice.Yaml.Scanner.Directive
import CrystalLattice.Yaml.Scanner.Fetch
import CrystalLattice.Yaml.Event
import CrystalLattice.Yaml.Parser
import CrystalLattice.Yaml.Resolve
import CrystalLattice.Yaml.Node
import CrystalLattice.Yaml.Decode
import CrystalLattice.Crystal.Document
import CrystalLattice.CommandLine.Flag
import CrystalLattice.CommandLine.Parse
import CrystalLattice.CommandLine.Command
import CrystalLattice.CommandLine.Find
import CrystalLattice.CommandLine.Complete
import CrystalLattice.CommandLine.Help
import CrystalLattice.CommandLine.Table
import CrystalLattice.CommandLine.Report
import CrystalLattice.CommandLine.Session
import CrystalLattice.Main
import CrystalLattice.Proofs.Exact
import CrystalLattice.Proofs.GramSchmidt
import CrystalLattice.Proofs.ReductionStep
import CrystalLattice.Proofs.ReducedBasis
import CrystalLattice.Proofs.MatrixView
import CrystalLattice.Proofs.Unimodular
import CrystalLattice.Proofs.MinimumImage
import CrystalLattice.Proofs.Binary64Integers
import CrystalLattice.Proofs.IntegerMatrices
import CrystalLattice.Proofs.Termination
import CrystalLattice.Proofs.StructureCache
import CrystalLattice.Proofs.Binary64Sign
import CrystalLattice.Proofs.MinimumImageSymmetry
import CrystalLattice.Proofs.ScaleEquivariance
import CrystalLattice.Proofs.UnboundedFloat
import CrystalLattice.Proofs.Binary64Scaling
import CrystalLattice.Proofs.CongruentLattices
import CrystalLattice.Proofs.Binary64Order
import CrystalLattice.Proofs.FixedPoints
import CrystalLattice.Proofs.Idempotence
import CrystalLattice.Proofs.Degeneracy
import CrystalLattice.Proofs.StepBudget
import CrystalLattice.Proofs.ClosingCheck
import CrystalLattice.Proofs.MinimumImageSearch
import CrystalLattice.Proofs.PeriodicTranslation
import CrystalLattice.Proofs.StepTrace
import CrystalLattice.Proofs.ShortVector
import CrystalLattice.Proofs.NeighborList
import CrystalLattice.Proofs.Binary64Rounding
import CrystalLattice.Proofs.Binary64Monotone
import CrystalLattice.Proofs.CheckTolerance
import CrystalLattice.Proofs.CurrentOrthogonalisation
import CrystalLattice.Proofs.Settings
import CrystalLattice.Proofs.Binary64IntegerParts
import CrystalLattice.Proofs.HomeCell
import CrystalLattice.Proofs.SizeReducedRow
import CrystalLattice.Proofs.Binary64Division
import CrystalLattice.Proofs.Binary64Error
import CrystalLattice.Proofs.Binary64Vectors
import CrystalLattice.Proofs.EuclideanOrthogonalisation
import CrystalLattice.Proofs.OrthogonalisationError
import CrystalLattice.Proofs.LastPass
import CrystalLattice.Proofs.ClosingMargin
import CrystalLattice.Proofs.ConditionedReduction
