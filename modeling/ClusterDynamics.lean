import ClusterDynamics.Cluster
import ClusterDynamics.ClusterTable
import ClusterDynamics.Codec
import ClusterDynamics.Composition
import ClusterDynamics.Coordinate
import ClusterDynamics.Decimal.Layout
import ClusterDynamics.Decimal.Numeral
import ClusterDynamics.Decimal.Shortest
import ClusterDynamics.Evaluation
import ClusterDynamics.Fault
import ClusterDynamics.Fingerprint
import ClusterDynamics.Flux
import ClusterDynamics.Grid
import ClusterDynamics.Inventory
import ClusterDynamics.Jacobian
import ClusterDynamics.Json
import ClusterDynamics.Json.Decode
import ClusterDynamics.Json.Lexer
import ClusterDynamics.Json.Parser
import ClusterDynamics.Json.Printer
import ClusterDynamics.Material
import ClusterDynamics.Material.BinSchedule
import ClusterDynamics.Material.Choice
import ClusterDynamics.Material.DefectSpace
import ClusterDynamics.Material.Iron
import ClusterDynamics.Material.Tungsten
import ClusterDynamics.Material.Xenon
import ClusterDynamics.Moment.Basis
import ClusterDynamics.Moment.Index
import ClusterDynamics.Moment.Overlap
import ClusterDynamics.Moment.Vector
import ClusterDynamics.Network
import ClusterDynamics.Network.Builder
import ClusterDynamics.Network.Journal
import ClusterDynamics.Params
import ClusterDynamics.Partition
import ClusterDynamics.PhaseSpace
import ClusterDynamics.Population
import ClusterDynamics.RateLaw
import ClusterDynamics.Rates
import ClusterDynamics.Reaction
import ClusterDynamics.Reaction.Assembly
import ClusterDynamics.Reaction.Channel
import ClusterDynamics.Reaction.Encounter
import ClusterDynamics.Region
import ClusterDynamics.Region.Bisection
import ClusterDynamics.Region.Points
import ClusterDynamics.Region.Range
import ClusterDynamics.RegionTree
import ClusterDynamics.Scalar
import ClusterDynamics.Scalar.Double
import ClusterDynamics.Snapshot
import ClusterDynamics.SparsityPattern
import ClusterDynamics.Species
import ClusterDynamics.Storage
import ClusterDynamics.Proofs.ExactScalar
import ClusterDynamics.Proofs.Lattice
import ClusterDynamics.Proofs.Overlap
import ClusterDynamics.Proofs.Layout
import ClusterDynamics.Proofs.Construction
import ClusterDynamics.Proofs.Places
import ClusterDynamics.Proofs.SignedPoints
import ClusterDynamics.Proofs.DualBasis
import ClusterDynamics.Proofs.StateVector
import ClusterDynamics.Proofs.CompressedRows
import ClusterDynamics.Proofs.Records
import ClusterDynamics.Proofs.Reactions
import ClusterDynamics.Proofs.Rows
import ClusterDynamics.Proofs.Kinetics
import ClusterDynamics.Proofs.Conservation
import ClusterDynamics.Proofs.Pattern
import ClusterDynamics.Proofs.Monomial
import ClusterDynamics.Proofs.Derivative
import ClusterDynamics.Proofs.Admissible
import ClusterDynamics.Proofs.Partition
import ClusterDynamics.Proofs.Generation
import ClusterDynamics.Proofs.Metal
import ClusterDynamics.Proofs.Enumeration
import ClusterDynamics.Proofs.Doubling
import ClusterDynamics.Proofs.Restore
import ClusterDynamics.Proofs.Productions
import ClusterDynamics.Proofs.Reversal
import ClusterDynamics.Proofs.RecordAgreement
import ClusterDynamics.Proofs.Tiling
import ClusterDynamics.Proofs.Tracking
import ClusterDynamics.Proofs.Materials
import ClusterDynamics.Proofs.Acceptance
import ClusterDynamics.Proofs.Coverage
import ClusterDynamics.Proofs.Touched
import ClusterDynamics.Proofs.RoundTrip
import ClusterDynamics.Proofs.Movers
import ClusterDynamics.Proofs.Events
import ClusterDynamics.Proofs.JsonText
import ClusterDynamics.Proofs.Codecs
import ClusterDynamics.Proofs.Finiteness
import ClusterDynamics.Proofs.FixedPoint
import ClusterDynamics.Proofs.SnapshotFile
import ClusterDynamics.Proofs.Nonnegativity
import ClusterDynamics.Proofs.Collection
import ClusterDynamics.Proofs.SmallRegions
import ClusterDynamics.Proofs.Emissions
import ClusterDynamics.Proofs.Equilibrium
import ClusterDynamics.Proofs.Traversal
import ClusterDynamics.Proofs.Bisection
import ClusterDynamics.Proofs.DirectSum
import ClusterDynamics.Proofs.SlotLayout
import ClusterDynamics.Proofs.Accumulation
import ClusterDynamics.Proofs.Identity
import ClusterDynamics.Proofs.Reordering
import ClusterDynamics.Proofs.Influence
import ClusterDynamics.Proofs.TwinRates
import ClusterDynamics.Proofs.TwinRows
import ClusterDynamics.Proofs.SeedOrder
import ClusterDynamics.Proofs.ExactIndex
import ClusterDynamics.Proofs.FormationEnergy
import ClusterDynamics.Proofs.BindingEnergy
import ClusterDynamics.Proofs.Activation
import ClusterDynamics.Proofs.RateGrowth
import ClusterDynamics.Proofs.GridSweep
import ClusterDynamics.Proofs.Visits
import ClusterDynamics.Proofs.BinWidths
import ClusterDynamics.Proofs.Indexed
import ClusterDynamics.Proofs.Indexing
import ClusterDynamics.Proofs.ForeignRates
import ClusterDynamics.Proofs.SeedPlace
import ClusterDynamics.Proofs.Lookup
import ClusterDynamics.Proofs.DissociationSwitch
import ClusterDynamics.Proofs.Names
import ClusterDynamics.Proofs.WordSizes
