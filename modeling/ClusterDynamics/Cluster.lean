import ClusterDynamics.Composition
import ClusterDynamics.Moment.Index
import ClusterDynamics.Region.Range
import ClusterDynamics.Scalar

/-! Clusters: the unknowns of the rate equations. A cluster on a unit region stands for one
    composition; a grouped cluster stands for all compositions of a larger region and carries, besides
    its mean concentration, one first moment per grouped axis. Each of these unknowns owns one slot of
    the state vector. -/

namespace ClusterDynamics

/-- What a cluster stands for: a composition of one species, of several, or a whole region. -/
inductive ClusterKind
  | single
  | mixed
  | grouped
deriving DecidableEq, Repr, Inhabited

/-- The name of a kind in tables and data files. -/
def ClusterKind.text : ClusterKind → String
  | .single => "Single"
  | .mixed => "Mixed"
  | .grouped => "Super"

/-- The physics of a cluster that is fixed when a network is built: energies in eV, the diffusion
    factor in nm^2/s and the reaction radius in nm. -/
structure ClusterProperties (α : Type) where
  formationEnergy : α
  /-- `none` when no temperature makes the cluster migrate. -/
  migrationEnergy : Option α
  diffusionFactor : α
  reactionRadius : α
deriving Repr, DecidableEq

/-- The properties of a cluster that never moves. -/
def ClusterProperties.immobile {α : Type} [Scalar α] (formationEnergy reactionRadius : α) :
    ClusterProperties α :=
  ⟨formationEnergy, none, 0, reactionRadius⟩

/-- A cluster before it has a number. -/
structure ClusterSeed (α : Type) where
  region : Region
  composition : Composition
  properties : ClusterProperties α
deriving Repr, DecidableEq

/-- One slot for a moment on each grouped axis. -/
abbrev MomentSlots := Vector (Option Nat) maxAxes

/-- A numbered cluster. The number is also the slot of its mean concentration. -/
structure Cluster (α : Type) where
  id : Nat
  kind : ClusterKind
  region : Region
  composition : Composition
  properties : ClusterProperties α
  moments : MomentSlots
deriving Repr, DecidableEq

namespace Cluster

variable {α : Type}

/-- The cluster stands for the compositions of a whole region, with moments of its own. -/
def isGrouped (c : Cluster α) : Bool := c.kind == .grouped

/-- A cluster moves when it has a positive diffusion factor and a finite migration energy. -/
def isMobile [Scalar α] (c : Cluster α) : Bool :=
  decide (0 < c.properties.diffusionFactor) && c.properties.migrationEnergy.any Scalar.isFinite

/-- The number of compositions that the cluster stands for. -/
def volume (c : Cluster α) : Int := c.region.volume

/-- The slot of a basis function: `0` is the concentration, `a + 1` the moment on axis `a`. -/
def slot? (c : Cluster α) : Nat → Option Nat
  | 0 => some c.id
  | a + 1 => c.moments[a]?.join

/-- The basis functions that the cluster uses, with their slots. -/
def slots (c : Cluster α) : List (BasisIndex × Nat) :=
  basisIndices.filterMap fun k => (c.slot? k.val).map fun s => (k, s)

/-- The name in tables: the region of a grouped cluster, the composition of any other. -/
def name (c : Cluster α) : String :=
  if c.isGrouped then "Super" ++ c.region.text else c.composition.text

/-- The numbers in the name are machine words. -/
def nameFits (c : Cluster α) : Bool :=
  if c.isGrouped then c.region.textFits else c.composition.totalFits

end Cluster
end ClusterDynamics
