import ClusterDynamics.Fault
import ClusterDynamics.RateLaw

/-! What a material contributes: its axes, the rule by which phase space falls into clusters, and the
    physics of each composition. The generator, the reaction builder and the rate constants see a
    material only through this record. -/

namespace ClusterDynamics

/-- How a material's phase space falls into clusters. -/
structure PartitionRule where
  /-- A box around every composition that the material can admit. -/
  bounds : Region
  /-- The region holds at least one admissible point. -/
  intersects : Region → Bool
  /-- Every point of the region is admissible. -/
  selects : Region → Bool
  /-- The axes along which the region has to be cut before it can stand as a cluster. -/
  refine : Region → AxisMask
  /-- Counting the admissible points of the region stays within machine words. -/
  countFits : Region → Bool

/-- A material: energies in eV, lengths in nm, diffusion factors in nm^2/s. -/
structure Material (α : Type) where
  name : String
  space : PhaseSpace
  rule : PartitionRule
  formationEnergy : Composition → α
  migrationEnergy : Composition → Option α
  diffusionFactor : Composition → α
  reactionRadius : Composition → α
  /-- Capture radius that is added to every encounter. -/
  coreRadius : α
  atomicVolume : α
  /-- The defects that clusters emit, in the order in which emissions are listed. -/
  monomers : List Composition
  /-- A parent has a channel that emits the given monomer. -/
  canEmit : Composition → Composition → Bool
  /-- Loss coefficient `s` of the sink term `-s D c`. -/
  sinkStrength : Composition → α
  dissociation : Bool
  /-- The totals that mobility depends on are machine words. -/
  motionFits : Composition → Bool
  /-- The totals that emission depends on are machine words. -/
  emissionFits : Composition → Bool

namespace Material

variable {α : Type}

/-- The energy that binds a monomer to the remainder inside a parent. -/
def bindingEnergy [Scalar α] (m : Material α) (parent monomer remainder : Composition) : α :=
  m.formationEnergy monomer + m.formationEnergy remainder - m.formationEnergy parent

/-- Testing and refining a region that holds admissible points stays within machine words. -/
def refineFits (m : Material α) (r : Region) : Bool := m.rule.countFits r && r.volumeFits

end Material
end ClusterDynamics
