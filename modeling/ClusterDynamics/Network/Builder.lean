import ClusterDynamics.Material.Choice
import ClusterDynamics.Network

/-! Building a network: seeds are collected one by one, each composition at most once, and only the
    finished collection is numbered and connected. -/

namespace ClusterDynamics

/-- The seeds that have been collected for a network. -/
structure Builder (α : Type) where
  params : NetworkParams α
  material : Material α
  seeds : Array (ClusterSeed α)

namespace Builder

variable {α : Type}

/-- A builder without seeds, for a material of the caller's choice. -/
def withMaterial (params : NetworkParams α) (material : Material α) : Builder α :=
  ⟨params, material, #[]⟩

/-- An empty builder for the configured material. -/
def ofParams [Analytic α] (params : NetworkParams α) : Except (NetworkFault α) (Builder α) :=
  match params.chooseMaterial with
  | .ok material => .ok (withMaterial params material)
  | .error cause => .error (.config cause)

/-- A collected seed stands for exactly this composition. -/
def ownsUnit (b : Builder α) (c : Composition) : Bool :=
  b.seeds.any fun s => s.region.isUnit && s.composition == c

/-- The reason why a seed cannot be added, in the order in which reasons are looked for. -/
def check (b : Builder α) (s : ClusterSeed α) : Except (NetworkFault α) Unit := do
  NetworkFault.require s.region.isEmptyFits
  if s.region.isEmpty then throw (.placementFault (.emptyRegion s.region s.composition))
  let p ← b.material.space.locatePoint s.composition
  NetworkFault.require s.region.isUnitFits
  if s.region.isUnit then
    if p ≠ s.region.lo then throw (.placementFault (.misplaced s.composition s.region))
    if b.ownsUnit s.composition then
      throw (.ownershipFault (.composition s.composition s.region))

/-- Adds one seed. A second cluster at an owned composition is refused. -/
def add (b : Builder α) (s : ClusterSeed α) : Except (NetworkFault α) (Builder α) := do
  b.check s
  return { b with seeds := b.seeds.push s }

/-- Adds seeds up to the first one that is refused. -/
def addAll (b : Builder α) : List (ClusterSeed α) → Builder α × Except (NetworkFault α) Unit
  | [] => (b, .ok ())
  | s :: rest =>
    match b.add s with
    | .ok b => b.addAll rest
    | .error fault => (b, .error fault)

/-- Adds the seeds of all regions that the material admits. -/
def generate [Scalar α] (b : Builder α) : Builder α × Except (NetworkFault α) Partition :=
  match b.material.generate with
  | .error fault => (b, .error fault)
  | .ok (seeds, partition) =>
    match b.addAll seeds with
    | (b, .ok ()) => (b, .ok partition)
    | (b, .error fault) => (b, .error fault)

/-- Numbers the seeds and builds every reaction. -/
def finish [Scalar α] (b : Builder α) : Except (NetworkFault α) (Network α) := do
  if b.seeds.isEmpty then throw (.noClusters b.material.name)
  let population ← Population.ofSeeds b.seeds.toList
  let plan := ReactionPlan.ofPopulation b.material population
  NetworkFault.require (plan.rangeFits b.material population)
  return .assemble b.params b.material population plan

end Builder

/-- The network of all clusters that the configured material admits. -/
def Network.ofParams {α : Type} [Analytic α] (params : NetworkParams α) :
    Except (NetworkFault α) (Network α) := do
  let builder ← Builder.ofParams params
  let (builder, generated) := builder.generate
  let _ ← generated
  builder.finish

end ClusterDynamics
