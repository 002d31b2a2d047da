import ClusterDynamics.Codec
import ClusterDynamics.Network.Builder

/-! Snapshots: the clusters of a network as flat records, from which the network can be built again.
    The records hold the physics of the clusters; reactions and coefficients follow from them, so they
    are not stored. -/

namespace ClusterDynamics

/-- One cluster of a snapshot. The corners have one entry per axis of the phase space. -/
structure ClusterRecord (α : Type) where
  id : Nat
  kind : ClusterKind
  lo : List Int
  hi : List Int
  composition : Composition
  formationEnergy : α
  /-- `none` for clusters that never move. -/
  migrationEnergy : Option α
  diffusionFactor : α
  reactionRadius : α
deriving Repr, DecidableEq, BEq

/-- What is kept of a network: its parameters, its size and a record of each cluster. -/
structure NetworkSnapshot (α : Type) where
  params : NetworkParams α
  dof : Nat
  clusters : List (ClusterRecord α)
deriving Repr, DecidableEq, BEq

/-! ### Taking a snapshot -/

/-- The record of a cluster in a phase space of `dim` axes. -/
def ClusterRecord.ofCluster {α : Type} [Scalar α] (dim : Nat) (c : Cluster α) : ClusterRecord α :=
  { id := c.id
    kind := c.kind
    lo := c.region.lo.toList.take dim
    hi := c.region.hi.toList.take dim
    composition := c.composition
    formationEnergy := c.properties.formationEnergy
    migrationEnergy := c.properties.migrationEnergy.filter Scalar.isFinite
    diffusionFactor := c.properties.diffusionFactor
    reactionRadius := c.properties.reactionRadius }

/-- The snapshot of a network, with its clusters in order. -/
def Network.snapshot {α : Type} [Scalar α] (n : Network α) : NetworkSnapshot α :=
  ⟨n.params, n.dof, n.clusters.toList.map (ClusterRecord.ofCluster n.material.space.dim)⟩

/-! ### Restoring a network -/

namespace ClusterRecord

variable {α : Type}

/-- The region between the stored corners, with `0` on the axes beyond. -/
def region (r : ClusterRecord α) (dim : Nat) : Except (NetworkFault α) Region :=
  if r.lo.length ≠ dim ∨ r.hi.length ≠ dim then
    .error (.dimension .recordBounds dim (max r.lo.length r.hi.length))
  else
    .ok { lo := Vector.ofFn fun a => (r.lo[a.val]?).getD 0
          hi := Vector.ofFn fun a => (r.hi[a.val]?).getD 1 }

/-- The seed that the record describes. -/
def seed (r : ClusterRecord α) (dim : Nat) : Except (NetworkFault α) (ClusterSeed α) := do
  let region ← r.region dim
  return ⟨region, r.composition,
    ⟨r.formationEnergy, r.migrationEnergy, r.diffusionFactor, r.reactionRadius⟩⟩

end ClusterRecord

namespace NetworkSnapshot

variable {α : Type}

/-- The records in the order of their numbers. -/
def ordered (s : NetworkSnapshot α) : List (ClusterRecord α) :=
  s.clusters.mergeSort fun r t => decide (r.id ≤ t.id)

/-- Adds the seeds of records one by one. -/
def addRecords (dim : Nat) : List (ClusterRecord α) → Builder α → Except (NetworkFault α) (Builder α)
  | [], b => .ok b
  | r :: rest, b => do
    let seed ← r.seed dim
    let b ← b.add seed
    addRecords dim rest b

/-- The first record that came back under another number or as another kind. -/
def checkRecords : List (ClusterRecord α) → List (Cluster α) → Except (NetworkFault α) Unit
  | r :: rest, c :: clusters =>
    if r.id ≠ c.id ∨ r.kind ≠ c.kind then .error (.recordFault r.id r.composition c.id c.kind)
    else checkRecords rest clusters
  | _, _ => .ok ()

/-- Builds the network again. The records must reproduce the stored number of slots, their own numbers
    and their kinds. -/
def restore [Analytic α] (s : NetworkSnapshot α) : Except (NetworkFault α) (Network α) := do
  let empty ← Builder.ofParams s.params
  let builder ← addRecords empty.material.space.dim s.ordered empty
  let n ← builder.finish
  if n.dof ≠ s.dof then throw (.dimension .restoredDegrees s.dof n.dof)
  checkRecords s.ordered n.clusters.toList
  return n

end NetworkSnapshot

/-! ### Written form -/

section

variable {α : Type} [Scalar α] [ScalarText α]

/-- A record is written with every field; null stands for no migration energy. -/
def ClusterRecord.toJson (r : ClusterRecord α) : Json :=
  .record [("id", .nat r.id), ("kind", r.kind.toJson), ("lo", Json.ofList Json.int r.lo),
    ("hi", Json.ofList Json.int r.hi), ("composition", r.composition.toJson),
    ("formation_energy", Json.ofScalar r.formationEnergy),
    ("migration_energy", Json.ofOption Json.ofScalar r.migrationEnergy),
    ("diffusion_factor", Json.ofScalar r.diffusionFactor),
    ("reaction_radius", Json.ofScalar r.reactionRadius)]

/-- The record that a value describes. -/
def ClusterRecord.ofJson? (j : Json) : Option (ClusterRecord α) := do
  let f ← Json.Fields.of? ["id", "kind", "lo", "hi", "composition", "formation_energy",
    "migration_energy", "diffusion_factor", "reaction_radius"] j
  return {
    id := ← f.required "id" Json.size?
    kind := ← f.required "kind" ClusterKind.ofJson?
    lo := ← f.required "lo" (Json.list? Json.coordinate?)
    hi := ← f.required "hi" (Json.list? Json.coordinate?)
    composition := ← f.required "composition" Composition.ofJson?
    formationEnergy := ← f.required "formation_energy" Json.scalar?
    migrationEnergy := ← f.optional "migration_energy" Json.scalar?
    diffusionFactor := ← f.required "diffusion_factor" Json.scalar?
    reactionRadius := ← f.required "reaction_radius" Json.scalar? }

/-- A snapshot is written with every field. -/
def NetworkSnapshot.toJson (s : NetworkSnapshot α) : Json :=
  .record [("params", s.params.toJson), ("dof", .nat s.dof),
    ("clusters", Json.ofList ClusterRecord.toJson s.clusters)]

/-- The snapshot that a value describes. -/
def NetworkSnapshot.ofJson? (j : Json) : Option (NetworkSnapshot α) := do
  let f ← Json.Fields.of? ["params", "dof", "clusters"] j
  return ⟨← f.required "params" NetworkParams.ofJson?, ← f.required "dof" Json.size?,
    ← f.required "clusters" (Json.list? ClusterRecord.ofJson?)⟩

/-- The text of a snapshot file. -/
def NetworkSnapshot.fileText (s : NetworkSnapshot α) : String := s.toJson.pretty

/-- The snapshot that a text holds. -/
def NetworkSnapshot.ofText? (s : String) : Option (NetworkSnapshot α) :=
  (Json.ofString? s).bind NetworkSnapshot.ofJson?

end

end ClusterDynamics
