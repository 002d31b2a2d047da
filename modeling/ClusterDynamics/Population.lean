import ClusterDynamics.Moment.Basis
import ClusterDynamics.Partition
import ClusterDynamics.RegionTree

/-! The numbered clusters of a network. Clusters of one composition come first, in the order of their
    seeds, then the grouped ones; behind the concentrations follow the moment slots of the grouped
    clusters, one per grouped axis. -/

namespace ClusterDynamics

/-- Clusters in the order of their numbers, with the spatial index over their regions. -/
structure Population (α : Type) where
  clusters : Array (Cluster α)
  tree : RegionTree
  /-- The number of state slots. -/
  dof : Nat

namespace ClusterSeed

variable {α : Type}

/-- The kind of the cluster that grows from a seed. -/
def kind (s : ClusterSeed α) : ClusterKind :=
  if !s.region.isUnit then .grouped else if s.composition.isMixed then .mixed else .single

/-- The slots of the moments when `next` is the first free slot. -/
def momentSlots (s : ClusterSeed α) (next : Nat) : MomentSlots :=
  Vector.ofFn fun a =>
    if 1 < s.region.width a then
      some (next + (s.region.groupedAxes.filter fun b => b < a).length)
    else none

/-- The cluster of a seed under a number, with moments in the slots from `next` on. -/
def toCluster (s : ClusterSeed α) (id next : Nat) : Cluster α :=
  ⟨id, s.kind, s.region, s.composition, s.properties, s.momentSlots next⟩

/-- The cluster of a seed and its slots are laid out with machine words. -/
def layoutFits (s : ClusterSeed α) : Bool :=
  s.region.isUnitFits && Moment.basisFits s.region

end ClusterSeed

namespace Population

variable {α : Type}

/-- Seeds in the order in which they are numbered: unit regions first. -/
def numbering (seeds : List (ClusterSeed α)) : List (ClusterSeed α) :=
  seeds.filter (·.region.isUnit) ++ seeds.filter fun s => !s.region.isUnit

/-- Clusters with numbers from `id` and moment slots from `next`. -/
def assign : Nat → Nat → List (ClusterSeed α) → List (Cluster α)
  | _, _, [] => []
  | id, next, s :: rest =>
    s.toCluster id next :: assign (id + 1) (next + s.region.groupedAxes.length) rest

/-- The clusters that grow from a list of seeds. -/
def clustersOf (seeds : List (ClusterSeed α)) : List (Cluster α) :=
  assign 0 seeds.length (numbering seeds)

/-- One slot per cluster and one per grouped axis. -/
def dofOf (seeds : List (ClusterSeed α)) : Nat :=
  seeds.foldl (fun n s => n + s.region.groupedAxes.length) seeds.length

/-- The regions of clusters with their numbers. -/
def entriesOf (clusters : List (Cluster α)) : List Entry := clusters.map fun c => ⟨c.region, c.id⟩

/-- The population of a list of seeds, unless two of them share a point. -/
def ofSeeds (seeds : List (ClusterSeed α)) : Except (NetworkFault α) (Population α) := do
  NetworkFault.require (seeds.all (·.layoutFits))
  let clusters := clustersOf seeds
  match RegionTree.build (entriesOf clusters) with
  | .ok tree => .ok ⟨clusters.toArray, tree, dofOf seeds⟩
  | .error fault => .error (.ofTree fault)

/-- The region of a numbered cluster. -/
def region? (p : Population α) (id : Nat) : Option Region := p.clusters[id]?.map (·.region)

/-- The cluster of exactly one composition. -/
def findUnit? (p : Population α) (c : Composition) : Option (Cluster α) :=
  p.clusters.find? fun k => !k.isGrouped && k.composition == c

/-- The cluster whose region holds a point. -/
def findPoint? (p : Population α) (x : Point) : Option (Cluster α) :=
  (p.tree.find? x).bind fun id => p.clusters[id]?

end Population
end ClusterDynamics
