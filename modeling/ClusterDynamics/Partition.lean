import ClusterDynamics.Material

/-! The partition of phase space into clusters. Beginning with the bounds of a material, a region that
    holds no admissible point is left out, one that its rule wants cut is cut, and any other is admitted
    when all of its points are admissible and dropped otherwise. Cutting always makes regions smaller,
    so the recursion ends. -/

namespace ClusterDynamics

/-- What becomes of a region that is not cut any further. -/
inductive Fate
  | pruned
  | admitted
  | dropped
deriving DecidableEq, Repr, Inhabited

/-- A region that is not cut any further. -/
structure Cell where
  region : Region
  fate : Fate
deriving DecidableEq, Repr, Inhabited

/-- The cells of a region in the order in which they are met, and the number of regions looked at. -/
structure Partition where
  visited : Nat
  cells : List Cell
deriving DecidableEq, Repr, Inhabited

/-- What the generator reports about a partition. -/
structure PartitionStats where
  visited : Nat
  admitted : Nat
  grouped : Nat
  droppedRegions : Nat
  droppedCompositions : Int
deriving DecidableEq, Repr, Inhabited

namespace Partition

/-- The partition of a region that is not cut. -/
def single (r : Region) (fate : Fate) : Partition := ⟨1, [⟨r, fate⟩]⟩

/-- The partition of a region whose children have the given partitions. -/
def join (parts : List Partition) : Partition :=
  ⟨parts.foldl (fun n p => n + p.visited) 1, parts.flatMap (·.cells)⟩

/-- The partition of a region; `none` when a number needed on the way is no machine word. -/
def ofRegion? (rule : PartitionRule) (r : Region) : Option Partition :=
  if !rule.countFits r then none
  else if !rule.intersects r then some (single r .pruned)
  else if !r.volumeFits then none
  else if _h : 1 < (r.bisect (rule.refine r)).length then
    ((r.bisect (rule.refine r)).attach.mapM fun c => ofRegion? rule c.val).map join
  else some (single r (if rule.selects r then .admitted else .dropped))
termination_by r.span
decreasing_by exact Region.span_lt_of_mem_bisect c.property (by assumption)

/-- The regions that met a given fate, in order. -/
def regions (p : Partition) (fate : Fate) : List Region :=
  (p.cells.filter fun c => c.fate == fate).map (·.region)

/-- What a partition adds up to. -/
def stats (p : Partition) : PartitionStats where
  visited := p.visited
  admitted := (p.regions .admitted).length
  grouped := ((p.regions .admitted).filter fun r => !r.isUnit).length
  droppedRegions := (p.regions .dropped).length
  droppedCompositions := (p.regions .dropped).foldl (fun n r => n + r.volume) 0

end Partition

namespace Material

variable {α : Type} [Scalar α]

/-- The physics of a region: a unit region has the values of its composition, any other is evaluated at
    its rounded centre and never moves. -/
def seedProperties (m : Material α) (r : Region) (c : Composition) : ClusterProperties α :=
  if r.isUnit then
    ⟨m.formationEnergy c, m.migrationEnergy c, m.diffusionFactor c, m.reactionRadius c⟩
  else .immobile (m.formationEnergy c) (m.reactionRadius c)

/-- The cluster that stands for a region. The axes must be able to express its anchor point. -/
def seedFor (m : Material α) (r : Region) : Except (NetworkFault α) (ClusterSeed α) := do
  NetworkFault.require r.anchorFits
  let c := m.space.toComposition r.anchor
  let _ ← m.space.locatePoint c
  NetworkFault.require (!r.isUnit || m.motionFits c)
  return ⟨r, c, m.seedProperties r c⟩

/-- The partition of a material's bounds; an overflow where a number on the way leaves its word. -/
def partition (m : Material α) : Except (NetworkFault α) Partition :=
  match Partition.ofRegion? m.rule m.rule.bounds with
  | some p => .ok p
  | none => .error .overflow

/-- The seeds of all admitted regions, with the partition that they come from. -/
def generate (m : Material α) : Except (NetworkFault α) (List (ClusterSeed α) × Partition) := do
  let p ← m.partition
  let seeds ← (p.regions .admitted).mapM m.seedFor
  return (seeds, p)

end Material
end ClusterDynamics
