import ClusterDynamics.Reaction.Assembly
import ClusterDynamics.SparsityPattern

/-! A reaction network: the clusters of a material, the reactions between them and the structure of the
    Jacobian. A network never changes once it is built; rate constants are computed from it for each
    temperature. -/

namespace ClusterDynamics

/-- A population with its reactions, their records at each cluster, sinks and pattern. -/
structure Network (α : Type) extends Population α where
  params : NetworkParams α
  material : Material α
  reactions : Array (Reaction α)
  links : Array (Links α)
  /-- Loss coefficient of each cluster. -/
  sinks : Array α
  sparsity : SparsityPattern
  tally : ReactionTally

namespace Network

variable {α : Type}

/-- Of two partners, the one that carries moments and the other one. -/
def groupedFirst (this partner : Cluster α) : Cluster α × Cluster α :=
  if this.isGrouped then (this, partner) else (partner, this)

/-- The slots of a cluster, without the rows they belong to. -/
def slotsOf (c : Cluster α) : List Nat := c.slots.map (·.2)

/-- The slots that the rate of change of a cluster depends on, repeated ones included. -/
def influences (clusters : Array (Cluster α)) (this : Cluster α) (links : Links α) : List Nat :=
  let slots (id : Nat) : List Nat := (clusters[id]?.map slotsOf).getD []
  slotsOf this ++
    (links.production.flatMap fun r => r.participants.second :: slots r.participants.first) ++
    (links.combining.flatMap fun r =>
      match clusters[r.participants]? with
      | none => []
      | some partner =>
        let (grouped, other) := groupedFirst this partner
        other.id :: slotsOf grouped) ++
    links.dissociating.flatMap fun r => slots r.participants

/-- The columns of the rows of a cluster. -/
def connectivityOf (clusters : Array (Cluster α)) (this : Cluster α) (links : Links α) : List Nat :=
  SparsityPattern.normalize (influences clusters this links)

/-- The columns of every row: all rows of one cluster have the same ones. -/
def patternRows (clusters : Array (Cluster α)) (links : Array (Links α)) (dof : Nat) :
    Array (List Nat) :=
  clusters.foldl (fun rows c =>
    let columns := connectivityOf clusters c (links.getD c.id Links.none)
    c.slots.foldl (fun rows slot => rows.setIfInBounds slot.2 columns) rows)
    (Array.replicate dof [])

/-- The network of a population and its planned reactions. -/
def assemble [Scalar α] (params : NetworkParams α) (material : Material α) (p : Population α)
    (plan : ReactionPlan) : Network α :=
  let links := plan.links p
  { toPopulation := p
    params := params
    material := material
    reactions := (plan.reactions material).toArray
    links := links
    sinks := p.clusters.map fun c => material.sinkStrength c.composition
    sparsity := .ofRows (patternRows p.clusters links p.dof).toList
    tally := plan.tally }

/-- The cluster whose region holds a composition. -/
def findOwner? (n : Network α) (c : Composition) : Option (Cluster α) :=
  match n.material.space.toPoint c with
  | .ok x => n.findPoint? x
  | .error _ => none

/-- Looking up the owner of a composition stays within machine words. -/
def findOwnerFits (n : Network α) (c : Composition) : Bool :=
  match n.material.space.toPoint c with
  | .ok _ => true
  | .error fault => (PlacementFault.ofTracking c fault).nameable

/-- The records of a cluster; none for a number that no cluster has. -/
def linksOf (n : Network α) (id : Nat) : Links α := n.links.getD id Links.none

/-- The columns that the rows of a cluster touch. -/
def connectivity? (n : Network α) (id : Nat) : Option (List Nat) := n.sparsity.row? id

/-- How many reactions merge clusters. -/
def productionCount (n : Network α) : Nat := (n.reactions.filter Reaction.isProduction).size

/-- How many reactions split a cluster. -/
def dissociationCount (n : Network α) : Nat := n.reactions.size - n.productionCount

/-- The number of clusters of a kind. -/
def countKind (n : Network α) (kind : ClusterKind) : Nat :=
  (n.clusters.filter fun c => c.kind == kind).size

end Network
end ClusterDynamics
