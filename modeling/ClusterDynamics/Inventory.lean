import ClusterDynamics.Flux

/-! What a state holds: defects per axis, clusters in total, and the size of the network itself. -/

namespace ClusterDynamics

/-- Size and shape of a network. -/
structure NetworkStats where
  material : String
  singles : Nat
  mixed : Nat
  supers : Nat
  dof : Nat
  productions : Nat
  dissociations : Nat
  nonzeros : Nat
  /-- Compositions that all clusters stand for together. -/
  represented : Int
  /-- Compositions of the largest cluster. -/
  largestGroup : Int
deriving DecidableEq, Repr

namespace Network

variable {α : Type}

/-- How many compositions each cluster represents. -/
def volumes (n : Network α) : List Int := n.clusters.toList.map Cluster.volume

/-- The number of compositions that all clusters stand for together. -/
def representedVolume (n : Network α) : Int := n.volumes.foldl (· + ·) 0

/-- The summary of a network. -/
def stats (n : Network α) : NetworkStats where
  material := n.material.name
  singles := n.countKind .single
  mixed := n.countKind .mixed
  supers := n.countKind .grouped
  dof := n.dof
  productions := n.productionCount
  dissociations := n.dissociationCount
  nonzeros := n.sparsity.size
  represented := n.representedVolume
  largestGroup := n.volumes.max?.getD 0

/-- The sum of all volumes is a machine word; partial sums of positive numbers only grow. -/
def statsFit (n : Network α) : Bool := fits n.representedVolume

variable [Scalar α]

/-- What a cluster adds to the content along an axis. -/
def addContent (state : Array α) (a : Direction) (total : α) (c : Cluster α) : α :=
  let total := total + Moment.volume c.region * Moment.center c.region a * State.value state c.id
  match c.moments.get a with
  | some slot =>
    total + Moment.halfWidth c.region a * Moment.norm c.region a * State.value state slot
  | none => total

/-- The signed number of defects that a state holds along each axis. The mean and the first moment of a
    grouped cluster determine it exactly. Applied to a flux it is the rate at which the content
    changes. -/
def content (n : Network α) (state : Array α) : Except (NetworkFault α) (Vector α maxAxes) :=
  if state.size ≠ n.dof then .error (.dimension .state n.dof state.size)
  else .ok (Vector.ofFn fun a => n.clusters.foldl (addContent state a) 0)

/-- The rate of change of the content at a state. -/
def contentRate (n : Network α) (k : RateConstants α) (state : Array α) :
    Except (NetworkFault α) (Vector α maxAxes) := do
  let flux ← (n.addFluxes k state (State.zeros n.dof)).mapError (·.fault)
  n.content flux

/-- The number density of all clusters together; slots that a state lacks count as zero. -/
def totalConcentration (n : Network α) (state : Array α) : α :=
  n.clusters.foldl (fun t c => t + Moment.volume c.region * State.value state c.id) 0

end Network
end ClusterDynamics
