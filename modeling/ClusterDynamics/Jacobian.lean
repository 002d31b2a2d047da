import ClusterDynamics.Flux

/-! The partial derivatives of the flux. Each record contributes the derivatives of exactly its own
    term, as a list of entries; entries at the same place are summed. Every entry of the network's
    sparsity pattern is listed at least once, if only as a zero. -/

namespace ClusterDynamics

/-- A contribution to the derivative of slot `row` by slot `column`. -/
structure Partial (α : Type) where
  row : Nat
  column : Nat
  value : α
deriving Repr

namespace Network

variable {α : Type} [Scalar α]

/-- The derivatives of a cluster's rows by the slots of another cluster, with one coefficient per row
    and basis function. -/
def blockPartials (c other : Cluster α) (f : BasisIndex → BasisIndex → α) : List (Partial α) :=
  c.slots.flatMap fun row => other.slots.map fun column => ⟨row.2, column.2, f row.1 column.1⟩

/-- The block of a cluster's own slots, which every row touches. -/
def ownPartials (c : Cluster α) : List (Partial α) := blockPartials c c fun _ _ => 0

/-- The derivatives of a product of a single concentration and the moments of another cluster: per row
    first by the concentration, then by the moments. -/
def productPartials (c : Cluster α) (single : Nat) (moments : Cluster α) (bySingle : BasisIndex → α)
    (byMoment : BasisIndex → BasisIndex → α) : List (Partial α) :=
  c.slots.flatMap fun row =>
    ⟨row.2, single, bySingle row.1⟩ ::
      moments.slots.map fun column => ⟨row.2, column.2, byMoment row.1 column.1⟩

/-- Derivatives of a production record by the moments of its first member and by its second member. -/
def productionPartials (n : Network α) (k : RateConstants α) (state : Array α) (c : Cluster α)
    (r : Record Couple α) : List (Partial α) :=
  let rate := k.rate r.reaction
  let cs := State.value state r.participants.second
  let lg := r.coefs.mulVec (n.gather state r.participants.first)
  match n.clusters[r.participants.first]? with
  | none => []
  | some first =>
    productPartials c r.participants.second first (fun row => rate * lg.get row)
      fun row j => rate * cs * r.coefs.entry row j

/-- Derivatives of a combination record by the moments of one operand and by the other operand. -/
def combinationPartials (n : Network α) (k : RateConstants α) (state : Array α) (c : Cluster α)
    (r : Record Nat α) : List (Partial α) :=
  let rate := k.rate r.reaction
  let (grouped, other) := n.combinationOperands c r.participants
  let co := State.value state other.id
  let lg := r.coefs.mulVec (State.gather state grouped)
  productPartials c other.id grouped (fun row => -rate * lg.get row)
    fun row j => -rate * co * r.coefs.entry row j

/-- Derivatives of a dissociation record by the moments of the parent. -/
def dissociationPartials (n : Network α) (k : RateConstants α) (c : Cluster α)
    (r : Record Nat α) : List (Partial α) :=
  match n.clusters[r.participants]? with
  | none => []
  | some parent => blockPartials c parent fun row j => k.rate r.reaction * r.coefs.entry row j

/-- Derivatives of an emission record by the moments of the cluster itself. -/
def emissionPartials (k : RateConstants α) (c : Cluster α) (r : Record Couple α) :
    List (Partial α) :=
  blockPartials c c fun row j => -k.rate r.reaction * r.coefs.entry row j

/-- Derivatives of the sink, one on the diagonal for each slot of the cluster. -/
def sinkPartials (n : Network α) (k : RateConstants α) (c : Cluster α) : List (Partial α) :=
  if 0 < n.sinkOf c.id then
    let loss := n.sinkOf c.id * (k.diffusion? c.id).getD 0
    c.slots.map fun row => ⟨row.2, row.2, -loss⟩
  else []

/-- The contributions of a cluster's records to its rows. -/
def recordPartials (n : Network α) (k : RateConstants α) (state : Array α) (c : Cluster α) :
    List (Partial α) :=
  let links := n.linksOf c.id
  ownPartials c ++ links.production.flatMap (n.productionPartials k state c) ++
    links.combining.flatMap (n.combinationPartials k state c) ++
    links.dissociating.flatMap (n.dissociationPartials k c) ++
    links.emission.flatMap (emissionPartials k c)

/-- All contributions to the rows of a cluster. -/
def clusterPartials (n : Network α) (k : RateConstants α) (state : Array α) (c : Cluster α) :
    List (Partial α) :=
  n.recordPartials k state c ++ n.sinkPartials k c

/-! ### Visits -/

/-- Visits the contributions to the rows of a cluster, with what the visitor keeps in `s`. The diffusion
    coefficient is asked for after the records have been visited. -/
def visitCluster {σ : Type} (n : Network α) (k : RateConstants α) (state : Array α)
    (visit : σ → Partial α → σ) (s : σ) (c : Cluster α) : Except (Failure α σ) σ := do
  let s := (n.recordPartials k state c).foldl visit s
  Failure.leaving s (n.checkDiffusion k c)
  return (n.sinkPartials k c).foldl visit s

/-- Visits every contribution to the Jacobian. -/
def visitPartials {σ : Type} (n : Network α) (k : RateConstants α) (state : Array α)
    (visit : σ → Partial α → σ) (s : σ) : Except (Failure α σ) σ := do
  Failure.leaving s (n.checkInputs k state)
  n.clusters.foldlM (n.visitCluster k state visit) s

/-- The contributions in the order of the visits. -/
def partials (n : Network α) (k : RateConstants α) (state : Array α) :
    Except (Failure α (Array (Partial α))) (List (Partial α)) := do
  return (← n.visitPartials k state Array.push #[]).toList

/-- Adds a contribution to the values of a pattern; a place outside the pattern takes none. -/
def addPartial (pattern : SparsityPattern) (values : Array α) (x : Partial α) : Array α :=
  match pattern.position? x.row x.column with
  | some i => values.modify i (· + x.value)
  | none => values

/-- Adds the Jacobian to values that are stored in the order of the network's pattern. -/
def addJacobian (n : Network α) (k : RateConstants α) (state values : Array α) :
    Except (Failure α (Array α)) (Array α) := do
  Failure.leaving values (checkSize .jacobianValues n.sparsity.size values.size)
  n.visitPartials k state (addPartial n.sparsity) values

end Network
end ClusterDynamics
