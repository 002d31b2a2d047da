import ClusterDynamics.Rates

/-! The net rate of change of every state slot. Row `k` of a cluster's records contributes

    * production: `K c_second (coefs L_first)_k`,
    * combination: `-K c_other (coefs L_grouped)_k`,
    * dissociation: `K (coefs L_parent)_k`,
    * emission: `-K (coefs L_self)_k`,
    * sink: `-s D L_self,k`. -/

namespace ClusterDynamics

/-- The five contributions to the rows of one cluster. -/
structure FluxTerms (α : Type) where
  production : MomentVector α
  combination : MomentVector α
  dissociation : MomentVector α
  emission : MomentVector α
  sink : MomentVector α
deriving Repr

/-- Their sum, in this order. -/
def FluxTerms.total {α : Type} [Scalar α] (t : FluxTerms α) : MomentVector α :=
  (((t.production.add t.combination).add t.dissociation).add t.emission).add t.sink

/-- The flux of every slot, split by mechanism and signed as it enters the total. -/
structure FluxBreakdown (α : Type) where
  production : Array α
  combination : Array α
  dissociation : Array α
  emission : Array α
  sink : Array α
deriving Repr

namespace FluxBreakdown

variable {α : Type}

/-- The five parts, in the order in which they are summed. -/
def parts (b : FluxBreakdown α) : List (Array α) :=
  [b.production, b.combination, b.dissociation, b.emission, b.sink]

/-- Each part after an update by the contribution of its mechanism. -/
def zipTerms (b : FluxBreakdown α) (t : FluxTerms α) (f : MomentVector α → Array α → Array α) :
    FluxBreakdown α :=
  ⟨f t.production b.production, f t.combination b.combination, f t.dissociation b.dissociation,
    f t.emission b.emission, f t.sink b.sink⟩

variable [Scalar α]

/-- The sum of the five parts, slot by slot. -/
def total (b : FluxBreakdown α) : Array α :=
  Array.ofFn fun i : Fin b.production.size =>
    b.production.getD i 0 + b.combination.getD i 0 + b.dissociation.getD i 0 + b.emission.getD i 0
      + b.sink.getD i 0

end FluxBreakdown

/-! ### State vectors -/

namespace State

variable {α : Type} [Scalar α]

/-- A vector of zeros. -/
def zeros (n : Nat) : Array α := Array.replicate n 0

/-- The value of a slot; zero outside the vector. -/
def value (state : Array α) (slot : Nat) : α := state.getD slot 0

/-- The moments of one cluster; those that it does not carry are zero. -/
def gather (state : Array α) (c : Cluster α) : MomentVector α :=
  Vector.ofFn fun k =>
    match c.slot? k.val with
    | some slot => value state slot
    | none => 0

/-- The slots of a cluster with the values of its rows. -/
def scattered (c : Cluster α) (v : MomentVector α) : List (Nat × α) :=
  c.slots.map fun s => (s.2, v.get s.1)

/-- Adds values to their slots, one after the other. -/
def addAll (state : Array α) (values : List (Nat × α)) : Array α :=
  values.foldl (fun s x => s.modify x.1 (· + x.2)) state

/-- Stores values in their slots, one after the other. -/
def putAll (state : Array α) (values : List (Nat × α)) : Array α :=
  values.foldl (fun s x => s.setIfInBounds x.1 x.2) state

end State

namespace Network

variable {α : Type} [Scalar α]

/-- The moments of a cluster given by its number. -/
def gather (n : Network α) (state : Array α) (id : Nat) : MomentVector α :=
  match n.clusters[id]? with
  | some c => State.gather state c
  | none => .zero

/-- The loss coefficient of a cluster. -/
def sinkOf (n : Network α) (id : Nat) : α := n.sinks.getD id 0

/-! ### The five mechanisms -/

/-- Gains of a cluster from the pairs that merge into it. -/
def productionTerm (n : Network α) (k : RateConstants α) (state : Array α) (links : Links α) :
    MomentVector α :=
  links.production.foldl (fun t r =>
    t.add ((r.coefs.mulVec (n.gather state r.participants.first)).scale
      (k.rate r.reaction * State.value state r.participants.second))) .zero

/-- The partner of a combination, as the pair of the operand with moments and the other one. -/
def combinationOperands (n : Network α) (c : Cluster α) (partner : Nat) : Cluster α × Cluster α :=
  groupedFirst c (n.clusters.getD partner c)

/-- Losses of a cluster to the partners it merges with. -/
def combinationTerm (n : Network α) (k : RateConstants α) (state : Array α) (c : Cluster α)
    (links : Links α) : MomentVector α :=
  links.combining.foldl (fun t r =>
    let (grouped, other) := n.combinationOperands c r.participants
    t.sub ((r.coefs.mulVec (State.gather state grouped)).scale
      (k.rate r.reaction * State.value state other.id))) .zero

/-- Gains of a cluster from the parents that shed it or leave it behind. -/
def dissociationTerm (n : Network α) (k : RateConstants α) (state : Array α) (links : Links α) :
    MomentVector α :=
  links.dissociating.foldl (fun t r =>
    t.add ((r.coefs.mulVec (n.gather state r.participants)).scale (k.rate r.reaction))) .zero

/-- Losses of a cluster by its own dissociations. -/
def emissionTerm (k : RateConstants α) (state : Array α) (c : Cluster α) (links : Links α) :
    MomentVector α :=
  links.emission.foldl (fun t r =>
    t.sub ((r.coefs.mulVec (State.gather state c)).scale (k.rate r.reaction))) .zero

/-- Losses of a cluster to the sinks of the material; nothing where it has none. -/
def sinkTerm (n : Network α) (k : RateConstants α) (state : Array α) (c : Cluster α) :
    MomentVector α :=
  if 0 < n.sinkOf c.id then
    MomentVector.zero.sub
      ((State.gather state c).scale (n.sinkOf c.id * (k.diffusion? c.id).getD 0))
  else .zero

/-- The contributions to the rows of a cluster. -/
def terms (n : Network α) (k : RateConstants α) (state : Array α) (c : Cluster α) : FluxTerms α :=
  let links := n.linksOf c.id
  { production := n.productionTerm k state links
    combination := n.combinationTerm k state c links
    dissociation := n.dissociationTerm k state links
    emission := emissionTerm k state c links
    sink := n.sinkTerm k state c }

/-! ### Checks -/

/-- A length has to match. -/
def checkSize (what : Quantity) (expected actual : Nat) : Except (NetworkFault α) Unit :=
  if actual = expected then .ok () else .error (.dimension what expected actual)

/-- The lengths of a state and of a set of rate constants match the network. How many clusters the
    constants know is not compared. -/
def checkInputs (n : Network α) (k : RateConstants α) (state : Array α) :
    Except (NetworkFault α) Unit := do
  checkSize .concentrations n.dof state.size
  checkSize .rateConstants n.reactions.size k.size

/-- A cluster with a sink that the constants know no diffusion coefficient of. -/
def lacks (n : Network α) (k : RateConstants α) (c : Cluster α) : Bool :=
  decide (0 < n.sinkOf c.id) && (k.diffusion? c.id).isNone

/-- The diffusion coefficient of a cluster is asked for only if the cluster has a sink. -/
def checkDiffusion (n : Network α) (k : RateConstants α) (c : Cluster α) :
    Except (NetworkFault α) Unit :=
  if n.lacks k c then .error (.outOfRange c.id k.diffusion.size) else .ok ()

/-! ### Flux -/

/-- Adds the rates of change of a cluster's slots to `out`. -/
def addCluster (n : Network α) (k : RateConstants α) (state out : Array α) (c : Cluster α) :
    Except (Failure α (Array α)) (Array α) := do
  Failure.leaving out (n.checkDiffusion k c)
  return State.addAll out (State.scattered c (n.terms k state c).total)

/-- Adds the rate of change of every slot to `out`. A cluster that the constants do not know stops the
    call after the clusters before it have been added. -/
def addFluxes (n : Network α) (k : RateConstants α) (state out : Array α) :
    Except (Failure α (Array α)) (Array α) := do
  Failure.leaving out do
    n.checkInputs k state
    checkSize .fluxOutput n.dof out.size
  n.clusters.foldlM (n.addCluster k state) out

/-- Stores the rates of change of a cluster's slots, split by mechanism. -/
def putCluster (n : Network α) (k : RateConstants α) (state : Array α) (b : FluxBreakdown α)
    (c : Cluster α) : Except (NetworkFault α) (FluxBreakdown α) := do
  n.checkDiffusion k c
  return b.zipTerms (n.terms k state c) fun v out => State.putAll out (State.scattered c v)

/-- The rate of change of every slot, split by mechanism. -/
def fluxBreakdown (n : Network α) (k : RateConstants α) (state : Array α) :
    Except (NetworkFault α) (FluxBreakdown α) := do
  n.checkInputs k state
  let zeros := State.zeros n.dof
  n.clusters.foldlM (n.putCluster k state) ⟨zeros, zeros, zeros, zeros, zeros⟩

end Network
end ClusterDynamics
