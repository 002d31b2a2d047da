import ClusterDynamics.Reaction.Encounter

/-! Channels: which parents shed which monomers. A parent composition `x` that emits a monomer at `m`
    leaves the composition `x - m`; the parent's compositions fall into channels by the cluster that
    owns the remainder. A channel takes part only if an encounter of monomer and remainder undoes it. -/

namespace ClusterDynamics

/-- The compositions of a parent that shed a monomer and leave one and the same cluster. -/
structure Channel where
  parent : Nat
  monomer : Nat
  remainder : Nat
  /-- The point of the monomer. -/
  offset : Point
  box : Region
deriving Repr, DecidableEq, Inhabited

namespace Channel

variable {α : Type}

/-- The channels in which a parent sheds a monomer that sits at `m`. -/
def ofMonomer (p : Population α) (parent monomer : Cluster α) (m : Point) : List Channel :=
  (p.tree.query (parent.region.shifted m.neg)).filterMap fun id => do
    let r ← p.region? id
    let q ← parent.region.intersection? (r.shifted m)
    return ⟨parent.id, monomer.id, id, m, q⟩

/-- A monomer that the population holds as a cluster. -/
structure Emitter (α : Type) where
  composition : Composition
  cluster : Cluster α
  point : Point

/-- The monomers of a material that are clusters, in emission order. -/
def emitters (material : Material α) (p : Population α) : List (Emitter α) :=
  material.monomers.filterMap fun c => do
    let k ← p.findUnit? c
    match material.space.toPoint c with
    | .ok m => some ⟨c, k, m⟩
    | .error _ => none

/-- The parent sheds the monomer. No cluster sheds itself. -/
def sheds (material : Material α) (parent : Cluster α) (e : Emitter α) : Bool :=
  e.cluster.id != parent.id && material.canEmit parent.composition e.composition

/-- The ways in which a parent can shed one of the available monomers. -/
def ofParent (material : Material α) (p : Population α) (available : List (Emitter α))
    (parent : Cluster α) : List Channel :=
  (available.filter (sheds material parent)).flatMap fun e =>
    ofMonomer p parent e.cluster e.point

/-- The channels of all parents, whether or not anything undoes them. -/
def all (material : Material α) (p : Population α) : List Channel :=
  p.clusters.toList.flatMap (ofParent material p (emitters material p))

/-- The number of times that a parent asks for a monomer which is no cluster. -/
def absentMonomers (material : Material α) (p : Population α) : Nat :=
  p.clusters.size * (material.monomers.filter fun c => (p.findUnit? c).isNone).length

/-- The binding energy at the centre of the box. -/
def bindingEnergy [Scalar α] (material : Material α) (c : Channel) : α :=
  let parent := c.box.representative
  material.bindingEnergy (material.space.toComposition parent)
    (material.space.toComposition c.offset)
    (material.space.toComposition (parent.add c.offset.neg))

/-! ### Range -/

/-- The emissions of a parent and the places of its remainders are found with machine words. -/
def emissionFits (material : Material α) (available : List (Emitter α)) (parent : Cluster α) :
    Bool :=
  available.all fun e =>
    e.cluster.id == parent.id ||
      (material.emissionFits parent.composition &&
        (!material.canEmit parent.composition e.composition ||
          (e.point.negFits && parent.region.shiftFits e.point.neg)))

/-- The emissions of all parents are found with machine words. -/
def allFit (material : Material α) (p : Population α) : Bool :=
  let available := emitters material p
  p.clusters.all (emissionFits material available)

/-- The box of a channel is found with machine words. -/
def boxFits (p : Population α) (c : Channel) : Bool :=
  (p.region? c.remainder).all fun r => r.shiftFits c.offset

/-- The centre and the coefficients of a channel are made of machine words. -/
def rangeFits [Scalar α] (p : Population α) (c : Channel) : Bool :=
  match p.region? c.parent, p.region? c.monomer, p.region? c.remainder with
  | some parent, some monomer, some remainder =>
    c.box.representativeFits &&
      (directions.all fun a => fits (c.box.representative.get a - c.offset.get a)) &&
      Moment.coefficientsFit α parent Point.origin parent c.box &&
      Moment.coefficientsFit α remainder c.offset.neg parent c.box &&
      Moment.coefficientsFit α monomer Point.origin parent c.box
  | _, _, _ => true

end Channel
end ClusterDynamics
