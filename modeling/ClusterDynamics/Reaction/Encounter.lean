import ClusterDynamics.Population
import ClusterDynamics.Reaction

/-! Encounters: which clusters meet, and what they make. Of the two clusters at most one is grouped, so
    the other one sits at a single point `s` and the products of a composition `x` lie at `x + s`. The
    compositions of the grouped operand fall into pieces by the cluster that owns `x + s`; a piece
    without an owner is a recombination at the origin. -/

namespace ClusterDynamics

/-- The compositions of the first operand whose products go to one cluster. -/
structure Piece where
  /-- `none` when the defects annihilate and nothing is left. -/
  product : Option Nat
  box : Region
deriving Repr, DecidableEq, Inhabited

/-- Two clusters that can meet, with the pieces of the first one that react. -/
structure Encounter where
  first : Nat
  second : Nat
  /-- The point of the second operand. -/
  shift : Point
  pieces : List Piece
deriving Repr, DecidableEq, Inhabited

namespace Encounter

/-- The encounter involves both of the given clusters. -/
def joins (e : Encounter) (a b : Nat) : Bool :=
  (e.first == a && e.second == b) || (e.first == b && e.second == a)

/-- The operands of a pair: the grouped cluster first, else the one with the lower number. Two grouped
    clusters do not meet. -/
def operands {α : Type} (a b : Cluster α) : Option (Cluster α × Cluster α) :=
  if a.isGrouped && b.isGrouped then none
  else if a.isGrouped then some (a, b)
  else if b.isGrouped then some (b, a)
  else if a.id ≤ b.id then some (a, b)
  else some (b, a)

/-- The piece that annihilates, if the products reach the origin. -/
def recombination (target : Region) (shift : Point) : List Piece :=
  if target.contains Point.origin then [⟨none, Region.unit shift.neg⟩] else []

/-- The pieces whose products the given clusters own. -/
def owned {α : Type} (p : Population α) (g : Region) (shift : Point) (owners : List Nat) :
    List Piece :=
  owners.filterMap fun id => do
    let r ← p.region? id
    let q ← g.intersection? (r.shifted shift.neg)
    return ⟨some id, q⟩

/-- The encounter of a pair of operands. -/
def ofOperands {α : Type} (p : Population α) (g s : Cluster α) : Encounter :=
  let shift := s.region.lo
  let target := g.region.shifted shift
  ⟨g.id, s.id, shift,
    recombination target shift ++ owned p g.region shift (p.tree.query target)⟩

/-- The pair is looked at from the mobile cluster `m`: of two mobile clusters only from the one with the
    lower number. -/
def facing {α : Type} [Scalar α] (m c : Cluster α) : Bool := !(c.isMobile && decide (c.id < m.id))

/-- The encounters of a mobile cluster with every partner. -/
def ofMobile {α : Type} [Scalar α] (p : Population α) (m : Cluster α) : List Encounter :=
  (p.clusters.toList.filter (facing m)).filterMap fun c =>
    (operands m c).map fun o => ofOperands p o.1 o.2

/-- Every pair of clusters of which one moves, once. -/
def all {α : Type} [Scalar α] (p : Population α) : List Encounter :=
  (p.clusters.toList.filter (·.isMobile)).flatMap (ofMobile p)

/-! ### Range -/

/-- The boxes and coefficients of an encounter are made of machine words. -/
def rangeFits {α : Type} [Scalar α] (p : Population α) (e : Encounter) : Bool :=
  match p.region? e.first, p.region? e.second with
  | some g, some s =>
    e.shift.negFits && g.shiftFits e.shift &&
      (!(g.shifted e.shift).contains Point.origin || Region.unitFits e.shift.neg) &&
      e.pieces.all fun piece =>
        Moment.coefficientsFit α g Point.origin g piece.box &&
          Moment.coefficientsFit α s Point.origin g piece.box &&
          piece.product.all fun id =>
            (p.region? id).all fun r =>
              r.shiftFits e.shift.neg && Moment.coefficientsFit α r e.shift g piece.box
  | _, _ => true

end Encounter
end ClusterDynamics
