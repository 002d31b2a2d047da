import ClusterDynamics.Moment.Vector
import ClusterDynamics.Region.Range

/-! The moment basis of a region `X`. A cluster on `X` reconstructs the concentration of a composition
    `x` as `L_0 + sum_a L_(1+a) d_a(x)` with `d_a(x) = (x_a - center_a) / half_a`, which maps the axis
    onto `[-1, 1]`. A density on `X` is projected back with the dual weights `1 / |X|` and `d_a / S_a`,
    where `S_a` is the sum of `d_a ^ 2` over `X`. Only axes with more than one value carry a moment. -/

namespace ClusterDynamics
namespace Moment

variable {α : Type} [Scalar α]

/-- The number of points of a region, as a scalar. -/
def volume (r : Region) : α := Scalar.ofInt r.volume

/-- The mean coordinate along an axis. -/
def center (r : Region) (a : Direction) : α := Scalar.ofInt (r.twiceCenter a) * 0.5

/-- The axis carries a moment. -/
def isGrouped (r : Region) (a : Direction) : Bool := decide (1 < r.width a)

/-- Half the distance of the outermost coordinates; zero on an axis without a moment. -/
def halfWidth (r : Region) (a : Direction) : α :=
  if isGrouped r a then (Scalar.ofInt (r.width a) - 1) * 0.5 else 0

/-- The sum of the squares of `d_a` over the region, `|X| (W + 1) / (3 (W - 1))` for width `W`. -/
def norm (r : Region) (a : Direction) : α :=
  if isGrouped r a then
    volume r * (Scalar.ofInt (r.width a) + 1) / (3.0 * (Scalar.ofInt (r.width a) - 1))
  else 0

/-- The basis function belongs to the region's basis. -/
def uses (r : Region) (k : BasisIndex) : Bool :=
  match k.axis? with
  | none => true
  | some a => isGrouped r a

/-- The basis functions that a region has, in order. -/
def indices (r : Region) : List BasisIndex := basisIndices.filter (uses r)

/-- The value of a basis function at a point. -/
def phi (r : Region) (k : BasisIndex) (x : Point) : α :=
  match k.axis? with
  | none => 1
  | some a => if isGrouped r a then (Scalar.ofInt (x.get a) - center r a) / halfWidth r a else 0

/-- The weight with which a density at a point enters a row. -/
def weight (r : Region) (k : BasisIndex) (x : Point) : α :=
  match k.axis? with
  | none => 1 / volume r
  | some a => if isGrouped r a then phi r k x / norm r a else 0

/-- Volume and mean coordinates of a region are made of machine words. -/
def basisFits (r : Region) : Bool := r.volumeFits && r.centerFits

end Moment
end ClusterDynamics
