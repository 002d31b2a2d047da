import ClusterDynamics.Moment.Basis

/-! Overlap coefficients. When every composition `x` of a box `q` reacts, the concentration that the
    grouped operand assigns to `x` enters row `k` of a cluster with the weight at `x + shift`. Summed
    over the box this gives a matrix that links the two clusters; the sums are products of one closed
    form per axis, so no composition is visited. -/

namespace ClusterDynamics

/-- The function `alpha + beta * t`. -/
structure Affine (α : Type) where
  alpha : α
  beta : α

namespace Affine

variable {α : Type} [Scalar α]

/-- The function that is one everywhere. -/
def one : Affine α := ⟨1, 0⟩

/-- The function `t ↦ f (t + offset)`. -/
def shifted (f : Affine α) (offset : Int) : Affine α :=
  ⟨f.alpha + f.beta * Scalar.ofInt offset, f.beta⟩

/-- The sum of `f t * g t` over `lo ≤ t < hi`. With `n` terms around the midpoint `mu`, the sums of `1`,
    `t` and `t ^ 2` are `n`, `n mu` and `n mu ^ 2 + n (n ^ 2 - 1) / 12`. -/
def axisSum (lo hi : Int) (f g : Affine α) : α :=
  if hi - lo ≤ 0 then 0
  else
    let n : α := Scalar.ofInt (hi - lo)
    let mu : α := Scalar.ofInt (lo + hi - 1) * 0.5
    let s0 := n
    let s1 := n * mu
    let s2 := n * mu * mu + n * (n * n - 1) / 12.0
    f.alpha * g.alpha * s0 + (f.alpha * g.beta + f.beta * g.alpha) * s1 + f.beta * g.beta * s2

end Affine

/-- The numbers that a closed sum starts from are machine words. -/
def axisSumFits (lo hi : Int) : Bool :=
  fits (hi - lo) && (decide (hi - lo ≤ 0) || (fits (lo + hi) && fits (lo + hi - 1)))

namespace Moment

variable {α : Type} [Scalar α]

/-- The function `d_a` of a region, as an affine function of the coordinate. -/
def slopeAlong (r : Region) (a : Direction) : Affine α :=
  ⟨-center r a / halfWidth r a, 1 / halfWidth r a⟩

/-- The factor of a basis function along one axis. -/
def factor (r : Region) (k : BasisIndex) (a : Direction) : Affine α :=
  if k.axis? = some a then slopeAlong r a else .one

/-- The constant in front of a weight. -/
def weightScale (r : Region) (k : BasisIndex) : α :=
  match k.axis? with
  | none => 1 / volume r
  | some a => 1 / norm r a

/-- A product that ends at the first partial product that is zero. -/
def productUntilZero (f : Direction → α) : List Direction → α → α
  | [], p => p
  | a :: rest, p =>
    if Scalar.isZero (p * f a) then p * f a else productUntilZero f rest (p * f a)

/-- The axes that `productUntilZero` looks at pass a test. -/
def checkUntilZero (f : Direction → α) (ok : Direction → Bool) : List Direction → α → Bool
  | [], _ => true
  | a :: rest, p => ok a && (Scalar.isZero (p * f a) || checkUntilZero f ok rest (p * f a))

/-- The factor that one axis contributes to the coefficient of row `k` and basis function `j`. -/
def axisFactor (this : Region) (shift : Point) (grouped q : Region) (k j : BasisIndex)
    (a : Direction) : α :=
  Affine.axisSum (q.lo.get a) (q.hi.get a) ((factor this k a).shifted (shift.get a))
    (factor grouped j a)

/-- The coefficient of row `k` and basis function `j`. -/
def coefficient (this : Region) (shift : Point) (grouped q : Region) (k j : BasisIndex) : α :=
  if uses this k && uses grouped j then
    productUntilZero (axisFactor this shift grouped q k j) directions (weightScale this k)
  else 0

/-- How much of each basis function of `grouped` feeds each row of `this` when every composition of `q`
    reacts and arrives moved by `shift`. -/
def coefficients (this : Region) (shift : Point) (grouped q : Region) : MomentMatrix α :=
  .ofFn (coefficient this shift grouped q)

/-- All coefficients are computed from machine words. Most boxes pass because all of their axes do. -/
def coefficientsFit (α : Type) [Scalar α] (this : Region) (shift : Point) (grouped q : Region) :
    Bool :=
  (directions.all fun a => axisSumFits (q.lo.get a) (q.hi.get a)) ||
    (indices this).all fun k => (indices grouped).all fun j =>
      checkUntilZero (axisFactor this shift grouped q k j : Direction → α)
        (fun a => axisSumFits (q.lo.get a) (q.hi.get a)) directions (weightScale this k)

end Moment
end ClusterDynamics
