import ClusterDynamics.Decimal.Numeral

/-! The numbers that the rate equations are written in. Every formula of the library is stated over
    a `Scalar`, so one definition serves the machine's doubles and any exact field. `Analytic` adds
    the functions that only the materials' physics needs, and `ScalarText` the written forms. -/

namespace ClusterDynamics

/-- Arithmetic, comparison and literals, as the rate equations use them. -/
class Scalar (α : Type) extends Add α, Sub α, Mul α, Div α, Neg α, Zero α, One α, LT α,
    OfScientific α where
  /-- The scalar nearest to an integer. -/
  ofInt : Int → α
  /-- Comparison of two scalars, decided. -/
  less : (a b : α) → Decidable (a < b)
  /-- The scalar compares equal to zero. -/
  isZero : α → Bool
  /-- The scalar is an ordinary number, neither infinite nor undefined. -/
  isFinite : α → Bool

instance Scalar.decidableLT {α : Type} [Scalar α] : DecidableLT α := Scalar.less

-- A number type that has operations of its own keeps them.
attribute [instance (50)] Scalar.toAdd Scalar.toSub Scalar.toMul Scalar.toDiv Scalar.toNeg Scalar.toZero
  Scalar.toOne Scalar.toLT Scalar.toOfScientific Scalar.decidableLT

/-- The scalar nearest to a natural number. -/
def Scalar.ofNat {α : Type} [Scalar α] (n : Nat) : α := Scalar.ofInt (n : Int)

/-- The larger of two scalars; the first one where they do not compare. -/
def Scalar.larger {α : Type} [Scalar α] (a b : α) : α := if a < b then b else a

/-- The functions behind Arrhenius laws, sphere radii and bin widths. -/
class Analytic (α : Type) extends Scalar α where
  /-- The ratio of a circle's circumference to its diameter. -/
  pi : α
  exp : α → α
  sqrt : α → α
  cbrt : α → α
  pow : α → α → α
  /-- An energy that no cluster can pay. -/
  infinity : α
  /-- The largest integer not above the scalar, brought into the range of a coordinate. -/
  floor : α → Int

/-- The cube of a lattice constant. -/
def Analytic.cube {α : Type} [Analytic α] (x : α) : α := x * (x * x)

/-- Written forms of a scalar. -/
class ScalarText (α : Type) where
  /-- The positional form that messages show. -/
  plain : α → String
  /-- The form of data files, for finite scalars. -/
  numeral : α → Numeral
  /-- The form of tables, which also names the scalars that are not finite. -/
  cell : α → String
  /-- The scalar nearest to a numeral; `none` where it leaves the range. -/
  ofNumeral? : Numeral → Option α

end ClusterDynamics
