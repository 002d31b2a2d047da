import ClusterDynamics.Scalar
import Mathlib

/-! Exact arithmetic: every ordered field is a scalar, with its own operations and order. What the
    library computes over such a field has no rounding, and no number is infinite. -/

namespace ClusterDynamics

instance (priority := 50) Scalar.exact {K : Type} [Field K] [LinearOrder K] : Scalar K where
  ofInt n := (n : K)
  less _ _ := inferInstance
  isZero x := decide (x = 0)
  isFinite _ := true

namespace Scalar

variable {K : Type} [Field K] [LinearOrder K]

@[simp] theorem ofInt_exact (n : Int) : (Scalar.ofInt n : K) = n := rfl

@[simp] theorem ofNat_exact (n : Nat) : (Scalar.ofNat n : K) = n := Int.cast_natCast n

@[simp] theorem isZero_exact (x : K) : Scalar.isZero x = decide (x = 0) := rfl

@[simp] theorem isFinite_exact (x : K) : Scalar.isFinite x = true := rfl

end Scalar

namespace Analytic

/-- Materials are computed with the operations of an ordered field, whatever the other functions are. -/
def IsExact {K : Type} (A : Analytic K) : Prop :=
  ∃ (_ : Field K) (_ : LinearOrder K) (_ : IsStrictOrderedRing K), A.toScalar = Scalar.exact

/-- The functions of the real numbers. Roots of negative numbers are taken as for doubles, and what stands
    for an energy that no cluster can pay is left open. -/
@[reducible] noncomputable def real (top : ℝ) : Analytic ℝ where
  pi := Real.pi
  exp := Real.exp
  sqrt := Real.sqrt
  cbrt x := if 0 ≤ x then x ^ (1 / 3 : ℝ) else -(-x) ^ (1 / 3 : ℝ)
  pow x y := x ^ y
  infinity := top
  floor x := max (-9223372036854775808) (min ⌊x⌋ 9223372036854775807)

/-- Materials are computed with real numbers. -/
def IsReal (A : Analytic ℝ) : Prop := ∃ top, A = real top

end Analytic
end ClusterDynamics
