import ClusterDynamics.Proofs.Overlap
import ClusterDynamics.Proofs.Traversal

/-! Overlap coefficients against the sum that they replace. The walk through a region visits each of its
    points once, so the sum over the visited points is the sum over the region, and every entry of a
    coefficient matrix, computed from one closed form per axis, is this sum of weight times basis
    function. -/

namespace ClusterDynamics

/-! ### Coefficients -/

namespace Moment

variable {K : Type} [Field K] [LinearOrder K] [IsStrictOrderedRing K]

/-- Every entry of a coefficient matrix is the sum over the compositions of `q`, visited one by one, of
    the weight of row `k` where the composition arrives and basis function `j` where it comes from. The
    rows and columns of unused basis functions are zero. No region needs to lie inside another. -/
theorem coefficients_eq_direct_sum (this : Region) (shift : Point) (grouped q : Region)
    (k j : BasisIndex) :
    (coefficients this shift grouped q : MomentMatrix K).entry k j =
        (q.points.map fun x => weight this k (x.add shift) * phi grouped j x).sum ∧
      (coefficients this shift grouped q : MomentMatrix K).entry k j =
        ∑ x ∈ q.lattice, weight this k (x.add shift) * phi grouped j x ∧
      (k ∉ indices this ∨ j ∉ indices grouped →
        (coefficients this shift grouped q : MomentMatrix K).entry k j = 0) := by
  have hsum := entry_coefficients (K := K) this shift grouped q k j
  refine ⟨by rw [Region.sum_points, hsum], hsum, ?_⟩
  rintro (hk | hj)
  · have hk : uses this k = false := by rwa [mem_indices, Bool.not_eq_true] at hk
    rw [hsum]
    exact Finset.sum_eq_zero fun x _ => by rw [weight_of_not_uses hk, zero_mul]
  · have hj : uses grouped j = false := by rwa [mem_indices, Bool.not_eq_true] at hj
    rw [hsum]
    exact Finset.sum_eq_zero fun x _ => by rw [phi_of_not_uses hj, mul_zero]

/-- Two groups along different axes, and a box that reaches beyond both: the sum of the 30 terms for
    the moment of the one and the basis function of the other, and a row that the first does not have. -/
theorem crossed_direct_sum :
    ((Region.ofInclusive [(-4, 1), (-2, 2)]).points.map fun x =>
        weight (Region.ofInclusive [(-1, 2)]) 1 (x.add #v[1, -1, 0, 0]) *
          phi (Region.ofInclusive [(0, 0), (-3, 1)]) 2 x).sum = (-9 / 2 : ℚ) ∧
      (2 : BasisIndex) ∉ indices (Region.ofInclusive [(-1, 2)]) ∧
      (coefficients (Region.ofInclusive [(-1, 2)]) #v[1, -1, 0, 0]
        (Region.ofInclusive [(0, 0), (-3, 1)]) (Region.ofInclusive [(-4, 1), (-2, 2)]) :
          MomentMatrix ℚ).entry 2 2 = 0 :=
  ⟨(coefficients_eq_direct_sum _ _ _ _ _ _).1.symm.trans (by decide +kernel), by decide,
    (coefficients_eq_direct_sum _ _ _ _ _ _).2.2 (.inl (by decide))⟩

end Moment
end ClusterDynamics
