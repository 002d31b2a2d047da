import ClusterDynamics.Proofs.Conservation
import ClusterDynamics.Proofs.DirectSum

/-! Duality of weights and basis functions. The basis functions of a region are products of one affine factor
    per axis, so their inner products are products of sums along the axes: `n` for two constant factors, zero
    for a constant one beside a slope, and `n (n + 1) / (3 (n - 1))` for a slope with itself. Different basis
    functions have a slope beside a constant on some axis, hence they are orthogonal, and the weights are the
    basis functions divided by their squared norms. Projecting any density with the weights keeps its sum and
    its first moments, which is how `content` reads them off the state. -/

namespace ClusterDynamics

theorem BasisIndex.eq_of_axis? : ∀ {k j : BasisIndex}, k.axis? = j.axis? → k = j := by decide

theorem BasisIndex.axis?_succ (a : Direction) : BasisIndex.axis? a.succ = some a := rfl

namespace Moment

variable {K : Type} [Field K] [LinearOrder K] {r : Region} {k j : BasisIndex} {a : Direction}

/-! ### Sums along an axis -/

/-- The inner product of the factors of two basis functions along an axis. -/
noncomputable def axisGram (r : Region) (k j : BasisIndex) (a : Direction) : K :=
  ∑ t ∈ Finset.Ico (r.lo.get a) (r.hi.get a), (factor r k a).eval t * (factor r j a).eval t

theorem sum_phi_mul_phi (hk : uses r k = true) (hj : uses r j = true) :
    ∑ x ∈ r.lattice, (phi r k x * phi r j x : K) = ∏ a, axisGram r k j a := by
  unfold axisGram
  rw [← Region.sum_lattice_prod r fun a t => (factor r k a).eval t * (factor r j a).eval t]
  refine Finset.sum_congr rfl fun x _ => ?_
  rw [phi_eq_prod hk, phi_eq_prod hj, Finset.prod_mul_distrib]

theorem axisGram_comm (r : Region) (k j : BasisIndex) (a : Direction) :
    (axisGram r k j a : K) = axisGram r j k a :=
  Finset.sum_congr rfl fun _ _ => mul_comm _ _

theorem volume_eq (hne : r.isEmpty = false) : (volume r : K) = ∏ a, (r.width a : K) := by
  rw [volume, Scalar.ofInt_exact, Region.volume_eq_prod, Int.cast_prod]
  refine Finset.prod_congr rfl fun a _ => ?_
  have hlt := Region.isEmpty_eq_false.mp hne a
  rw [Region.extent, max_eq_left]
  rw [Region.width]
  omega

theorem sum_one (r : Region) : ∑ _x ∈ r.lattice, (1 : K) = volume r := by
  rw [Finset.sum_const, nsmul_one, volume, Scalar.ofInt_exact, ← Region.card_lattice, Int.cast_natCast]

variable [IsStrictOrderedRing K]

theorem axisGram_eq_closedSum (hne : r.isEmpty = false) (k j : BasisIndex) (a : Direction) :
    (axisGram r k j a : K) =
      Affine.closedSum (r.lo.get a) (r.hi.get a) (factor r k a) (factor r j a) :=
  Affine.sum_eq_closedSum (Region.isEmpty_eq_false.mp hne a).le _ _

/-- The middle of an axis, as the closed sums have it. -/
theorem center_eq (r : Region) (a : Direction) : (center r a : K) = (r.lo.get a + r.hi.get a - 1) / 2 := by
  rw [center, Region.twiceCenter, Scalar.ofInt_exact]
  push_cast
  norm_num
  ring

theorem halfWidth_eq (h : isGrouped r a = true) : (halfWidth r a : K) = ((r.width a : K) - 1) / 2 := by
  rw [halfWidth, if_pos h, Scalar.ofInt_exact]
  norm_num
  ring

theorem axisGram_constant (hne : r.isEmpty = false) (hk : k.axis? ≠ some a) (hj : j.axis? ≠ some a) :
    (axisGram r k j a : K) = r.width a := by
  rw [axisGram_eq_closedSum hne, factor, factor, if_neg hk, if_neg hj]
  simp [Affine.closedSum, Affine.one, Region.width]

/-- A slope runs through zero in the middle of its axis. -/
theorem axisGram_slope (hne : r.isEmpty = false) (hk : k.axis? = some a) (hj : j.axis? ≠ some a) :
    (axisGram r k j a : K) = 0 := by
  rw [axisGram_eq_closedSum hne, factor, factor, if_pos hk, if_neg hj]
  simp only [Affine.closedSum, Affine.one, slopeAlong, center_eq]
  ring

theorem axisGram_square (hne : r.isEmpty = false) (hk : k.axis? = some a) (hg : isGrouped r a = true) :
    (axisGram r k k a : K) =
      r.width a * ((r.width a : K) + 1) / (3 * ((r.width a : K) - 1)) := by
  have hw := (width_sub_one_pos (K := K) hg).ne'
  rw [axisGram_eq_closedSum hne, factor, if_pos hk]
  simp only [Affine.closedSum, slopeAlong, center_eq, halfWidth_eq hg]
  rw [Region.width, Int.cast_sub] at hw ⊢
  field_simp
  ring

/-! ### Orthogonality -/

theorem sum_phi_mul_phi_of_ne (hne : r.isEmpty = false) (hk : uses r k = true) (hj : uses r j = true)
    (hkj : k ≠ j) : ∑ x ∈ r.lattice, (phi r k x * phi r j x : K) = 0 := by
  have haxis : k.axis? ≠ j.axis? := fun h => hkj (BasisIndex.eq_of_axis? h)
  rw [sum_phi_mul_phi hk hj]
  cases hka : k.axis? with
  | some a => exact Finset.prod_eq_zero (Finset.mem_univ a) (axisGram_slope hne hka (hka ▸ haxis.symm))
  | none =>
    obtain ⟨a, hja⟩ := Option.ne_none_iff_exists'.mp (hka ▸ haxis.symm)
    refine Finset.prod_eq_zero (Finset.mem_univ a) ?_
    rw [axisGram_comm]
    exact axisGram_slope hne hja (by simp [hka])

/-- The norm of a moment is the sum of the squares of its basis function. -/
theorem sum_phi_sq (hne : r.isEmpty = false) (hg : isGrouped r a = true) :
    ∑ x ∈ r.lattice, (phi r a.succ x * phi r a.succ x : K) = norm r a := by
  have huses : uses r a.succ = true := hg
  have hrest : ∀ b ∈ Finset.univ.erase a, (axisGram r a.succ a.succ b : K) = r.width b := fun b hb => by
    have hb : BasisIndex.axis? a.succ ≠ some b := fun h =>
      Finset.ne_of_mem_erase hb (Option.some.inj h).symm
    exact axisGram_constant hne hb hb
  rw [sum_phi_mul_phi huses huses, ← Finset.mul_prod_erase _ _ (Finset.mem_univ a),
    Finset.prod_congr rfl hrest, axisGram_square hne (BasisIndex.axis?_succ a) hg, norm, if_pos hg,
    volume_eq hne, ← Finset.mul_prod_erase _ _ (Finset.mem_univ a), Scalar.ofInt_exact]
  norm_num
  ring

theorem sum_weight_mul_phi_self (hne : r.isEmpty = false) (hk : uses r k = true) :
    ∑ x ∈ r.lattice, (weight r k x * phi r k x : K) = 1 := by
  have hsum : ∑ x ∈ r.lattice, (weight r k x * phi r k x : K) =
      weightScale r k * ∑ x ∈ r.lattice, phi r k x * phi r k x := by
    rw [Finset.mul_sum]
    exact Finset.sum_congr rfl fun x _ => by rw [weight_eq_scale_mul_phi hk, mul_assoc]
  rw [hsum]
  refine Fin.cases (fun _ => ?_) (fun a hk => ?_) k hk
  · simp only [phi_zero, mul_one, sum_one]
    exact one_div_mul_cancel (volume_ne_zero hne)
  · rw [sum_phi_sq hne hk]
    exact one_div_mul_cancel (norm_ne_zero hne hk)

theorem sum_weight_mul_phi (hne : r.isEmpty = false) (hk : uses r k = true) (hj : uses r j = true) :
    ∑ x ∈ r.lattice, (weight r k x * phi r j x : K) = if k = j then 1 else 0 := by
  split_ifs with hkj
  · subst hkj
    exact sum_weight_mul_phi_self hne hk
  · have hscale : ∀ x, (weight r k x * phi r j x : K) = weightScale r k * (phi r k x * phi r j x) := fun x => by
      rw [weight_eq_scale_mul_phi hk, mul_assoc]
    simp only [hscale, ← Finset.mul_sum, sum_phi_mul_phi_of_ne hne hk hj hkj, mul_zero]

/-! ### Projections -/

/-- What the weights of a row make of a density over a region. -/
noncomputable def projection (r : Region) (f : Point → K) (k : BasisIndex) : K := ∑ x ∈ r.lattice, weight r k x * f x

/-- The first moments of a density, from its projections. -/
theorem sum_coordinate_mul (r : Region) (f : Point → K) (a : Direction) :
    ∑ x ∈ r.lattice, (x.get a : K) * f x =
      volume r * center r a * projection r f 0 + halfWidth r a * norm r a * projection r f a.succ := by
  simp only [projection, Finset.mul_sum, ← Finset.sum_add_distrib]
  refine Finset.sum_congr rfl fun x hx => ?_
  rw [← coordinate_of_weights (Region.mem_lattice.mp hx) a]
  ring

/-- What the moment basis of a region does for a density over it. -/
structure DualBasis (K : Type) [Field K] [LinearOrder K] [IsStrictOrderedRing K] (r : Region) : Prop where
  dual : ∀ k ∈ indices r, ∀ j ∈ indices r,
    ∑ x ∈ r.lattice, (weight r k x * phi r j x : K) = if k = j then 1 else 0
  coefficients_self : ∀ k ∈ indices r, ∀ j ∈ indices r,
    (coefficients r .origin r r : MomentMatrix K).entry k j = if k = j then 1 else 0
  norm_eq : ∀ a, isGrouped r a = true → (norm r a : K) = ∑ x ∈ r.lattice, phi r a.succ x ^ 2
  first_moment : ∀ (f : Point → K) (a : Direction), ∑ x ∈ r.lattice, (x.get a : K) * f x =
    volume r * center r a * projection r f 0 +
      if isGrouped r a then halfWidth r a * norm r a * projection r f a.succ else 0
  /-- A cluster on the region whose slots hold the projections of a density adds its first moment to the
      content. -/
  content : ∀ (n : Network K), n.Built → ∀ c ∈ n.clusters, c.region = r → ∀ (f : Point → K) (state : Array K),
    (∀ row ∈ c.slots, State.value state row.2 = projection r f row.1) → ∀ (a : Direction) (t : K),
      Network.addContent state a t c = t + ∑ x ∈ r.lattice, (x.get a : K) * f x

theorem dualBasis_of_nonempty (hne : r.isEmpty = false) : DualBasis K r where
  dual k hk j hj := sum_weight_mul_phi hne (mem_indices.mp hk) (mem_indices.mp hj)
  coefficients_self k hk j hj := by
    simp only [entry_coefficients, Point.add_origin]
    exact sum_weight_mul_phi hne (mem_indices.mp hk) (mem_indices.mp hj)
  norm_eq a hg := by
    simp only [sq]
    exact (sum_phi_sq hne hg).symm
  first_moment f a := by
    rw [sum_coordinate_mul]
    cases hg : isGrouped r a with
    | true => rw [if_pos rfl]
    | false =>
      have hhalf : (halfWidth r a : K) = 0 := by
        rw [halfWidth, hg]
        exact if_neg Bool.false_ne_true
      rw [hhalf, zero_mul, zero_mul, if_neg Bool.false_ne_true]
  content n hn c hc hregion f state hstate a t := by
    subst hregion
    have hrows : ∀ row ∈ c.slots, State.value state row.2 =
        (Vector.ofFn (projection c.region f) : MomentVector K).get row.1 := fun row hrow => by
      rw [get_ofFn]
      exact hstate row hrow
    rw [Network.addContent_eq hn.sound hc hrows, total_eq, get_ofFn, get_ofFn, sum_coordinate_mul]

/-- Three values along one axis and two along another one: the two moments do not mix, and the product of the
    coordinates has the first moment 10 along the first axis. -/
theorem dualBasis_rectangle :
    let r : Region := .ofInclusive [(-1, 1), (2, 3)]
    let f : Point → ℚ := fun x => x.get Direction.first * x.get Direction.second
    r.isEmpty = false ∧ (coefficients r .origin r r : MomentMatrix ℚ).entry 1 2 = 0 ∧
      (coefficients r .origin r r : MomentMatrix ℚ).entry 2 2 = 1 ∧
      ∑ x ∈ r.lattice, (phi r 1 x : ℚ) ^ 2 = 4 ∧
      volume r * center r Direction.first * projection r f 0 +
        halfWidth r Direction.first * norm r Direction.first * projection r f 1 = 10 := by
  intro r f
  have D : DualBasis ℚ r := dualBasis_of_nonempty (by decide)
  refine ⟨by decide, D.coefficients_self 1 (by decide) 2 (by decide), D.coefficients_self 2 (by decide) 2 (by decide),
    (D.norm_eq Direction.first (by decide)).symm.trans (by decide +kernel), ?_⟩
  refine (D.first_moment f Direction.first).symm.trans ?_
  rw [← Region.sum_points]
  decide +kernel

end Moment
end ClusterDynamics
