import ClusterDynamics.Moment.Overlap
import ClusterDynamics.Proofs.Lattice

/-! Overlap coefficients are sums over compositions. The closed form of one axis is the sum of a product
    of two affine functions; along four axes the sums multiply to the sum over the box of weight times
    basis function. From this the product of a coefficient matrix and a moment vector is the projection
    of the concentrations that the moments describe. -/

namespace ClusterDynamics

variable {K : Type} [Field K] [LinearOrder K]

namespace Affine

/-- The value of an affine function at an integer. -/
def eval (f : Affine K) (t : Int) : K := f.alpha + f.beta * t

@[simp] theorem eval_one (t : Int) : (one : Affine K).eval t = 1 := by
  simp [eval, one]

theorem eval_shifted (f : Affine K) (s t : Int) : (f.shifted s).eval t = f.eval (t + s) := by
  simp only [eval, shifted, Scalar.ofInt_exact, Int.cast_add]
  ring

variable [IsStrictOrderedRing K]

/-- The closed form, as a polynomial in the bounds. -/
def closedSum (lo hi : Int) (f g : Affine K) : K :=
  let n : K := hi - lo
  let mu : K := (lo + hi - 1) / 2
  f.alpha * g.alpha * n + (f.alpha * g.beta + f.beta * g.alpha) * (n * mu)
    + f.beta * g.beta * (n * mu * mu + n * (n * n - 1) / 12)

/-- One more term moves the upper bound by one. -/
theorem closedSum_succ (lo hi : Int) (f g : Affine K) :
    closedSum lo (hi + 1) f g = closedSum lo hi f g + f.eval hi * g.eval hi := by
  simp only [closedSum, eval, Int.cast_add, Int.cast_one]
  ring

theorem sum_eq_closedSum {lo hi : Int} (h : lo ≤ hi) (f g : Affine K) :
    ∑ t ∈ Finset.Ico lo hi, f.eval t * g.eval t = closedSum lo hi f g := by
  induction hi, h using Int.leInduction with
  | base => simp [closedSum]
  | succ hi h ih =>
    rw [closedSum_succ, ← ih, ← Finset.insert_Ico_right_eq_Ico_add_one h,
      Finset.sum_insert Finset.right_notMem_Ico, add_comm]

/-- The closed form of one axis is the sum over the axis. -/
theorem axisSum_eq_sum (lo hi : Int) (f g : Affine K) :
    axisSum lo hi f g = ∑ t ∈ Finset.Ico lo hi, f.eval t * g.eval t := by
  unfold axisSum
  split_ifs with h
  · rw [Finset.Ico_eq_empty (by omega), Finset.sum_empty]
  · rw [sum_eq_closedSum (by omega)]
    simp only [closedSum, Scalar.ofInt_exact, Int.cast_sub, Int.cast_add, Int.cast_one]
    norm_num
    ring

end Affine

namespace Moment

/-! ### Basis functions and weights along the axes -/

theorem mem_indices {r : Region} {k : BasisIndex} : k ∈ indices r ↔ uses r k = true := by
  rw [indices, List.mem_filter, and_iff_right (mem_basisIndices k)]

/-- A basis function of a region is the product of its factors along the axes. -/
theorem phi_eq_prod {r : Region} {k : BasisIndex} (h : uses r k = true) (x : Point) :
    (phi r k x : K) = ∏ a, (factor r k a).eval (x.get a) := by
  unfold phi factor
  unfold uses at h
  cases hk : k.axis? with
  | none => simp
  | some a =>
    simp only [hk] at h
    simp only [h, if_true]
    rw [Fintype.prod_eq_single a]
    · simp only [if_true, Affine.eval, slopeAlong, Scalar.ofInt_exact]
      ring
    · intro b hb
      rw [if_neg (fun e => hb (Option.some.inj e).symm), Affine.eval_one]

theorem phi_of_not_uses {r : Region} {k : BasisIndex} (h : uses r k = false) (x : Point) :
    (phi r k x : K) = 0 := by
  unfold phi
  unfold uses at h
  cases hk : k.axis? with
  | none => simp [hk] at h
  | some a =>
    simp only [hk] at h
    simp [h]

theorem weight_eq_scale_mul_phi {r : Region} {k : BasisIndex} (h : uses r k = true) (x : Point) :
    (weight r k x : K) = weightScale r k * phi r k x := by
  unfold weight weightScale
  unfold uses at h
  cases hk : k.axis? with
  | none => simp [phi, hk]
  | some a =>
    simp only [hk] at h
    simp only [h, if_true]
    ring

theorem weight_of_not_uses {r : Region} {k : BasisIndex} (h : uses r k = false) (x : Point) :
    (weight r k x : K) = 0 := by
  unfold weight
  unfold uses at h
  cases hk : k.axis? with
  | none => simp [hk] at h
  | some a =>
    simp only [hk] at h
    simp [h]

/-- The weight at the mean does not depend on the point. -/
theorem weight_zero (r : Region) (x : Point) : (weight r 0 x : K) = 1 / volume r := rfl

@[simp] theorem phi_zero (r : Region) (x : Point) : (phi r 0 x : K) = 1 := rfl

/-! ### Coefficients -/

/-- Ending a product at its first zero does not change it. -/
theorem productUntilZero_eq (f : Direction → K) :
    ∀ (l : List Direction) (p : K), productUntilZero f l p = p * (l.map f).prod
  | [], p => by simp [productUntilZero]
  | a :: l, p => by
    rw [productUntilZero, productUntilZero_eq f l]
    split_ifs with h
    · have h0 : p * f a = 0 := of_decide_eq_true h
      rw [List.map_cons, List.prod_cons, ← mul_assoc, h0, zero_mul]
    · rw [List.map_cons, List.prod_cons, mul_assoc]

theorem prod_directions {M : Type} [CommMonoid M] (f : Direction → M) : (directions.map f).prod = ∏ a, f a := by
  rw [Fin.prod_univ_four]
  simp [directions, mul_assoc]

/-- The concentration that a moment vector over a region assigns to a composition. -/
def density (r : Region) (v : MomentVector K) (x : Point) : K := ∑ j, phi r j x * v.get j

theorem dot_eq_sum (v w : MomentVector K) : MomentVector.dot v w = ∑ j, v.get j * w.get j := by
  rw [Fin.sum_univ_five]
  rfl

variable [IsStrictOrderedRing K]

/-- A coefficient is the sum, over the compositions that react, of the weight of the row where the
    composition arrives and the basis function of the grouped operand. -/
theorem coefficient_eq_sum (this : Region) (shift : Point) (grouped q : Region) (k j : BasisIndex) :
    (coefficient this shift grouped q k j : K) =
      ∑ x ∈ q.lattice, weight this k (x.add shift) * phi grouped j x := by
  unfold coefficient
  cases hk : uses this k with
  | false => simp [weight_of_not_uses hk]
  | true =>
    cases hj : uses grouped j with
    | false => simp [phi_of_not_uses hj]
    | true =>
      rw [Bool.and_self, if_pos rfl, productUntilZero_eq, prod_directions]
      have hterm : ∀ x : Point, (weight this k (x.add shift) * phi grouped j x : K) =
          weightScale this k * ∏ a, (((factor this k a).shifted (shift.get a)).eval (x.get a) *
            (factor grouped j a).eval (x.get a)) := fun x => by
        rw [weight_eq_scale_mul_phi hk, phi_eq_prod hk, phi_eq_prod hj, Finset.prod_mul_distrib]
        simp only [Affine.eval_shifted, Point.get_add]
        ring
      simp only [hterm, ← Finset.mul_sum]
      rw [Region.sum_lattice_prod q fun a t =>
        ((factor this k a).shifted (shift.get a)).eval t * (factor grouped j a).eval t]
      simp only [axisFactor, Affine.axisSum_eq_sum]

theorem entry_coefficients (this : Region) (shift : Point) (grouped q : Region) (k j : BasisIndex) :
    ((coefficients this shift grouped q : MomentMatrix K)).entry k j =
      ∑ x ∈ q.lattice, weight this k (x.add shift) * phi grouped j x := by
  rw [coefficients, MomentMatrix.entry_ofFn, coefficient_eq_sum]

/-- A row of the product of coefficients and moments projects the reacting concentrations. -/
theorem get_coefficients_mulVec (this : Region) (shift : Point) (grouped q : Region)
    (v : MomentVector K) (k : BasisIndex) :
    ((coefficients this shift grouped q).mulVec v).get k =
      ∑ x ∈ q.lattice, weight this k (x.add shift) * density grouped v x := by
  rw [MomentMatrix.get_mulVec, dot_eq_sum]
  have hrow : ∀ j, ((coefficients this shift grouped q : MomentMatrix K).get k).get j =
      ∑ x ∈ q.lattice, weight this k (x.add shift) * phi grouped j x :=
    entry_coefficients this shift grouped q k
  simp only [hrow, density, Finset.sum_mul, Finset.mul_sum]
  rw [Finset.sum_comm]
  exact Finset.sum_congr rfl fun x _ => Finset.sum_congr rfl fun j _ => mul_assoc _ _ _

/-! ### First moments -/

theorem volume_ne_zero {r : Region} (h : r.isEmpty = false) : (volume r : K) ≠ 0 := by
  have hpos : 0 < r.volume := by
    rw [← Region.card_lattice]
    exact_mod_cast Finset.card_pos.mpr (Region.lattice_nonempty.mpr h)
  exact Int.cast_ne_zero.mpr hpos.ne'

theorem width_sub_one_pos {r : Region} {a : Direction} (h : isGrouped r a = true) :
    (0 : K) < (r.width a : K) - 1 := by
  have : (1 : K) < (r.width a : K) := by exact_mod_cast of_decide_eq_true h
  linarith

theorem halfWidth_ne_zero {r : Region} {a : Direction} (h : isGrouped r a = true) :
    (halfWidth r a : K) ≠ 0 := by
  have := (width_sub_one_pos (K := K) h).ne'
  rw [halfWidth, if_pos h]
  norm_num
  exact this

theorem norm_ne_zero {r : Region} {a : Direction} (hne : r.isEmpty = false)
    (h : isGrouped r a = true) : (norm r a : K) ≠ 0 := by
  have hw := width_sub_one_pos (K := K) h
  have hup : (0 : K) < (r.width a : K) + 1 := by linarith
  have hdown : (0 : K) < 3.0 * ((r.width a : K) - 1) := by
    norm_num
    linarith
  rw [norm, if_pos h]
  exact div_ne_zero (mul_ne_zero (volume_ne_zero hne) hup.ne') hdown.ne'

/-- The mean and the first moment of a weighted point give back its coordinate: what `content` adds up
    for a density is the sum of coordinates. -/
theorem coordinate_of_weights {r : Region} {x : Point} (hx : r.contains x = true) (a : Direction) :
    (volume r * center r a * weight r 0 x
      + halfWidth r a * norm r a * weight r a.succ x : K) = x.get a := by
  have hne : r.isEmpty = false := Region.isEmpty_of_contains hx
  have hvol := volume_ne_zero (K := K) hne
  have haxis : BasisIndex.axis? a.succ = some a := rfl
  have hmean : (volume r * center r a * weight r 0 x : K) = center r a := by
    rw [weight_zero]
    field_simp
  rw [hmean]
  cases hg : isGrouped r a with
  | true =>
    have hhalf := halfWidth_ne_zero (K := K) hg
    have hnorm := norm_ne_zero (K := K) hne hg
    simp only [weight, phi, haxis, hg, if_true, Scalar.ofInt_exact]
    field_simp
    ring
  | false =>
    have hw : r.hi.get a = r.lo.get a + 1 := by
      have h1 : ¬1 < r.width a := of_decide_eq_false hg
      have h2 := Region.isEmpty_eq_false.mp hne a
      rw [Region.width] at h1
      omega
    have hxa : x.get a = r.lo.get a := by
      have := Region.contains_iff.mp hx a
      omega
    simp only [halfWidth, hg, Bool.false_eq_true, if_false, zero_mul, add_zero]
    rw [center, Region.twiceCenter, hw, hxa, Scalar.ofInt_exact]
    push_cast
    norm_num
    ring

end Moment
end ClusterDynamics
