import ClusterDynamics.Proofs.ExactScalar
import ClusterDynamics.Proofs.Materials

/-! Formation energies. A metal pays surface energy for its vacancies and for its interstitials, and for the
    helium of a bubble the more the fuller the bubble is. The surface law is strictly subadditive and the
    helium limit bounds the pressure, so taking one defect out of a composition costs energy: a helium atom
    out of a bubble or of pure helium, a vacancy down to the last one, an interstitial out of its cluster,
    and in tungsten an interstitial that leaves a vacancy behind. -/

namespace ClusterDynamics

/-! ### The surface law -/

namespace RateLaw

/-- The surface law of formation energies, over the reals. -/
noncomputable def realSurface (n : ℝ) : ℝ := n ^ (2.0 / 3.0 : ℝ)

theorem surface_eq_realSurface [A : Analytic ℝ] (hA : A.IsReal) (n : ℝ) : surface n = realSurface n := by
  obtain ⟨top, rfl⟩ := hA
  rfl

theorem realSurface_one : realSurface 1 = 1 := Real.one_rpow _

theorem realSurface_nonneg {n : ℝ} (hn : 0 ≤ n) : 0 ≤ realSurface n := Real.rpow_nonneg hn _

theorem realSurface_cube {n : ℝ} (hn : 0 ≤ n) : realSurface n ^ 3 = n ^ 2 := by
  rw [realSurface, ← Real.rpow_natCast, ← Real.rpow_mul hn, ← Real.rpow_natCast]
  norm_num

theorem lt_realSurface {q n : ℝ} (hn : 0 ≤ n) (h : q ^ 3 < n ^ 2) : q < realSurface n := by
  rw [← realSurface_cube hn] at h
  exact lt_of_pow_lt_pow_left₀ 3 (realSurface_nonneg hn) h

theorem realSurface_lt {n r : ℝ} (hn : 0 ≤ n) (hr : 0 ≤ r) (h : n ^ 2 < r ^ 3) : realSurface n < r := by
  rw [← realSurface_cube hn] at h
  exact lt_of_pow_lt_pow_left₀ 3 hr h

/-- A larger cluster has a larger surface. -/
theorem realSurface_lt_succ {n : ℝ} (hn : 0 ≤ n) : realSurface n < realSurface (n + 1) := by
  have hsucc : 0 ≤ n + 1 := by linarith
  refine realSurface_lt hn (realSurface_nonneg hsucc) ?_
  rw [realSurface_cube hsucc]
  nlinarith

/-- A cluster has less surface than two parts of it. -/
theorem realSurface_succ_lt {n : ℝ} (hn : 0 < n) : realSurface (n + 1) < 1 + realSurface n := by
  have hs := realSurface_nonneg hn.le
  have hcube := realSurface_cube hn.le
  refine realSurface_lt (by linarith) (by linarith) ?_
  set s := realSurface n
  -- With `s ^ 3 = n ^ 2` the cubes `(n + 1) ^ 2 < (1 + s) ^ 3` compare as `2 n < 3 s ^ 2 + 3 s`, and both sides
  -- of that may be squared.
  have hs0 : 0 < s := by
    refine hs.lt_of_ne fun h => ?_
    rw [← h] at hcube
    nlinarith
  have hlt : 2 * n < 3 * s ^ 2 + 3 * s := by
    refine lt_of_pow_lt_pow_left₀ 2 (by positivity) ?_
    nlinarith [sq_nonneg (s - 1), mul_pos hs0 hs0, pow_pos hs0 3, pow_pos hs0 4]
  nlinarith

end RateLaw

/-! ### Energies of a metal -/

open DefectSpace

/-- The formation energies of a metal: a surface energy for vacancies and one for interstitials, what a
    dissolved helium atom costs in a bubble, and the energies of pure helium by its number of atoms. -/
structure EnergyLaw where
  vacancy : ℝ
  interstitial : ℝ
  dissolved : ℝ
  pure : ℕ → ℝ

namespace EnergyLaw

open RateLaw

/-- The energy of `m` helium atoms in `v` vacancies. -/
noncomputable def bubble (L : EnergyLaw) (m v : ℝ) : ℝ :=
  L.vacancy * realSurface v + m * L.dissolved + 0.25 * m * (m - 1) / v

noncomputable def energy (L : EnergyLaw) (c : Composition) : ℝ :=
  if 0 < c.vacancy then L.bubble c.helium.toNat c.vacancy.toNat
  else if 0 < c.interstitial then L.interstitial * realSurface c.interstitial.toNat
  else L.pure c.helium.toNat

/-- The energy of `m` helium atoms at a defect coordinate. -/
noncomputable def coordinate (L : EnergyLaw) (m : ℕ) (x : ℤ) : ℝ :=
  if 0 < x then L.bubble m x else if x < 0 then L.interstitial * realSurface (-x) else L.pure m

/-- The helium that a composition counts, which is a word. -/
def word (h : ℤ) : ℕ := h.toNat % 4294967296

variable {L : EnergyLaw} {h x : ℤ} {m : ℕ}

theorem word_le (hh : 0 ≤ h) : (word h : ℤ) ≤ h := by
  unfold word
  omega

theorem word_of_lt (hh : 0 ≤ h) (hfit : h < 4294967296) : (word h : ℤ) = h := by
  unfold word
  omega

/-- One atom less is counted as one atom less, unless the count is used up. -/
theorem word_pred (hh : 1 ≤ h) : word h = word (h - 1) + 1 ∨ word h = 0 := by
  unfold word
  omega

theorem coordinate_pos (hx : 0 < x) : L.coordinate m x = L.bubble m x := if_pos hx

theorem coordinate_neg (hx : x < 0) : L.coordinate m x = L.interstitial * realSurface (-x) := by
  rw [coordinate, if_neg hx.not_gt, if_pos hx]

theorem coordinate_zero : L.coordinate m 0 = L.pure m := rfl

theorem energy_toComposition (hh : 0 ≤ h) (hx : x.natAbs < 4294967296) :
    L.energy (space.toComposition (point h x)) = L.coordinate (word h) x := by
  have hcount : (UInt32.ofNat h.natAbs).toNat = word h := by
    rw [word, show h.toNat = h.natAbs by omega]
    exact UInt32.toNat_ofNat'
  have hdefects := UInt32.toNat_ofNat_of_lt' hx
  have hpos : 0 < UInt32.ofNat x.natAbs ↔ x ≠ 0 := by
    rw [UInt32.lt_iff_toNat_lt, hdefects, show (0 : UInt32).toNat = 0 from rfl]
    omega
  rw [toComposition_point hh]
  rcases lt_trichotomy x 0 with hneg | rfl | hxpos
  · have habs : ((x.natAbs : ℕ) : ℝ) = -x := by
      rw [Nat.cast_natAbs, abs_of_neg hneg, Int.cast_neg]
    rw [if_pos hneg, coordinate_neg hneg, energy]
    change (if (0 : UInt32) < 0 then _ else if 0 < UInt32.ofNat x.natAbs then
      L.interstitial * realSurface (UInt32.ofNat x.natAbs).toNat else _) = _
    rw [if_neg (by decide), if_pos (hpos.mpr hneg.ne), hdefects, habs]
  · rw [coordinate_zero, ← hcount]
    rfl
  · have habs : ((x.natAbs : ℕ) : ℝ) = x := by rw [Nat.cast_natAbs, abs_of_pos hxpos]
    rw [if_neg hxpos.not_gt, coordinate_pos hxpos, energy]
    change (if 0 < UInt32.ofNat x.natAbs then
      L.bubble (UInt32.ofNat h.natAbs).toNat (UInt32.ofNat x.natAbs).toNat else _) = _
    rw [if_pos (hpos.mpr hxpos.ne'), hdefects, hcount, habs]

theorem energy_helium : L.energy (space.toComposition (point 1 0)) = L.pure 1 := rfl

theorem energy_vacancy : L.energy (space.toComposition (point 0 1)) = L.vacancy := by
  rw [energy_toComposition le_rfl (by decide), coordinate_pos one_pos, bubble]
  show L.vacancy * realSurface ((1 : ℤ) : ℝ) + ((0 : ℕ) : ℝ) * L.dissolved + 0.25 * ((0 : ℕ) : ℝ) * _ / _ = _
  rw [Int.cast_one, Nat.cast_zero, realSurface_one]
  ring

theorem energy_interstitial : L.energy (space.toComposition (point 0 (-1))) = L.interstitial := by
  rw [energy_toComposition le_rfl (by decide), coordinate_neg (by decide), Int.cast_neg, Int.cast_one,
    neg_neg, realSurface_one, mul_one]

/-! ### Steps of one defect -/

/-- One more helium atom costs its dissolution and the pressure of the others. -/
theorem bubble_succ (L : EnergyLaw) (m v : ℝ) :
    L.bubble (m + 1) v = L.bubble m v + (L.dissolved + m / (2 * v)) := by
  unfold bubble
  ring

theorem bubble_zero (L : EnergyLaw) (v : ℝ) : L.bubble 0 v = L.vacancy * realSurface v := by
  simp [bubble]

theorem natCast_mul_pred_nonneg (m : ℕ) : (0 : ℝ) ≤ m * (m - 1) := by
  cases m with
  | zero => simp
  | succ m =>
    push_cast
    rw [add_sub_cancel_right]
    positivity

theorem bubble_zero_le (hdissolved : 0 ≤ L.dissolved) {v : ℝ} (hv : 0 < v) :
    L.bubble 0 v ≤ L.bubble m v := by
  have hpressure : 0 ≤ 0.25 * m * (m - 1) / v := by
    rw [mul_assoc]
    exact div_nonneg (mul_nonneg (by norm_num) (natCast_mul_pred_nonneg m)) hv.le
  have hcost : 0 ≤ m * L.dissolved := mul_nonneg (Nat.cast_nonneg m) hdissolved
  rw [bubble_zero, bubble]
  linarith

/-- What room one more vacancy gives to the helium. -/
theorem bubble_sub_succ (L : EnergyLaw) (m : ℕ) {v : ℝ} (hv : 0 < v) : L.bubble m v - L.bubble m (v + 1) =
    m * (m - 1) / (4 * (v * (v + 1))) - L.vacancy * (realSurface (v + 1) - realSurface v) := by
  unfold bubble
  field_simp
  ring

/-- A vacancy does not leave a bubble for nothing, as the helium gets less room and there is less surface
    to the vacancies together. -/
theorem bubble_succ_lt (hvacancy : 0 < L.vacancy) {v : ℝ} (hv : 0 < v) :
    L.bubble m (v + 1) < L.vacancy + L.bubble m v := by
  have hroom : 0 ≤ m * (m - 1) / (4 * (v * (v + 1))) := by
    have := natCast_mul_pred_nonneg m
    positivity
  have hsurface := mul_lt_mul_of_pos_left (realSurface_succ_lt hv) hvacancy
  have hstep := L.bubble_sub_succ m hv
  rw [mul_sub L.vacancy] at hstep
  rw [mul_add, mul_one] at hsurface
  linarith

/-- An interstitial leaves a bubble with one more vacancy. The pressure of up to `4 v + 5` helium atoms falls by
    nine at most, which is less than the interstitial costs. -/
theorem bubble_lt_succ (hvacancy : 0 < L.vacancy) (hinterstitial : 9 < L.interstitial) {v : ℝ} (hv : 1 ≤ v)
    (hm : (m : ℝ) ≤ 4 * v + 5) : L.bubble m v < L.interstitial + L.bubble m (v + 1) := by
  have hpos : 0 < v := by linarith
  have hsurface := mul_pos hvacancy (sub_pos.mpr (realSurface_lt_succ hpos.le))
  have hroom : m * (m - 1) / (4 * (v * (v + 1))) ≤ 9 := by
    rw [div_le_iff₀ (by positivity)]
    have hm0 : (0 : ℝ) ≤ m := Nat.cast_nonneg m
    nlinarith
  have hstep := L.bubble_sub_succ m hpos
  linarith

/-! ### What binds -/

/-- The energies of a metal bind what its compositions shed, as far as the defect space reaches. Where bubbles
    shed interstitials, these are more expensive than the pressure in the fullest bubble. -/
structure Binds (L : EnergyLaw) (d : DefectSpace) (trap : Bool) : Prop where
  vacancy_pos : 0 < L.vacancy
  interstitial_pos : 0 < L.interstitial
  dissolved_nonneg : 0 ≤ L.dissolved
  crowded : ∀ m v : ℕ, 1 ≤ v → (m : ℤ) < 4 * v + d.intercept → L.dissolved + m / (2 * v) < L.pure 1
  pure_succ_lt : ∀ m : ℕ, 1 ≤ m → (m : ℤ) < d.maxHelium → L.pure (m + 1) < L.pure 1 + L.pure m
  bubble_lt : ∀ m : ℕ, 1 ≤ m → (m : ℤ) ≤ d.maxHelium → (m : ℤ) ≤ 4 + d.intercept →
    L.bubble m 1 < L.vacancy + L.pure m
  trapped : trap = true → 9 < L.interstitial ∧ d.intercept ≤ 5

/-- What the steps of one defect know of the space: bubbles hold at most four helium atoms for each vacancy and
    a constant number besides, and the pure clusters are counted by words. -/
structure Spacious (d : DefectSpace) : Prop where
  maxHelium_lt : d.maxHelium < 4294967296
  maxVacancy : 0 ≤ d.maxVacancy ∧ d.maxVacancy < 4294967296
  maxInterstitial : 0 ≤ d.maxInterstitial ∧ d.maxInterstitial < 4294967296
  slope_eq : d.slope = 4
  intercept_nonneg : 0 ≤ d.intercept

variable {d : DefectSpace} {trap : Bool}

theorem Spacious.cases (S : Spacious d) (hx : d.isAdmissible (point h x) = true) :
    0 ≤ h ∧ (x < 0 ∧ h = 0 ∨ x = 0 ∧ 1 ≤ h ∧ h ≤ d.maxHelium ∨ 0 < x ∧ h ≤ 4 * x + d.intercept) := by
  obtain ⟨hh, -, hcolumn⟩ := (isAdmissible_point S.maxInterstitial.1 S.maxVacancy.1).mp hx
  have hslope := S.slope_eq
  have hintercept := S.intercept_nonneg
  refine ⟨hh, ?_⟩
  rcases lt_trichotomy x 0 with hneg | rfl | hpos
  · rw [column, if_neg hneg.ne, if_pos hneg] at hcolumn
    exact .inl ⟨hneg, le_antisymm hcolumn.2 hcolumn.1⟩
  · exact .inr (.inl ⟨rfl, hcolumn⟩)
  · rw [column, if_neg hpos.ne', if_neg hpos.not_gt] at hcolumn
    have hcap : h ≤ d.heliumCap x := hcolumn.2
    rw [heliumCap, hslope] at hcap
    refine .inr (.inr ⟨hpos, ?_⟩)
    split_ifs at hcap <;> omega

theorem natCast_toNat (hx : 0 ≤ x) : ((x.toNat : ℕ) : ℝ) = x := by
  exact_mod_cast congrArg (Int.cast : ℤ → ℝ) (Int.toNat_of_nonneg hx)

namespace Binds

variable (B : L.Binds d trap) (S : Spacious d)
include B S

/-- Helium is bound by bubbles and by pure helium. -/
theorem helium (hx : d.isAdmissible (point h x) = true) (hrest : d.isAdmissible (point (h - 1) x) = true) :
    L.coordinate (word h) x < L.pure 1 + L.coordinate (word (h - 1)) x := by
  obtain ⟨hh, hcases⟩ := S.cases hx
  obtain ⟨hh', -⟩ := S.cases hrest
  rcases hcases with ⟨-, rfl⟩ | ⟨rfl, hone, hmax⟩ | ⟨hpos, hcap⟩
  · omega
  · have hmore := (S.cases hrest).2
    have hlt := S.maxHelium_lt
    rcases word_pred hone with hword | hword
    · have hpred := word_of_lt (h := h - 1) (by omega) (by omega)
      rw [hword, coordinate_zero, coordinate_zero]
      exact B.pure_succ_lt _ (by omega) (by omega)
    · have := word_of_lt hh (by omega)
      omega
  · rw [coordinate_pos hpos, coordinate_pos hpos]
    have hreal : (0 : ℝ) < x := Int.cast_pos.mpr hpos
    rcases word_pred (h := h) (by omega) with hword | hword
    · have hle := word_le hh
      have hcrowded := B.crowded (word (h - 1)) x.toNat (by omega) (by omega)
      rw [natCast_toNat hpos.le] at hcrowded
      rw [hword, Nat.cast_succ, bubble_succ]
      linarith
    · -- The count of the parent has started again at zero, so it is the remainder that is counted as full.
      have hzero := bubble_zero_le (m := word (h - 1)) B.dissolved_nonneg hreal
      have hone := B.crowded 0 1 le_rfl (by have := S.intercept_nonneg; omega)
      have hdissolved := B.dissolved_nonneg
      rw [Nat.cast_zero, zero_div, add_zero] at hone
      rw [hword, Nat.cast_zero]
      linarith

/-- A vacancy is bound by other vacancies and by helium. -/
theorem vacancy (hx : d.isAdmissible (point h x) = true) (hrest : d.isAdmissible (point h (x - 1)) = true) :
    L.coordinate (word h) x < L.vacancy + L.coordinate (word h) (x - 1) := by
  obtain ⟨hh, hcases⟩ := S.cases hx
  obtain ⟨-, hrest⟩ := S.cases hrest
  rcases hcases with ⟨hneg, -⟩ | ⟨rfl, hone, -⟩ | ⟨hpos, hcap⟩
  · -- An interstitial cluster would grow.
    have hreal : (0 : ℝ) ≤ -x := by exact_mod_cast (Int.neg_pos_of_neg hneg).le
    have hgrows := mul_lt_mul_of_pos_left (realSurface_lt_succ hreal) B.interstitial_pos
    have hvacancy := B.vacancy_pos
    rw [coordinate_neg hneg, coordinate_neg (by omega), show (-((x - 1 : ℤ) : ℝ)) = -x + 1 by push_cast; ring]
    linarith
  · omega
  · obtain rfl | hmore : x = 1 ∨ 1 < x := by omega
    · rcases hrest with ⟨hneg, -⟩ | ⟨-, hone, hmax⟩ | ⟨hpos', -⟩
      · omega
      · have hword := word_of_lt hh (lt_of_le_of_lt hmax S.maxHelium_lt)
        rw [coordinate_pos hpos, show (1 : ℤ) - 1 = 0 from rfl, coordinate_zero, Int.cast_one]
        exact B.bubble_lt _ (by omega) (by omega) (by omega)
      · omega
    · have hreal : (0 : ℝ) < x - 1 := by
        have : (1 : ℝ) < x := by exact_mod_cast hmore
        linarith
      have hstep := bubble_succ_lt (m := word h) B.vacancy_pos hreal
      rw [sub_add_cancel] at hstep
      rw [coordinate_pos hpos, coordinate_pos (by omega), Int.cast_sub, Int.cast_one]
      exact hstep

/-- An interstitial is bound by other interstitials. Where a bubble sheds one, it keeps a vacancy. -/
theorem interstitial (hx : d.isAdmissible (point h x) = true)
    (hrest : d.isAdmissible (point h (x + 1)) = true) (hcase : x < 0 ∨ trap = true ∧ 0 < x) :
    L.coordinate (word h) x < L.interstitial + L.coordinate (word h) (x + 1) := by
  obtain ⟨hh, hcases⟩ := S.cases hx
  obtain ⟨-, hrest⟩ := S.cases hrest
  rcases hcase with hneg | ⟨htrap, hpos⟩
  · have hmore : x + 1 < 0 := by omega
    have hreal : (0 : ℝ) < -x - 1 := by
      have : ((x + 1 : ℤ) : ℝ) < 0 := by exact_mod_cast hmore
      push_cast at this
      linarith
    have hstep := mul_lt_mul_of_pos_left (realSurface_succ_lt hreal) B.interstitial_pos
    rw [sub_add_cancel, mul_add, mul_one] at hstep
    rw [coordinate_neg hneg, coordinate_neg hmore, show (-((x + 1 : ℤ) : ℝ)) = -x - 1 by push_cast; ring]
    exact hstep
  · obtain ⟨hexpensive, hintercept⟩ := B.trapped htrap
    have hle := word_le hh
    have hcap : (word h : ℤ) ≤ 4 * x + 5 := by omega
    have hstep := bubble_lt_succ (m := word h) (v := x) B.vacancy_pos hexpensive (by exact_mod_cast hpos)
      (by exact_mod_cast hcap)
    rw [coordinate_pos hpos, coordinate_pos (by omega), Int.cast_add, Int.cast_one]
    exact hstep

end Binds
end EnergyLaw

theorem Material.IsMetal.spacious [Analytic ℝ] {p : NetworkParams ℝ} {m : Material ℝ} {d : DefectSpace}
    (hm : m.IsMetal p d) : EnergyLaw.Spacious d where
  maxHelium_lt := by
    rw [hm.maxHelium_eq]
    exact Int.ofNat_lt.mpr p.maxHelium.toNat_lt
  maxVacancy := by
    rw [hm.maxVacancy_eq]
    exact ⟨Int.natCast_nonneg _, Int.ofNat_lt.mpr p.maxVacancy.toNat_lt⟩
  maxInterstitial := by
    rw [hm.maxInterstitial_eq]
    exact ⟨Int.natCast_nonneg _, Int.ofNat_lt.mpr p.maxInterstitial.toNat_lt⟩
  slope_eq := hm.slope_eq
  intercept_nonneg := hm.intercept_nonneg

open RateLaw EnergyLaw

/-! ### The materials -/

namespace Tungsten

/-- The energies of tungsten, with an energy for helium clusters beyond the table. -/
noncomputable def energyLaw (top : ℝ) : EnergyLaw where
  vacancy := 3.6
  interstitial := 10
  dissolved := 6.15 - 4.6
  pure m := if m = 0 then 0 else ((heliumFormation : List ℝ)[m - 1]?).getD top

theorem formationEnergy_eq [A : Analytic ℝ] {top : ℝ} (hA : A = .real top) (c : Composition) :
    formationEnergy c = (energyLaw top).energy c := by
  rw [formationEnergy, surface_eq_realSurface ⟨top, hA⟩, surface_eq_realSurface ⟨top, hA⟩]
  subst hA
  show (if 0 < c.vacancy then
      3.6 * realSurface (c.vacancy.toNat : ℤ) + ((c.helium.toNat : ℤ) : ℝ) * (6.15 - 4.6) +
        0.25 * ((c.helium.toNat : ℤ) : ℝ) * ((c.helium.toNat : ℤ) - 1) / (c.vacancy.toNat : ℤ)
    else if 0 < c.interstitial then 10.0 * realSurface (c.interstitial.toNat : ℤ)
    else if c.helium.toNat = 0 then 0 else ((heliumFormation : List ℝ)[c.helium.toNat - 1]?).getD top) = _
  simp only [Int.cast_natCast]
  unfold energy bubble energyLaw
  norm_num

theorem heliumFormation_eq :
    (heliumFormation : List ℝ) = [6.15, 11.44, 16.35, 21, 26.1, 30.24, 34.93, 38.8] := by
  show ([6.15, 11.44, 16.35, 21.0, 26.1, 30.24, 34.93, 38.80] : List ℝ) = _
  norm_num

theorem binds {α : Type} (top : ℝ) {p : NetworkParams α} (hmax : p.maxHelium.toNat ≤ 8) :
    (energyLaw top).Binds (defects p) true := by
  have htable : (defects p).maxHelium ≤ 8 := Int.ofNat_le.mpr hmax
  refine ⟨by norm_num [energyLaw], by norm_num [energyLaw], by norm_num [energyLaw], ?_, ?_, ?_, ?_⟩
  · intro m v hv hm
    have hv' : (1 : ℝ) ≤ v := by exact_mod_cast hv
    have hm' : (m : ℝ) ≤ 4 * v + 4 := by
      have : (m : ℤ) ≤ 4 * v + 4 := Int.le_of_lt_add_one hm
      exact_mod_cast this
    have hpressure : (m : ℝ) / (2 * v) ≤ 4 := by
      rw [div_le_iff₀ (by positivity)]
      linarith
    norm_num [energyLaw, heliumFormation_eq]
    linarith
  · intro m hm hlt
    have hlt : m < 8 := by omega
    interval_cases m <;> norm_num [energyLaw, heliumFormation_eq]
  · intro m hm hle _
    have hle : m ≤ 8 := by omega
    rw [bubble, realSurface_one]
    interval_cases m <;> norm_num [energyLaw, heliumFormation_eq]
  · exact fun _ => ⟨by norm_num [energyLaw], le_rfl⟩

end Tungsten

namespace Iron

noncomputable def energyLaw : EnergyLaw where
  vacancy := 1.9
  interstitial := 3.52
  dissolved := 4.08 - 2.3
  pure m := 4.08 * realSurface m

theorem formationEnergy_eq [A : Analytic ℝ] (hA : A.IsReal) (c : Composition) :
    formationEnergy c = energyLaw.energy c := by
  rw [formationEnergy, surface_eq_realSurface hA, surface_eq_realSurface hA, surface_eq_realSurface hA]
  obtain ⟨top, rfl⟩ := hA
  show (if 0 < c.vacancy then
      1.9 * realSurface (c.vacancy.toNat : ℤ) + ((c.helium.toNat : ℤ) : ℝ) * (4.08 - 2.3) +
        0.25 * ((c.helium.toNat : ℤ) : ℝ) * ((c.helium.toNat : ℤ) - 1) / (c.vacancy.toNat : ℤ)
    else if 0 < c.interstitial then 3.52 * realSurface (c.interstitial.toNat : ℤ)
    else 4.08 * realSurface (c.helium.toNat : ℤ)) = _
  simp only [Int.cast_natCast]
  rfl

theorem binds {α : Type} (p : NetworkParams α) : energyLaw.Binds (defects p) false := by
  have hone : energyLaw.pure 1 = 4.08 := by
    show 4.08 * realSurface ((1 : ℕ) : ℝ) = 4.08
    rw [Nat.cast_one, realSurface_one, mul_one]
  refine ⟨by norm_num [energyLaw], by norm_num [energyLaw], by norm_num [energyLaw], ?_, ?_, ?_,
    fun h => nomatch h⟩
  · intro m v hv hm
    have hv' : (1 : ℝ) ≤ v := by exact_mod_cast hv
    have hm' : (m : ℝ) ≤ 4 * v := by
      have : (m : ℤ) ≤ 4 * v + 0 := hm.le
      exact_mod_cast this
    have hpressure : (m : ℝ) / (2 * v) ≤ 2 := by
      rw [div_le_iff₀ (by positivity)]
      linarith
    rw [hone]
    norm_num [energyLaw]
    linarith
  · intro m hm _
    have hpos : (0 : ℝ) < m := by exact_mod_cast hm
    have hstep := realSurface_succ_lt hpos
    rw [hone]
    show 4.08 * realSurface ((m + 1 : ℕ) : ℝ) < 4.08 + 4.08 * realSurface m
    rw [Nat.cast_succ]
    linarith
  · intro m hm _ hle
    have hle : (m : ℤ) ≤ 4 + 0 := hle
    have hle : m ≤ 4 := by omega
    -- The surfaces of two, three and four atoms, from below.
    have htwo : 1.5 < realSurface 2 := lt_realSurface (by norm_num) (by norm_num)
    have hthree : 2 < realSurface 3 := lt_realSurface (by norm_num) (by norm_num)
    have hfour : 2.5 < realSurface 4 := lt_realSurface (by norm_num) (by norm_num)
    unfold bubble
    show 1.9 * realSurface 1 + m * (4.08 - 2.3) + 0.25 * m * (m - 1) / 1 < 1.9 + 4.08 * realSurface m
    rw [realSurface_one]
    interval_cases m <;> norm_num [realSurface_one] <;> linarith

end Iron

namespace Xenon

theorem formationEnergy_eq [A : Analytic ℝ] (hA : A.IsReal) {k : ℤ} (hk : 1 ≤ k) (hfit : k < 4294967296) :
    (formationEnergy (space.toComposition (point k)) : ℝ) = 7 * realSurface k := by
  have hcount : ((UInt32.ofNat k.natAbs).toNat : ℤ) = k := by
    have hword : k.natAbs < 4294967296 := by omega
    rw [UInt32.toNat_ofNat_of_lt' hword]
    omega
  rw [formationEnergy, surface_eq_realSurface hA, toComposition_point hk]
  obtain ⟨top, rfl⟩ := hA
  show 7.0 * realSurface (((UInt32.ofNat k.natAbs).toNat : ℤ) : ℝ) = _
  rw [hcount]
  norm_num

end Xenon

end ClusterDynamics
