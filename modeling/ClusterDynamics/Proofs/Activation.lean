import ClusterDynamics.Material.DefectSpace
import ClusterDynamics.Proofs.ExactScalar

/-! Rate laws over the reals, as functions of the temperature. Below a positive energy the Boltzmann factor is
    positive, increases with the temperature and stays below one; so do diffusion coefficients, encounter
    rates and dissociation rates increase that are made from it. Clusters have positive radii. -/

namespace ClusterDynamics

/-! ### Functions of temperature -/

/-- At positive temperatures the function is positive and increases. -/
structure Activated (f : ℝ → ℝ) : Prop where
  pos : ∀ {T}, 0 < T → 0 < f T
  lt : ∀ {T₁ T₂}, 0 < T₁ → T₁ < T₂ → f T₁ < f T₂

/-- At positive temperatures the function is not negative and does not fall. -/
structure Sustained (f : ℝ → ℝ) : Prop where
  nonneg : ∀ {T}, 0 < T → 0 ≤ f T
  le : ∀ {T₁ T₂}, 0 < T₁ → T₁ < T₂ → f T₁ ≤ f T₂

section
variable {f g : ℝ → ℝ} {c : ℝ}

theorem Activated.sustained (hf : Activated f) : Sustained f :=
  ⟨fun hT => (hf.pos hT).le, fun hT h => (hf.lt hT h).le⟩

theorem Sustained.zero : Sustained fun _ => 0 := ⟨fun _ => le_rfl, fun _ _ => le_rfl⟩

theorem Activated.add (hf : Activated f) (hg : Sustained g) : Activated fun T => f T + g T :=
  ⟨fun hT => add_pos_of_pos_of_nonneg (hf.pos hT) (hg.nonneg hT),
    fun hT h => add_lt_add_of_lt_of_le (hf.lt hT h) (hg.le hT h)⟩

theorem Activated.mul_left (hf : Activated f) (hc : 0 < c) : Activated fun T => c * f T :=
  ⟨fun hT => mul_pos hc (hf.pos hT), fun hT h => mul_lt_mul_of_pos_left (hf.lt hT h) hc⟩

theorem Activated.mul (hf : Activated f) (hg : Activated g) : Activated fun T => f T * g T :=
  ⟨fun hT => mul_pos (hf.pos hT) (hg.pos hT),
    fun hT h => mul_lt_mul'' (hf.lt hT h) (hg.lt hT h) (hf.pos hT).le (hg.pos hT).le⟩

theorem Activated.div_const (hf : Activated f) (hc : 0 < c) : Activated fun T => f T / c :=
  ⟨fun hT => div_pos (hf.pos hT) hc, fun hT h => div_lt_div_of_pos_right (hf.lt hT h) hc⟩

end

/-! ### Rate laws -/

namespace RateLaw

variable [A : Analytic ℝ] {factor energy T : ℝ} {migration : Option ℝ}

theorem thermalEnergy_pos (hA : A.IsReal) (hT : 0 < T) : (0 : ℝ) < thermalEnergy T := by
  obtain ⟨top, rfl⟩ := hA
  exact mul_pos (by norm_num [boltzmann] : (0 : ℝ) < 8.617333262e-5) hT

theorem thermalEnergy_lt (hA : A.IsReal) {T₁ T₂ : ℝ} (h : T₁ < T₂) :
    (thermalEnergy T₁ : ℝ) < thermalEnergy T₂ := by
  obtain ⟨top, rfl⟩ := hA
  exact mul_lt_mul_of_pos_left h (by norm_num : (0 : ℝ) < 8.617333262e-5)

/-- The Boltzmann factor of a positive energy. -/
theorem activated_exp (hA : A.IsReal) (hE : 0 < energy) :
    Activated fun T => Real.exp (-energy / thermalEnergy T) := by
  refine ⟨fun _ => Real.exp_pos _, fun {T₁ T₂} hT h => Real.exp_lt_exp.mpr ?_⟩
  rw [neg_div, neg_div, neg_lt_neg_iff]
  exact div_lt_div_of_pos_left hE (thermalEnergy_pos hA hT) (thermalEnergy_lt hA h)

theorem exp_lt_one (hA : A.IsReal) (hE : 0 < energy) (hT : 0 < T) :
    Real.exp (-energy / thermalEnergy T) < 1 := by
  rw [Real.exp_lt_one_iff, neg_div, neg_lt_zero]
  exact div_pos hE (thermalEnergy_pos hA hT)

/-- Over the reals the Arrhenius law has no exceptions, as all energies are finite. -/
theorem diffusion_some (hA : A.IsReal) :
    diffusion factor (some energy) T = factor * Real.exp (-energy / thermalEnergy T) := by
  obtain ⟨top, rfl⟩ := hA
  show (if (decide (factor = 0) || false) = true then (0 : ℝ) else factor * Real.exp (-energy / _)) = _
  by_cases hzero : factor = 0
  · rw [hzero, decide_eq_true rfl, Bool.true_or, if_pos rfl, zero_mul]
  · rw [decide_eq_false hzero, Bool.false_or, if_neg Bool.false_ne_true]

theorem activated_diffusion (hA : A.IsReal) (hfactor : 0 < factor) (hE : 0 < energy) :
    Activated fun T => diffusion factor (some energy) T := by
  simp only [diffusion_some hA]
  exact (activated_exp hA hE).mul_left hfactor

theorem sustained_diffusion (hA : A.IsReal) (hfactor : 0 ≤ factor)
    (hE : ∀ e, migration = some e → 0 < e) : Sustained fun T => diffusion factor migration T := by
  cases migration with
  | none =>
    obtain ⟨top, rfl⟩ := hA
    exact .zero
  | some energy =>
    rcases hfactor.eq_or_lt with rfl | hpos
    · simp only [diffusion_some hA, zero_mul]
      exact .zero
    · exact (activated_diffusion hA hpos (hE energy rfl)).sustained

/-- An encounter is as frequent as the one of the two that moves makes it, and more. -/
theorem activated_production (hA : A.IsReal) {radiusA radiusB core : ℝ} (hradiusA : 0 < radiusA)
    (hradiusB : 0 < radiusB) (hcore : 0 ≤ core) {f g : ℝ → ℝ}
    (h : Activated f ∧ Sustained g ∨ Sustained f ∧ Activated g) :
    Activated fun T => production radiusA radiusB core (f T) (g T) := by
  have hsum : Activated fun T => f T + g T := by
    rcases h with ⟨hf, hg⟩ | ⟨hf, hg⟩
    · exact hf.add hg
    · simp only [add_comm (f _)]
      exact hg.add hf
  have hreach : 0 < 4.0 * Real.pi * (radiusA + radiusB + core) := by
    have := Real.pi_pos
    positivity
  obtain ⟨top, rfl⟩ := hA
  exact hsum.mul_left hreach

theorem activated_dissociation (hA : A.IsReal) {volume : ℝ} (hvolume : 0 < volume) (hE : 0 < energy)
    {f : ℝ → ℝ} (hf : Activated f) : Activated fun T => dissociation (f T) energy volume T := by
  have hrate := (hf.mul (activated_exp hA hE)).div_const hvolume
  obtain ⟨top, rfl⟩ := hA
  exact hrate

/-- Detailed balance takes a bound cluster apart more rarely than its parts would meet in one atomic volume. -/
theorem dissociation_lt (hA : A.IsReal) {reverse volume : ℝ} (hvolume : 0 < volume) (hE : 0 < energy)
    (hreverse : 0 < reverse) (hT : 0 < T) : dissociation reverse energy volume T < reverse / volume := by
  have hrare := mul_lt_mul_of_pos_left (exp_lt_one hA hE hT) hreverse
  rw [mul_one] at hrare
  have hrate := div_lt_div_of_pos_right hrare hvolume
  obtain ⟨top, rfl⟩ := hA
  exact hrate

/-! ### Radii -/

theorem cbrt_eq (hA : A.IsReal) {x : ℝ} (hx : 0 ≤ x) : Analytic.cbrt x = x ^ (1 / 3 : ℝ) := by
  obtain ⟨top, rfl⟩ := hA
  exact if_pos hx

theorem cbrt_le (hA : A.IsReal) {x y : ℝ} (hx : 0 ≤ x) (hxy : x ≤ y) :
    Analytic.cbrt x ≤ Analytic.cbrt y := by
  rw [cbrt_eq hA hx, cbrt_eq hA (hx.trans hxy)]
  exact Real.rpow_le_rpow hx hxy (by norm_num)

theorem sphereRadius_pos (hA : A.IsReal) {n volume : ℝ} (hn : 0 < n) (hvolume : 0 < volume) :
    0 < sphereRadius n volume := by
  have hpi := Real.pi_pos
  have hcontent : 0 < 3.0 * n * volume / (4.0 * Real.pi) := by positivity
  have hroot := Real.rpow_pos_of_pos hcontent (1 / 3 : ℝ)
  rw [← cbrt_eq hA hcontent.le] at hroot
  obtain ⟨top, rfl⟩ := hA
  exact hroot

/-- A cluster is at least as large as one defect of its kind. -/
theorem cell_le (hA : A.IsReal) {n cell : ℝ} (hn : 1 ≤ n) (hcell : 0 < cell) :
    Analytic.cbrt (3.0 * cell / (8.0 * Real.pi)) ≤ Analytic.cbrt (3.0 * cell * n / (8.0 * Real.pi)) := by
  have hpi := Real.pi_pos
  refine cbrt_le hA (by positivity) ?_
  refine div_le_div_of_nonneg_right ?_ (by positivity)
  nlinarith

theorem loopRadius_pos (hA : A.IsReal) {n lattice : ℝ} (hn : 1 ≤ n) (hlattice : 0 < lattice) :
    0 < loopRadius n lattice := by
  have hcell : 0 < lattice * (lattice * lattice) := by positivity
  have hgrown := cell_le hA hn hcell
  have hshell : 0 < Real.sqrt 3.0 / 4.0 * lattice := by
    have : 0 < Real.sqrt 3.0 := Real.sqrt_pos.mpr (by norm_num)
    positivity
  have hradius : 0 < Real.sqrt 3.0 / 4.0 * lattice +
      Analytic.cbrt (3.0 * (lattice * (lattice * lattice)) * n / (8.0 * Real.pi)) -
        Analytic.cbrt (3.0 * (lattice * (lattice * lattice)) / (8.0 * Real.pi)) := by
    linarith
  obtain ⟨top, rfl⟩ := hA
  exact hradius

theorem heliumRadius_pos (hA : A.IsReal) {n lattice : ℝ} (hn : 1 ≤ n) (hlattice : 0 < lattice) :
    0 < heliumRadius n lattice := by
  have hcell : 0 < lattice * (lattice * lattice) := by positivity
  have hgrown := cell_le hA hn hcell
  have hradius : 0 < 0.3 +
      Analytic.cbrt (3.0 * (lattice * (lattice * lattice)) * n / (8.0 * Real.pi)) -
        Analytic.cbrt (3.0 * (lattice * (lattice * lattice)) / (8.0 * Real.pi)) := by
    linarith
  obtain ⟨top, rfl⟩ := hA
  exact hradius

/-- A defect cluster with something in it has a positive radius. -/
theorem clusterRadius_pos (hA : A.IsReal) {lattice : ℝ} (hlattice : 0 < lattice) {c : Composition}
    (hc : 0 < c.vacancy ∨ 0 < c.interstitial ∨ 0 < c.helium) : 0 < clusterRadius lattice c := by
  have hcount : ∀ {k : UInt32}, 0 < k → (1 : ℝ) ≤ Scalar.ofNat k.toNat := by
    intro k hk
    have hone : 1 ≤ k.toNat := UInt32.lt_iff_toNat_lt.mp hk
    obtain ⟨top, rfl⟩ := hA
    show (1 : ℝ) ≤ ((k.toNat : ℤ) : ℝ)
    exact_mod_cast hone
  unfold clusterRadius
  split_ifs with hvacancy hinterstitial
  · exact loopRadius_pos hA (hcount hvacancy) hlattice
  · exact loopRadius_pos hA (hcount hinterstitial) hlattice
  · refine heliumRadius_pos hA (hcount ?_) hlattice
    exact (hc.resolve_left hvacancy).resolve_left hinterstitial

end RateLaw
end ClusterDynamics
