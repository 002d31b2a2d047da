import ClusterDynamics.Proofs.Activation
import ClusterDynamics.Proofs.BindingEnergy
import ClusterDynamics.Proofs.TwinRates

/-! Growth of rate constants with temperature. One of the two clusters of a production moves, so its
    diffusion coefficient is activated, and that of the other one does not fall. A dissociation multiplies the
    rate of its reverse by a further activated factor, below one as the binding energy is positive. So over
    the reals all rate constants are positive and increase, and detailed balance bounds each dissociation by
    its reverse. -/

namespace ClusterDynamics
open DefectSpace RateLaw

/-! ### Materials -/

/-- What rate constants ask of a material: nothing moves backwards, migration costs energy, and all that is
    admissible has a size. -/
structure Material.Kinetic (m : Material ℝ) (admits : Point → Bool) : Prop where
  factor_nonneg : ∀ c, 0 ≤ m.diffusionFactor c
  migration_pos : ∀ c e, m.migrationEnergy c = some e → 0 < e
  core_nonneg : 0 ≤ m.coreRadius
  volume_pos : 0 < m.atomicVolume
  radius_pos : ∀ x, admits x = true → 0 < m.reactionRadius (m.space.toComposition x)

/-- An admissible composition of a metal has some defect, even if its helium is no word. -/
theorem DefectSpace.exists_defect {d : DefectSpace} (S : EnergyLaw.Spacious d) {x : Point}
    (hx : d.isAdmissible x = true) : 0 < (space.toComposition x).vacancy ∨
      0 < (space.toComposition x).interstitial ∨ 0 < (space.toComposition x).helium := by
  have hpos : ∀ {k : ℕ}, 0 < k → k < 4294967296 → 0 < UInt32.ofNat k := by
    intro k hk hfit
    rw [UInt32.lt_iff_toNat_lt, UInt32.toNat_ofNat_of_lt' hfit]
    exact hk
  obtain ⟨h, x, rfl⟩ : ∃ h z, x = point h z := ⟨_, _, eq_point_of_isAdmissible hx⟩
  obtain ⟨-, hrange, -⟩ := (isAdmissible_point S.maxInterstitial.1 S.maxVacancy.1).mp hx
  have hmaxI := S.maxInterstitial.2
  have hmaxV := S.maxVacancy.2
  have hmaxH := S.maxHelium_lt
  obtain ⟨hh, hcases⟩ := S.cases hx
  rw [toComposition_point hh]
  rcases lt_trichotomy x 0 with hneg | rfl | hxpos
  · rw [if_pos hneg]
    exact .inr (.inl (hpos (by omega) (by omega)))
  · exact .inr (.inr (hpos (by omega) (by omega)))
  · rw [if_neg hxpos.not_gt]
    exact .inl (hpos (by omega) (by omega))

theorem getD_nonneg {l : List ℝ} (h : ∀ e ∈ l, 0 < e) (k : ℕ) : 0 ≤ l[k]?.getD 0 := by
  cases hk : l[k]? with
  | none => exact le_rfl
  | some e => exact (h e (List.mem_of_getElem? hk)).le

namespace Tungsten

variable [A : Analytic ℝ]

/-- All entries of the tables are positive. -/
theorem tables_pos (hA : A.IsReal) : (∀ e ∈ (heliumMigration : List ℝ), 0 < e) ∧ (∀ e ∈ (heliumDiffusion : List ℝ), 0 < e) ∧
    (∀ e ∈ (interstitialMigration : List ℝ), 0 < e) ∧ ∀ e ∈ (vacancyMigration : List ℝ), 0 < e := by
  obtain ⟨top, rfl⟩ := hA
  refine ⟨?_, ?_, ?_, ?_⟩
  · show ∀ e ∈ ([0.13, 0.20, 0.25, 0.20, 0.12, 0.30, 0.40] : List ℝ), 0 < e
    norm_num
  · show ∀ e ∈ ([2.95e10, 3.24e10, 2.26e10, 1.68e10, 5.2e9, 1.2e10, 1.0e10] : List ℝ), 0 < e
    norm_num
  · show ∀ e ∈ ([0.01, 0.02, 0.03, 0.04, 0.05] : List ℝ), 0 < e
    norm_num
  · show ∀ e ∈ ([1.30] : List ℝ), 0 < e
    norm_num

theorem kinetic (hA : A.IsReal) (p : NetworkParams ℝ) :
    (Tungsten.material p).Kinetic (defects p).isAdmissible := by
  have hmetal := Tungsten.isMetal p
  obtain ⟨hmigration, hdiffusion, hinterstitial, hvacancy⟩ := tables_pos hA
  refine ⟨fun c => ?_, fun c e he => ?_, ?_, ?_, fun x hx => ?_⟩
  · have hlist := getD_nonneg hdiffusion (c.total - 1)
    have hloop : (0 : ℝ) ≤ 8.8e10 / ((c.total : ℤ) : ℝ) :=
      div_nonneg (by norm_num) (Int.cast_nonneg (Int.natCast_nonneg _))
    change 0 ≤ diffusionFactor c
    obtain ⟨top, rfl⟩ := hA
    unfold diffusionFactor
    split_ifs
    · exact le_rfl
    · exact hlist
    · exact hloop
    · exact le_rfl
    · exact (by norm_num : (0 : ℝ) ≤ 1.8e12)
    · exact le_rfl
  · change migrationEnergy c = some e at he
    unfold migrationEnergy at he
    split_ifs at he
    · exact hmigration e (List.mem_of_getElem? he)
    · exact hinterstitial e (List.mem_of_getElem? he)
    · exact hvacancy e (List.mem_of_getElem? he)
  · obtain ⟨top, rfl⟩ := hA
    exact le_rfl
  · obtain ⟨top, rfl⟩ := hA
    show (0 : ℝ) < 0.5 * (0.317 * (0.317 * 0.317))
    norm_num
  · refine clusterRadius_pos hA ?_ (DefectSpace.exists_defect hmetal.spacious hx)
    obtain ⟨top, rfl⟩ := hA
    exact (by norm_num : (0 : ℝ) < 0.317)

end Tungsten

namespace Iron

variable [A : Analytic ℝ]

theorem kinetic (hA : A.IsReal) (p : NetworkParams ℝ) :
    (Iron.material p).Kinetic (defects p).isAdmissible := by
  have hmetal := Iron.isMetal p
  refine ⟨fun c => ?_, fun c e he => ?_, ?_, ?_, fun x hx => ?_⟩
  · change 0 ≤ diffusionFactor c
    obtain ⟨top, rfl⟩ := hA
    unfold diffusionFactor
    split
    · exact (by norm_num : (0 : ℝ) ≤ 1.0e11)
    · exact (by norm_num : (0 : ℝ) ≤ 1.0e12)
    · exact (by norm_num : (0 : ℝ) ≤ 1.0e11)
    · exact le_rfl
  · obtain ⟨k, -, rfl⟩ := Option.map_eq_some_iff.mp he
    obtain ⟨top, rfl⟩ := hA
    cases k with
    | helium => exact (by norm_num : (0 : ℝ) < 0.06)
    | vacancy => exact (by norm_num : (0 : ℝ) < 0.67)
    | interstitial => exact (by norm_num : (0 : ℝ) < 0.34)
  · obtain ⟨top, rfl⟩ := hA
    exact (by norm_num : (0 : ℝ) ≤ 0.5 * 0.287)
  · obtain ⟨top, rfl⟩ := hA
    exact (by norm_num : (0 : ℝ) < 0.5 * (0.287 * (0.287 * 0.287)))
  · refine clusterRadius_pos hA ?_ (DefectSpace.exists_defect hmetal.spacious hx)
    obtain ⟨top, rfl⟩ := hA
    exact (by norm_num : (0 : ℝ) < 0.287)

end Iron

namespace Xenon

variable [A : Analytic ℝ]

theorem kinetic (hA : A.IsReal) (p : NetworkParams ℝ) :
    (Xenon.material p).Kinetic (isAdmissible p.maxXenon.toNat) := by
  refine ⟨fun c => ?_, fun c e he => ?_, ?_, ?_, fun x hx => ?_⟩
  · obtain ⟨top, rfl⟩ := hA
    change (0 : ℝ) ≤ if c.xenon = 1 then 7.6e8 else 0
    split_ifs
    · norm_num
    · exact le_rfl
  · obtain ⟨top, rfl⟩ := hA
    change (if c.xenon = 1 then some (3.04 : ℝ) else none) = some e at he
    split_ifs at he
    cases he
    norm_num
  · obtain ⟨top, rfl⟩ := hA
    exact le_rfl
  · obtain ⟨top, rfl⟩ := hA
    exact (by norm_num : (0 : ℝ) < 0.0409)
  · obtain ⟨k, hk, rfl⟩ := isAdmissible_iff.mp hx
    have hlt := p.maxXenon.toNat_lt
    have hword : k.natAbs < 4294967296 := by omega
    have hatoms : 0 < (UInt32.ofNat k.natAbs).toNat := by
      rw [UInt32.toNat_ofNat_of_lt' hword]
      omega
    change 0 < sphereRadius (Scalar.ofNat (space.toComposition (point k)).xenon.toNat) atomicVolume
    rw [toComposition_point hk.1]
    refine sphereRadius_pos hA ?_ ?_
    · obtain ⟨top, rfl⟩ := hA
      exact Int.cast_pos.mpr (Int.natCast_pos.mpr hatoms)
    · obtain ⟨top, rfl⟩ := hA
      exact (by norm_num : (0 : ℝ) < 0.0409)

end Xenon

theorem Material.kinetic_of_chooseMaterial [A : Analytic ℝ] (hA : A.IsReal) {p : NetworkParams ℝ}
    {m : Material ℝ} (h : p.chooseMaterial = .ok m) : m.Kinetic p.admits := by
  obtain ⟨hkind, rfl⟩ | ⟨hkind, rfl⟩ | ⟨hkind, rfl⟩ := NetworkParams.material_of_chooseMaterial h
  · rw [NetworkParams.admits_tungsten hkind]
    exact Tungsten.kinetic hA p
  · rw [NetworkParams.admits_iron hkind]
    exact Iron.kinetic hA p
  · rw [NetworkParams.admits_xenon hkind]
    exact Xenon.kinetic hA p

/-! ### Networks -/

namespace Network

variable [A : Analytic ℝ] {n : Network ℝ} {params : NetworkParams ℝ} {p : Partition} {a c : Cluster ℝ}

theorem Generated.reactionRadius_pos (G : n.Generated p) (hchoice : params.chooseMaterial = .ok n.material)
    (hn : n.Built) (K : n.material.Kinetic params.admits) (hc : c ∈ n.clusters) :
    0 < c.properties.reactionRadius := by
  have hadmits := (Material.selects_of_chooseMaterial hchoice).mp (G.selects hc) _
    (Region.contains_anchor (hn.nonempty c hc))
  obtain ⟨-, hcomposition, hproperties⟩ := G.of_mem_clusters hc
  have hradius := K.radius_pos _ hadmits
  rw [← hcomposition] at hradius
  rw [hproperties, Material.seedProperties]
  split_ifs
  · exact hradius
  · exact hradius

theorem Generated.factor_nonneg (hA : A.IsReal) (G : n.Generated p) (K : n.material.Kinetic params.admits)
    (hc : c ∈ n.clusters) : 0 ≤ c.properties.diffusionFactor := by
  rw [(G.of_mem_clusters hc).2.2, Material.seedProperties]
  split_ifs
  · exact K.factor_nonneg _
  · obtain ⟨top, rfl⟩ := hA
    exact le_rfl

theorem Generated.migration_pos (G : n.Generated p) (K : n.material.Kinetic params.admits)
    (hc : c ∈ n.clusters) {e : ℝ} (he : c.properties.migrationEnergy = some e) : 0 < e := by
  rw [(G.of_mem_clusters hc).2.2, Material.seedProperties] at he
  split_ifs at he
  · exact K.migration_pos _ e he
  · cases he

/-- The diffusion coefficient of a cluster at a temperature. -/
noncomputable def diffusionAt (c : Cluster ℝ) (T : ℝ) : ℝ :=
  RateLaw.diffusion c.properties.diffusionFactor c.properties.migrationEnergy T

theorem Generated.sustained_diffusionAt (hA : A.IsReal) (G : n.Generated p)
    (K : n.material.Kinetic params.admits) (hc : c ∈ n.clusters) : Sustained (diffusionAt c) :=
  RateLaw.sustained_diffusion hA (G.factor_nonneg hA K hc) fun _ he => G.migration_pos K hc he

theorem Generated.activated_diffusionAt (hA : A.IsReal) (G : n.Generated p)
    (K : n.material.Kinetic params.admits) (hc : c ∈ n.clusters) (hmobile : c.isMobile = true) :
    Activated (diffusionAt c) := by
  obtain ⟨hfactor, hfinite⟩ := Bool.and_eq_true_iff.mp hmobile
  obtain ⟨e, he⟩ : ∃ e, c.properties.migrationEnergy = some e := by
    cases he : c.properties.migrationEnergy with
    | none =>
      rw [he] at hfinite
      cases hfinite
    | some e => exact ⟨e, rfl⟩
  have hpos : 0 < c.properties.diffusionFactor := by
    have h := of_decide_eq_true hfactor
    obtain ⟨top, rfl⟩ := hA
    exact h
  unfold diffusionAt
  rw [he]
  exact RateLaw.activated_diffusion hA hpos (G.migration_pos K hc he)

/-- The rate constant of a production is activated. -/
theorem Generated.exists_production (hA : A.IsReal) (G : n.Generated p)
    (hchoice : params.chooseMaterial = .ok n.material) (hn : n.Built)
    (K : n.material.Kinetic params.admits) {i first second : ℕ} (hi : n.Combines i first second) :
    ∃ f, Activated f ∧ ∀ {T k}, RateConstants.compute n T = .ok k → k.rate i = f T := by
  obtain ⟨e, he, -⟩ := hn.combines_iff.mp hi
  obtain ⟨a, ha, c, hc, -, rfl⟩ := of_mem_productions (List.mem_of_getElem? he)
  have hcombines : n.Combines i a.id c.id := hn.combines_iff.mpr ⟨_, he, rfl⟩
  have hcomm : Scalar.AddComm ℝ := by
    obtain ⟨top, rfl⟩ := hA
    exact add_comm
  refine ⟨fun T => RateLaw.production a.properties.reactionRadius c.properties.reactionRadius
    n.material.coreRadius (diffusionAt a T) (diffusionAt c T), ?_, fun hk =>
      RateConstants.rate_of_combines hcomm hn.sound hk ha hc hcombines⟩
  refine RateLaw.activated_production hA (G.reactionRadius_pos hchoice hn K ha)
    (G.reactionRadius_pos hchoice hn K hc) K.core_nonneg ?_
  rcases (hn.reactive_of_combines ha hc hcombines).mobile with hmobile | hmobile
  · exact .inl ⟨G.activated_diffusionAt hA K ha hmobile, G.sustained_diffusionAt hA K hc⟩
  · exact .inr ⟨G.sustained_diffusionAt hA K ha, G.activated_diffusionAt hA K hc hmobile⟩

/-- With dissociation the rate constants of all reactions are activated, and that of a dissociation stays below
    the rate at which its parts meet in one atomic volume. -/
theorem Generated.exists_rate (hA : A.IsReal) (G : n.Generated p)
    (hchoice : params.chooseMaterial = .ok n.material) (hn : n.Built)
    (hd : n.material.dissociation = true) (K : n.material.Kinetic params.admits)
    (hbound : ∀ {i parent first second reverse : ℕ} {energy : ℝ},
      n.reactions[i]? = some (.dissociation parent first second reverse energy) → 0 < energy)
    {i : ℕ} (hi : i < n.reactions.size) :
    ∃ f, Activated f ∧ (∀ {T k}, RateConstants.compute n T = .ok k → k.rate i = f T) ∧
      ∀ {parent first second reverse energy},
        n.reactions[i]? = some (.dissociation parent first second reverse energy) →
          ∀ {T k}, 0 < T → RateConstants.compute n T = .ok k →
            k.rate i < k.rate reverse / n.material.atomicVolume := by
  cases hreaction : n.reactions[i] with
  | production first second =>
    have hsome := Array.getElem?_eq_some_iff.mpr ⟨hi, hreaction⟩
    obtain ⟨f, hf, hrate⟩ := G.exists_production hA hchoice hn K ⟨first, second, hsome, rfl⟩
    refine ⟨f, hf, hrate, fun h => ?_⟩
    rw [hsome] at h
    cases h
  | dissociation parent first second reverse energy =>
    have hsome := Array.getElem?_eq_some_iff.mpr ⟨hi, hreaction⟩
    have hreverse := (hn.combines_reverse hsome).1
    obtain ⟨f, hf, hrate⟩ := G.exists_production hA hchoice hn K hreverse
    have henergy := hbound hsome
    have hequal : ∀ {T k}, RateConstants.compute n T = .ok k →
        k.rate i = RateLaw.dissociation (f T) energy n.material.atomicVolume T := by
      intro T k hk
      rw [RateConstants.rate_dissociation hk hd hsome hreverse, hrate hk]
    refine ⟨_, RateLaw.activated_dissociation hA K.volume_pos henergy hf, hequal, ?_⟩
    intro parent' first' second' reverse' energy' h T k hT hk
    rw [hsome] at h
    cases h
    rw [hequal hk, hrate hk]
    exact RateLaw.dissociation_lt hA K.volume_pos henergy (hf.pos hT) hT

/-- In every network generated with dissociation, over the reals: dissociations cost energy, every rate constant
    is positive and increases with the temperature, and detailed balance keeps a dissociation below its
    reverse. -/
theorem rates_increase_of_ofParams (hA : A.IsReal) (h : ofParams params = .ok n)
    (hd : params.dissociation = true) :
    (∀ (i parent first second reverse : ℕ) (energy : ℝ),
      n.reactions[i]? = some (.dissociation parent first second reverse energy) → 0 < energy) ∧
    ∀ T₁ T₂ : ℝ, 0 < T₁ → T₁ < T₂ → ∃ k₁ k₂, RateConstants.compute n T₁ = .ok k₁ ∧
      RateConstants.compute n T₂ = .ok k₂ ∧
      (∀ i < n.reactions.size, 0 < k₁.rate i ∧ k₁.rate i < k₂.rate i) ∧
      ∀ (i parent first second reverse : ℕ) (energy : ℝ),
        n.reactions[i]? = some (.dissociation parent first second reverse energy) →
          k₁.rate i < k₁.rate reverse / n.material.atomicVolume := by
  obtain ⟨hn, hchoice, p, G⟩ := generated_of_ofParams h
  have K := Material.kinetic_of_chooseMaterial hA hchoice
  have hdissociation := (Material.dissociation_of_chooseMaterial hchoice).trans hd
  have hbound : ∀ {i parent first second reverse : ℕ} {energy : ℝ},
      n.reactions[i]? = some (.dissociation parent first second reverse energy) → 0 < energy :=
    fun hi => bindingEnergy_pos_of_ofParams hA h hi
  have hcompute : ∀ {T : ℝ}, 0 < T → ∃ k, RateConstants.compute n T = .ok k := by
    intro T hT
    obtain ⟨top, rfl⟩ := hA
    let _ := Analytic.real top
    exact RateConstants.exists_compute rfl hT
  refine ⟨fun _ _ _ _ _ _ hi => hbound hi, fun T₁ T₂ hpos hlt => ?_⟩
  obtain ⟨k₁, hk₁⟩ := hcompute hpos
  obtain ⟨k₂, hk₂⟩ := hcompute (hpos.trans hlt)
  refine ⟨k₁, k₂, hk₁, hk₂, fun i hi => ?_, fun i parent first second reverse energy hi => ?_⟩
  · obtain ⟨f, hf, hrate, -⟩ := G.exists_rate hA hchoice hn hdissociation K hbound hi
    rw [hrate hk₁, hrate hk₂]
    exact ⟨hf.pos hpos, hf.lt hpos hlt⟩
  · obtain ⟨hi', -⟩ := Array.getElem?_eq_some_iff.mp hi
    obtain ⟨f, -, -, hbelow⟩ := G.exists_rate hA hchoice hn hdissociation K hbound hi'
    exact hbelow hi hpos hk₁

end Network
/-! ### A full bubble -/

namespace Filled

noncomputable scoped instance : Analytic ℝ := .real 0

/-- Iron with up to four helium atoms and single vacancies. -/
noncomputable def params : NetworkParams ℝ :=
  { NetworkParams.standard with material := .iron, maxHelium := 4, maxVacancy := 1, maxInterstitial := 0 }

theorem ofParams_ok : params.chooseMaterial = .ok (Iron.material params) ∧ ∃ n, Network.ofParams params = .ok n :=
  Network.exists_ofParams_ungrouped rfl rfl (lt_irrefl (0 : ℝ)) rfl (by decide) (by decide +kernel)
    ⟨point 1 0, by decide⟩

theorem moves_vacancy : (Iron.material params).moves (.single .vacancy 1) = true := by
  have hfactor : (0 : ℝ) < 1.0e12 := by norm_num
  exact Bool.and_eq_true_iff.mpr ⟨decide_eq_true hfactor, rfl⟩

/-- The fullest bubble of one vacancy is bound, and sheds this vacancy the more often the hotter it is. -/
theorem rates_increase_bubble : ∃ n k₁ k₂, Network.ofParams params = .ok n ∧
    RateConstants.compute n 600 = .ok k₁ ∧ RateConstants.compute n 900 = .ok k₂ ∧
    ∃ P ∈ n.clusters, ∃ M ∈ n.clusters, ∃ R ∈ n.clusters, P.region.lo = point 4 1 ∧
      M.region.lo = point 0 1 ∧ R.region.lo = point 4 0 ∧ ∃ (i reverse : ℕ) (energy : ℝ),
        n.reactions[i]? = some (.dissociation P.id M.id R.id reverse energy) ∧ 0 < energy ∧
          (0 < k₁.rate i ∧ k₁.rate i < k₂.rate i) ∧ (0 < k₁.rate reverse ∧ k₁.rate reverse < k₂.rate reverse) ∧
            k₁.rate i < k₁.rate reverse / n.material.atomicVolume := by
  obtain ⟨hiron, n, hn⟩ := ofParams_ok
  obtain ⟨hbuilt, hchoice, p, G⟩ := Network.generated_of_ofParams hn
  have hmaterial : n.material = Iron.material params := Except.ok.inj (hchoice.symm.trans hiron)
  have hmetal : n.material.IsMetal params (Iron.defects params) := hmaterial ▸ Iron.isMetal params
  have hexists : ∀ {h x : ℤ}, x ≤ 1 → (Iron.defects params).isAdmissible (point h x) = true →
      ∃ c ∈ n.clusters, c.region.isUnit = true ∧ c.region.lo = point h x :=
    fun hx ha => G.exists_cluster_point hmetal hchoice hx ha
  obtain ⟨P, hP, hPunit, hPlo⟩ := hexists (h := 4) (x := 1) (by decide) (by decide)
  obtain ⟨M, hM, hMunit, hMlo⟩ := hexists (h := 0) (x := 1) (by decide) (by decide)
  obtain ⟨R, hR, hRunit, hRlo⟩ := hexists (h := 4) (x := 0) (by decide) (by decide)
  have hPc : P.composition = { helium := 4, vacancy := 1 } := by
    rw [G.composition_of_isUnit hP hPunit, hPlo, hmaterial]
    rfl
  have hMc : M.composition = .single .vacancy 1 := by
    rw [G.composition_of_isUnit hM hMunit, hMlo, hmaterial]
    rfl
  have hMsingle : M.isGrouped = false := by
    rw [hbuilt.sound.grouped M hM, hMunit]
    rfl
  have hother : M.id ≠ P.id := by
    intro hid
    rw [hbuilt.sound.eq_of_id hM hP hid, hPc] at hMc
    exact absurd hMc (by decide)
  have hlisted : M.composition ∈ n.material.monomers := by
    rw [hMc, hmaterial]
    exact List.mem_cons_of_mem _ (List.mem_cons_self ..)
  have hemits : n.material.canEmit P.composition M.composition = true := by
    rw [hPc, hMc, hmaterial]
    rfl
  have hmobile : M.isMobile = true := by
    rw [G.isMobile_of_isUnit hM hMunit, hMc, hmaterial]
    exact moves_vacancy
  obtain ⟨i, reverse, energy, hi⟩ := hbuilt.exists_dissociation_of_isMobile hP hM hR hMsingle hlisted hother
    hemits (.inl hmobile) ((Region.contains_of_isUnit hPunit).mpr rfl)
    ((Region.contains_of_isUnit hRunit).mpr (by rw [hPlo, hMlo, hRlo]; rfl))
  obtain ⟨hbound, hrates⟩ := Network.rates_increase_of_ofParams ⟨0, rfl⟩ hn rfl
  obtain ⟨k₁, k₂, hk₁, hk₂, hgrow, hbelow⟩ := hrates 600 900 (by norm_num) (by norm_num)
  obtain ⟨hlt, -⟩ := Array.getElem?_eq_some_iff.mp hi
  obtain ⟨-, hearlier⟩ := hbuilt.combines_reverse hi
  exact ⟨n, k₁, k₂, hn, hk₁, hk₂, P, hP, M, hM, R, hR, hPlo, hMlo, hRlo, i, reverse, energy, hi,
    hbound _ _ _ _ _ _ hi, hgrow i hlt, hgrow reverse (hearlier.trans hlt), hbelow _ _ _ _ _ _ hi⟩

end Filled
end ClusterDynamics
