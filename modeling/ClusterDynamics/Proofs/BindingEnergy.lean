import ClusterDynamics.Proofs.Emissions
import ClusterDynamics.Proofs.FormationEnergy
import ClusterDynamics.Proofs.Identity

/-! Binding energies. The centre of a channel is a composition of the parent, and what remains of it belongs to
    the remainder; so the binding energy of a dissociation is the cost of taking one defect out of an
    admissible composition, and this cost is positive. -/

namespace ClusterDynamics
open DefectSpace RateLaw EnergyLaw

/-! ### Channels -/

/-- The point at the centre of a channel belongs to the parent, and what remains of it to the remainder. -/
theorem Channel.Joins.contains_representative {α : Type} {P M R : Cluster α} {c : Channel}
    (hc : c.Joins P M R) : P.region.contains c.box.representative = true ∧
      R.region.contains (c.box.representative.add M.region.lo.neg) = true := by
  obtain ⟨hmeet, hbox⟩ := Region.intersection?_eq_some.mp hc.box_eq
  obtain ⟨x, hx⟩ := Region.intersects_iff_exists.mp hmeet
  have hin : c.box.contains x = true := hbox ▸ Region.contains_meet.mpr hx
  have hempty : c.box.isEmpty = false := Region.isEmpty_of_contains hin
  have hcentre := Region.contains_representative hempty
  nth_rewrite 1 [← hbox] at hcentre
  rw [Region.contains_meet, Region.contains_shifted, hc.offset_eq] at hcentre
  exact hcentre

/-- The defects of the second composition are taken from the first one. -/
theorem DefectSpace.add_neg_point (h x k y : ℤ) :
    (point h x).add (point k y).neg = point (h - k) (x - y) := by
  have hneg : (point k y).neg = point (-k) (-y) := by
    refine ext_point.mpr ⟨?_, ?_, ?_, ?_⟩ <;> rw [Point.get_neg] <;> rfl
  rw [hneg, add_point, sub_eq_add_neg, sub_eq_add_neg]

/-- A metal whose energies follow a law that binds what its compositions shed. -/
structure Material.Metallic [Analytic ℝ] (p : NetworkParams ℝ) (m : Material ℝ) (d : DefectSpace)
    (trap : Bool) (L : EnergyLaw) : Prop where
  metal : m.IsMetal p d
  sheds : m.ShedsMonomers trap
  energy_eq : ∀ c, m.formationEnergy c = L.energy c
  binds : L.Binds d trap

namespace Network

variable [A : Analytic ℝ] {n : Network ℝ} {params : NetworkParams ℝ} {p : Partition} {d : DefectSpace}
  {trap : Bool} {L : EnergyLaw} {P M R : Cluster ℝ} {c : Channel}

/-- Interstitials leave interstitial clusters, and bubbles where the metal lets them. -/
theorem Generated.sheds_interstitial (G : n.Generated p) (hm : n.material.IsMetal params d)
    (hchoice : params.chooseMaterial = .ok n.material) (hsheds : n.material.ShedsMonomers trap)
    (hP : P ∈ n.clusters) {h x : ℤ} (hx : P.region.contains (point h x) = true)
    (hemits : n.material.canEmit P.composition (.single .interstitial 1) = true) :
    x < 0 ∨ trap = true ∧ 0 < x := by
  have hnone : ∀ {k y : ℤ}, 0 ≤ k → 0 ≤ y → (space.toComposition (point k y)).interstitial = 0 := by
    intro k y hk hy
    rw [toComposition_point hk, if_neg hy.not_gt]
    rfl
  have hnever : ¬(0 : UInt32) < 0 := by decide
  obtain ⟨-, hcause⟩ := (hsheds.canEmit_iff _ _ (by decide)).mp hemits
  obtain ⟨hh, -⟩ := hm.spacious.cases (G.isAdmissible hm hP hx)
  have hcomposition := (G.of_mem_clusters hP).2.1
  rw [hm.space_eq] at hcomposition
  rcases lt_trichotomy x 0 with hneg | rfl | hpos
  · exact .inl hneg
  · obtain ⟨hunit, hlo⟩ := G.lo_eq_point hm hchoice hP (by decide) hx
    rw [Region.anchor, if_pos hunit, hlo] at hcomposition
    rw [hcomposition, Composition.get, hnone hh le_rfl] at hcause
    rcases hcause with hmore | ⟨-, -, hmixed⟩
    · exact absurd hmore hnever
    · rw [toComposition_point hh] at hmixed
      by_cases hsome : 0 < UInt32.ofNat h.natAbs <;>
        simp [Composition.isMixed, Composition.entries, Species.all, Composition.get, Composition.single,
          Composition.set, Composition.empty, hsome] at hmixed
  · have hempty : P.region.isEmpty = false := Region.isEmpty_of_contains hx
    have hanchor : 1 ≤ P.region.anchor.get defectAxis := by
      refine Region.le_anchor hx (Int.add_one_le_of_lt hpos) fun hgrouped => ?_
      have hcorner := Region.contains_lo hempty
      by_contra hlow
      rw [eq_point_of_isAdmissible (G.isAdmissible hm hP hcorner)] at hcorner
      rw [(G.lo_eq_point hm hchoice hP (by omega) hcorner).1] at hgrouped
      cases hgrouped
    have hadmissible := G.isAdmissible hm hP (Region.contains_anchor hempty)
    have he := eq_point_of_isAdmissible hadmissible
    rw [he] at hadmissible
    rw [he] at hcomposition
    rw [hcomposition, Composition.get, hnone (hm.spacious.cases hadmissible).1 (by omega)] at hcause
    rcases hcause with hmore | ⟨htrap, -⟩
    · exact absurd hmore hnever
    · exact .inr ⟨htrap, hpos⟩

/-- A metal binds whatever its dissociations take apart. -/
theorem Generated.bindingEnergy_pos (hA : A.IsReal) (G : n.Generated p) (hn : n.Built)
    (hchoice : params.chooseMaterial = .ok n.material) (K : n.material.Metallic params d trap L)
    (hP : P ∈ n.clusters) (hM : M ∈ n.clusters) (hR : R ∈ n.clusters) (hc : c.Joins P M R)
    (hlisted : M.composition ∈ n.material.monomers)
    (hemits : n.material.canEmit P.composition M.composition = true) :
    0 < c.bindingEnergy n.material := by
  have hplace := hn.placed M hM (hn.sound.isUnit hM hc.single)
  obtain ⟨hin, hleft⟩ := hc.contains_representative
  have hwhole := G.isAdmissible K.metal hP hin
  have hrest := G.isAdmissible K.metal hR hleft
  have henergy : c.bindingEnergy n.material =
      L.energy (space.toComposition M.region.lo) +
        L.energy (space.toComposition (c.box.representative.add M.region.lo.neg)) -
          L.energy (space.toComposition c.box.representative) := by
    rw [Channel.bindingEnergy, Material.bindingEnergy, K.energy_eq, K.energy_eq, K.energy_eq,
      K.metal.space_eq, hc.offset_eq]
    obtain ⟨top, rfl⟩ := hA
    rfl
  rw [K.sheds.monomers_eq] at hlisted
  rw [K.metal.space_eq] at hplace
  rw [henergy, sub_pos]
  generalize c.box.representative = y at *
  have S := K.metal.spacious
  have hlaw : ∀ {k z : ℤ}, d.isAdmissible (point k z) = true →
      L.energy (space.toComposition (point k z)) = L.coordinate (word k) z := by
    intro k z hkz
    obtain ⟨hi, hmaxI⟩ := S.maxInterstitial
    obtain ⟨hv, hmaxV⟩ := S.maxVacancy
    obtain ⟨hk, hz, -⟩ := (isAdmissible_point hi hv).mp hkz
    exact energy_toComposition hk (by omega)
  obtain ⟨h, x, rfl⟩ : ∃ h x, y = point h x := ⟨_, _, eq_point_of_isAdmissible hwhole⟩
  rcases eq_of_listed hlisted hplace with ⟨-, hlo⟩ | ⟨-, hlo⟩ | ⟨hcomposition, hlo⟩
  · rw [hlo, add_neg_point, Int.sub_zero] at hrest
    rw [hlo, energy_helium, add_neg_point, Int.sub_zero, hlaw hwhole, hlaw hrest]
    exact K.binds.helium S hwhole hrest
  · rw [hlo, add_neg_point, Int.sub_zero] at hrest
    rw [hlo, energy_vacancy, add_neg_point, Int.sub_zero, hlaw hwhole, hlaw hrest]
    exact K.binds.vacancy S hwhole hrest
  · rw [hlo, add_neg_point, Int.sub_zero, Int.sub_neg] at hrest
    rw [hlo, energy_interstitial, add_neg_point, Int.sub_zero, Int.sub_neg, hlaw hwhole, hlaw hrest]
    rw [hcomposition] at hemits
    exact K.binds.interstitial S hwhole hrest
      (G.sheds_interstitial K.metal hchoice K.sheds hP hin hemits)

end Network

/-! ### Every material -/

theorem Material.exists_metallic [A : Analytic ℝ] (hA : A.IsReal) {p : NetworkParams ℝ} {m : Material ℝ}
    (h : p.chooseMaterial = .ok m) :
    (∃ d trap L, m.Metallic p d trap L) ∨ p.material = .xenon ∧ m = Xenon.material p := by
  obtain ⟨hkind, rfl⟩ | ⟨-, rfl⟩ | hxenon := NetworkParams.material_of_chooseMaterial h
  · obtain ⟨top, hA⟩ := hA
    have hbuild := (NetworkParams.chooseMaterial_eq_ok h).2
    rw [hkind, MaterialKind.build] at hbuild
    split_ifs at hbuild with htable
    exact .inl ⟨_, _, _, Tungsten.isMetal p, Tungsten.shedsMonomers p, Tungsten.formationEnergy_eq hA,
      Tungsten.binds top (not_lt.mp htable)⟩
  · exact .inl ⟨_, _, _, Iron.isMetal p, Iron.shedsMonomers p, Iron.formationEnergy_eq hA, Iron.binds p⟩
  · exact .inr hxenon

namespace Network

variable [A : Analytic ℝ] {n : Network ℝ} {params : NetworkParams ℝ} {p : Partition} {P M R : Cluster ℝ}
  {c : Channel}

theorem Generated.bindingEnergy_pos_xenon (hA : A.IsReal) (G : n.Generated p) (hn : n.Built)
    (hchoice : params.chooseMaterial = .ok n.material) (hkind : params.material = .xenon)
    (hm : n.material = Xenon.material params) (hP : P ∈ n.clusters) (hM : M ∈ n.clusters)
    (hR : R ∈ n.clusters) (hc : c.Joins P M R) (hlisted : M.composition ∈ n.material.monomers) :
    0 < c.bindingEnergy n.material := by
  have hadmits : ∀ {C : Cluster ℝ} {x : Point}, C ∈ n.clusters → C.region.contains x = true →
      ∃ k, (1 ≤ k ∧ k < 4294967296) ∧ x = Xenon.point k := by
    intro C x hC hx
    have hadmits := (Material.selects_of_chooseMaterial hchoice).mp (G.selects hC) x hx
    rw [NetworkParams.admits_xenon hkind] at hadmits
    obtain ⟨k, hk, rfl⟩ := Xenon.isAdmissible_iff.mp hadmits
    have hlt := params.maxXenon.toNat_lt
    exact ⟨k, by omega, rfl⟩
  have hplace := hn.placed M hM (hn.sound.isUnit hM hc.single)
  rw [hm] at hlisted hplace
  rw [List.mem_singleton.mp hlisted] at hplace
  have hlo : Xenon.point 1 = M.region.lo := Except.ok.inj hplace
  obtain ⟨hin, hleft⟩ := hc.contains_representative
  obtain ⟨k, hk, hwhole⟩ := hadmits hP hin
  obtain ⟨l, hl, hrest⟩ := hadmits hR hleft
  have hatoms := congrArg (Vector.get · Direction.first) hrest
  change (c.box.representative.add M.region.lo.neg).get Direction.first = l at hatoms
  rw [hwhole, ← hlo, Point.get_add, Point.get_neg] at hatoms
  change k + -1 = l at hatoms
  obtain rfl : k = l + 1 := by omega
  have hstep := realSurface_succ_lt (n := l) (by exact_mod_cast hl.1)
  have henergy : c.bindingEnergy n.material =
      7 * realSurface (1 : ℤ) + 7 * realSurface l - 7 * realSurface (l + 1 : ℤ) := by
    rw [← Xenon.formationEnergy_eq hA le_rfl (by decide), ← Xenon.formationEnergy_eq hA hl.1 hl.2,
      ← Xenon.formationEnergy_eq hA hk.1 hk.2, ← hrest, ← hwhole, hlo, Channel.bindingEnergy, hc.offset_eq, hm]
    obtain ⟨top, rfl⟩ := hA
    rfl
  rw [henergy, Int.cast_one, realSurface_one, Int.cast_add, Int.cast_one]
  linarith

/-- In every generated network, what a dissociation takes apart was bound. -/
theorem bindingEnergy_pos_of_ofParams (hA : A.IsReal) (h : ofParams params = .ok n)
    {i parent first second reverse : ℕ} {energy : ℝ}
    (hi : n.reactions[i]? = some (.dissociation parent first second reverse energy)) : 0 < energy := by
  obtain ⟨hn, hchoice, p, G⟩ := generated_of_ofParams h
  obtain ⟨k, c, hk, rfl, rfl, rfl, rfl⟩ := hn.bindingEnergy_of_getElem? hi
  obtain ⟨P, hP, M, hM, R, hR, hjoins⟩ := hn.of_mem_dissociations (List.mem_of_getElem? hk)
  rw [hjoins.parent_eq, hjoins.monomer_eq, hjoins.remainder_eq] at hi
  obtain ⟨-, -, -, -, -, hlisted, -, hemits⟩ := hn.channel_of_dissociation hP hM hR hi
  rcases Material.exists_metallic hA hchoice with ⟨d, trap, L, K⟩ | ⟨hkind, hm⟩
  · exact G.bindingEnergy_pos hA hn hchoice K hP hM hR hjoins hlisted hemits
  · exact G.bindingEnergy_pos_xenon hA hn hchoice hkind hm hP hM hR hjoins hlisted

end Network
end ClusterDynamics
