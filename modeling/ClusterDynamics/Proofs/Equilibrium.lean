import ClusterDynamics.Proofs.Collection
import ClusterDynamics.Proofs.Events
import ClusterDynamics.Proofs.Reversal
import ClusterDynamics.Proofs.SmallRegions
import ClusterDynamics.Rates

/-! Thermodynamic equilibrium. When every cluster is a single composition, the stored energies make the
    binding energy of each dissociation, and with detailed balance one list of concentrations, for any
    temperature and any chemical potentials, balances every dissociation with its reverse. -/

namespace ClusterDynamics

/-! ### Rate constants -/

namespace RateConstants

variable {α : Type} [Analytic α] {n : Network α} {T : α} {k : RateConstants α}

theorem exists_compute (hfinite : Scalar.isFinite T = true) (hT : 0 < T) : ∃ k, compute n T = .ok k := by
  unfold compute
  rw [hfinite, decide_eq_true hT]
  exact ⟨_, rfl⟩

theorem rate_dissociation (h : compute n T = .ok k) (hd : n.material.dissociation = true)
    {i parent first second reverse a b : Nat} {energy : α}
    (hi : n.reactions[i]? = some (.dissociation parent first second reverse energy))
    (hr : n.Combines reverse a b) :
    k.rate i = RateLaw.dissociation (k.rate reverse) energy n.material.atomicVolume T := by
  unfold compute at h
  split_ifs at h
  cases h
  obtain ⟨x, y, hr, -⟩ := hr
  have hproduction : ∀ {j : Nat} {r : Reaction α}, n.reactions[j]? = some r →
      (n.reactions.map (productionRate n (diffusionOf n T)))[j]? =
        some (productionRate n (diffusionOf n T) r) := by
    intro j r hj
    rw [Array.getElem?_map, hj, Option.map_some]
  simp only [rate, Array.getD_eq_getD_getElem?, Array.getElem?_zipWith, hi, hr, hproduction hi,
    hproduction hr, Option.getD_some, dissociationRate, Option.getD_none]

end RateConstants

/-! ### Energies -/

namespace Region

theorem representative_of_isUnit {r : Region} (h : r.isUnit = true) : r.representative = r.lo := by
  refine Point.ext_get fun a => ?_
  have hone := isUnit_iff.mp h a
  rw [get_representative]
  unfold width at hone
  omega

/-- What a unit region shares with another one is the unit region. -/
theorem eq_of_intersection? {r s q : Region} (hr : r.isUnit = true) (h : r.intersection? s = some q) :
    q = r := by
  obtain ⟨hmeet, rfl⟩ := intersection?_eq_some.mp h
  have hcommon := intersects_iff.mp hmeet
  have hone := isUnit_iff.mp hr
  unfold width at hone
  obtain ⟨lo, hi⟩ := r
  refine Region.mk.injEq .. |>.mpr ⟨Point.ext_get fun a => ?_, Point.ext_get fun a => ?_⟩
  all_goals
    have := hcommon a
    have := hone a
    simp only [meet, get_ofFn] at *
    omega

end Region

namespace Network

variable {α : Type} [Scalar α] {n : Network α}

theorem Built.bindingEnergy_of_getElem? (hn : n.Built) {i parent first second reverse : Nat} {energy : α}
    (h : n.reactions[i]? = some (.dissociation parent first second reverse energy)) :
    ∃ (k : Nat) (c : Channel), n.plan.dissociations[k]? = some (c, reverse) ∧ c.parent = parent ∧
      c.monomer = first ∧ c.remainder = second ∧ energy = c.bindingEnergy n.material := by
  obtain ⟨k, c, rfl, hk, hc⟩ := hn.dissociation_of_getElem? h
  rw [← Array.getElem?_toList, hn.reactions, ReactionPlan.reactions,
    List.getElem?_append_right (by simp)] at h
  rw [List.length_map, Nat.add_sub_cancel_left, List.getElem?_map, hk] at h
  cases h
  exact ⟨k, c, hk, rfl, rfl, rfl, rfl⟩

theorem Generated.formationEnergy_of_isUnit {p : Partition} (G : n.Generated p) {c : Cluster α}
    (hc : c ∈ n.clusters) (hunit : c.region.isUnit = true) :
    c.properties.formationEnergy =
      n.material.formationEnergy (n.material.space.toComposition c.region.lo) := by
  rw [(G.of_mem_clusters hc).2.2, Material.seedProperties, if_pos hunit, G.composition_of_isUnit hc hunit]

/-- Among single compositions, the stored energies of the three clusters add up to the binding energy. -/
theorem Generated.bindingEnergy_eq {p : Partition} (G : n.Generated p) {P M R : Cluster α} {c : Channel}
    (hc : c.Joins P M R) (hP : P ∈ n.clusters) (hM : M ∈ n.clusters) (hR : R ∈ n.clusters)
    (hPunit : P.region.isUnit = true) (hMunit : M.region.isUnit = true) (hRunit : R.region.isUnit = true) :
    R.region.lo = P.region.lo.add M.region.lo.neg ∧
      c.bindingEnergy n.material =
        M.properties.formationEnergy + R.properties.formationEnergy - P.properties.formationEnergy := by
  have hbox := Region.eq_of_intersection? hPunit hc.box_eq
  have hlo : R.region.lo = P.region.lo.add M.region.lo.neg := by
    obtain ⟨x, hx, hxR⟩ := Region.intersects_iff_exists.mp (Region.intersection?_eq_some.mp hc.box_eq).1
    rw [Region.contains_shifted, hc.offset_eq, Region.contains_of_isUnit hRunit] at hxR
    rw [Region.contains_of_isUnit hPunit] at hx
    rw [← hx, ← hxR]
  refine ⟨hlo, ?_⟩
  rw [Channel.bindingEnergy, hbox, Region.representative_of_isUnit hPunit, hc.offset_eq, ← hlo,
    G.formationEnergy_of_isUnit hP hPunit, G.formationEnergy_of_isUnit hM hMunit,
    G.formationEnergy_of_isUnit hR hRunit]
  rfl

end Network

theorem Material.dissociation_of_chooseMaterial {α : Type} [Analytic α] {p : NetworkParams α}
    {m : Material α} (h : p.chooseMaterial = .ok m) : m.dissociation = p.dissociation := by
  obtain ⟨-, rfl⟩ | ⟨-, rfl⟩ | ⟨-, rfl⟩ := NetworkParams.material_of_chooseMaterial h <;> rfl

namespace Network

section
variable [A : Analytic ℝ]

/-- The equilibrium concentration of a single composition, for one chemical potential per axis. -/
noncomputable def equilibrium (n : Network ℝ) (T : ℝ) (mu : Direction → ℝ) (c : Cluster ℝ) : ℝ :=
  Real.exp ((∑ a, mu a * c.region.lo.get a - c.properties.formationEnergy) / RateLaw.thermalEnergy T) /
    n.material.atomicVolume

theorem equilibrium_mul {n : Network ℝ} {P M R : Cluster ℝ}
    (hlo : R.region.lo = P.region.lo.add M.region.lo.neg) (T : ℝ) (mu : Direction → ℝ) :
    Real.exp (-(M.properties.formationEnergy + R.properties.formationEnergy -
        P.properties.formationEnergy) / RateLaw.thermalEnergy T) / n.material.atomicVolume *
          n.equilibrium T mu P =
      n.equilibrium T mu M * n.equilibrium T mu R := by
  have hsum : ∑ a, mu a * (R.region.lo.get a : ℝ) =
      ∑ a, mu a * (P.region.lo.get a : ℝ) - ∑ a, mu a * (M.region.lo.get a : ℝ) := by
    rw [← Finset.sum_sub_distrib]
    refine Finset.sum_congr rfl fun a _ => ?_
    rw [hlo, Point.get_add, Point.get_neg]
    push_cast
    ring
  unfold equilibrium
  rw [div_mul_div_comm, div_mul_div_comm, ← Real.exp_add, ← Real.exp_add, hsum, ← add_div, ← add_div]
  ring_nf

/-- In a network of single compositions, the equilibrium for any temperature and any chemical potentials
    balances each dissociation with the production that undoes it. -/
theorem balances_of_ofParams (hA : A.IsReal) {params : NetworkParams ℝ} {n : Network ℝ}
    (h : ofParams params = .ok n) (hd : params.dissociation = true)
    (hsingle : ∀ c ∈ n.clusters, c.isGrouped = false) {T : ℝ} (hT : 0 < T) :
    (∀ c ∈ n.clusters, n.material.space.toPoint c.composition = .ok c.region.lo) ∧
    ∃ k, RateConstants.compute n T = .ok k ∧
      ∀ (mu : Direction → ℝ) (i parent first second reverse : Nat) (energy : ℝ),
        n.reactions[i]? = some (.dissociation parent first second reverse energy) →
          n.Combines reverse first second ∧
          ∃ P ∈ n.clusters, ∃ M ∈ n.clusters, ∃ R ∈ n.clusters,
            P.id = parent ∧ M.id = first ∧ R.id = second ∧
              k.rate i * n.equilibrium T mu P =
                k.rate reverse * (n.equilibrium T mu M * n.equilibrium T mu R) := by
  obtain ⟨top, rfl⟩ := hA
  let _ := Analytic.real top
  obtain ⟨hn, hchoice, p, G⟩ := generated_of_ofParams h
  have hunit : ∀ c ∈ n.clusters, c.region.isUnit = true := fun c hc => hn.sound.isUnit hc (hsingle c hc)
  obtain ⟨k, hk⟩ := RateConstants.exists_compute (n := n) rfl hT
  refine ⟨fun c hc => hn.placed c hc (hunit c hc), k, hk, ?_⟩
  intro mu i parent first second reverse energy hi
  have hcombines := (hn.combines_reverse hi).1
  obtain ⟨j, c, hc, rfl, rfl, rfl, rfl⟩ := hn.bindingEnergy_of_getElem? hi
  obtain ⟨P, hP, M, hM, R, hR, hjoins⟩ := hn.of_mem_dissociations (List.mem_of_getElem? hc)
  obtain ⟨hlo, henergy⟩ := G.bindingEnergy_eq hjoins hP hM hR (hunit P hP) (hunit M hM) (hunit R hR)
  refine ⟨hcombines, P, hP, M, hM, R, hR, hjoins.parent_eq.symm, hjoins.monomer_eq.symm,
    hjoins.remainder_eq.symm, ?_⟩
  have hrate := RateConstants.rate_dissociation hk
    ((Material.dissociation_of_chooseMaterial hchoice).trans hd) hi hcombines
  rw [hrate, henergy, RateLaw.dissociation, mul_div_assoc, mul_assoc, ← equilibrium_mul hlo]
  rfl

end
end Network

/-! ### Pairs of gas atoms -/

namespace Gas

noncomputable scoped instance : Analytic ℝ := .real 0

noncomputable def params : NetworkParams ℝ :=
  { NetworkParams.standard with material := .xenon, maxXenon := 2 }

/-- A single atom and a pair make a network, whichever of them moves. -/
theorem ofParams_ok : params.chooseMaterial = .ok (Xenon.material params) ∧ ∃ n, Network.ofParams params = .ok n :=
  Network.exists_ofParams_ungrouped rfl rfl (lt_irrefl (0 : ℝ)) rfl (by decide) (by decide +kernel)
    ⟨Xenon.point 1, by decide⟩

theorem moves_single : (Xenon.material params).moves (.single .xenon 1) = true := by
  have hfactor : (0 : ℝ) < 7.6e8 := by norm_num
  simpa [Material.moves, Xenon.material, Composition.single, Composition.set, Composition.empty] using hfactor

/-- At any chemical potential a pair is shed apart as often as two single atoms meet. -/
theorem balances_pair : ∃ n k, Network.ofParams params = .ok n ∧ RateConstants.compute n 1000 = .ok k ∧
    ∃ P ∈ n.clusters, ∃ M ∈ n.clusters, P.region.lo = Xenon.point 2 ∧ M.region.lo = Xenon.point 1 ∧
      ∃ (i reverse : Nat) (energy : ℝ),
        n.reactions[i]? = some (.dissociation P.id M.id M.id reverse energy) ∧
          ∀ mu, k.rate i * n.equilibrium 1000 mu P =
            k.rate reverse * (n.equilibrium 1000 mu M * n.equilibrium 1000 mu M) := by
  obtain ⟨hxenon, n, hn⟩ := ofParams_ok
  obtain ⟨hbuilt, hchoice, p, G⟩ := Network.generated_of_ofParams hn
  have hmaterial : Xenon.material params = n.material := Except.ok.inj (hxenon.symm.trans hchoice)
  have T := Material.tracks_of_chooseMaterial hchoice fun _ h => nomatch h
  have hunit := Network.isUnit_of_ungrouped hn rfl
  have hsingle : ∀ c ∈ n.clusters, c.isGrouped = false := by
    intro c hc
    rw [hbuilt.sound.grouped c hc, hunit c hc]
    rfl
  have hexists : ∀ x, params.admits x = true → ∃ c ∈ n.clusters, c.region.lo = x := by
    intro x hx
    obtain ⟨c, hc, hin⟩ := Population.owns_iff.mp ((G.owns_iff T).mpr hx)
    exact ⟨c, hc, ((Region.contains_of_isUnit (hunit c hc)).mp hin).symm⟩
  obtain ⟨M, hM, hMlo⟩ := hexists (Xenon.point 1) (by decide)
  obtain ⟨P, hP, hPlo⟩ := hexists (Xenon.point 2) (by decide)
  have hMc : M.composition = .single .xenon 1 := by
    rw [G.composition_of_isUnit hM (hunit M hM), hMlo, ← hmaterial]
    rfl
  have hPc : P.composition = .single .xenon 2 := by
    rw [G.composition_of_isUnit hP (hunit P hP), hPlo, ← hmaterial]
    rfl
  obtain ⟨i, reverse, energy, hi⟩ := hbuilt.exists_dissociation_of_isMobile hP hM hM (hsingle M hM)
    (by rw [hMc, ← hmaterial]; exact List.mem_singleton_self _)
    (fun hid => by
      have hsame := hbuilt.sound.eq_of_id hM hP hid
      rw [hsame, hPc] at hMc
      exact absurd hMc (by decide))
    (by rw [hMc, hPc, ← hmaterial]; rfl)
    (.inl (by rw [G.isMobile_of_isUnit hM (hunit M hM), hMc, ← hmaterial]; exact moves_single))
    ((Region.contains_of_isUnit (hunit P hP)).mpr hPlo.symm)
    ((Region.contains_of_isUnit (hunit M hM)).mpr (by rw [hMlo]; rfl))
  obtain ⟨-, k, hk, hbalance⟩ :=
    Network.balances_of_ofParams ⟨0, rfl⟩ hn rfl hsingle (T := 1000) (by norm_num)
  refine ⟨n, k, hn, hk, P, hP, M, hM, hPlo, hMlo, i, reverse, energy, hi, fun mu => ?_⟩
  obtain ⟨-, P', hP', M', hM', R', hR', hPid, hMid, hRid, h⟩ := hbalance mu i _ _ _ _ _ hi
  rwa [hbuilt.sound.eq_of_id hP' hP hPid, hbuilt.sound.eq_of_id hM' hM hMid,
    hbuilt.sound.eq_of_id hR' hM hRid] at h

end Gas
end ClusterDynamics
