import ClusterDynamics.Proofs.Equilibrium
import ClusterDynamics.Proofs.Reordering

/-! Rate constants of networks of the same seeds. A production depends on what its two clusters are made of,
    and adding up radii or diffusion coefficients does not ask which cluster comes first; a dissociation
    depends on its reverse and on the box that its channel cuts out of the parent. So the reactions of
    twins have the same rate constants, whatever their numbers. -/

namespace ClusterDynamics

/-! ### Channels -/

namespace Network

variable {α : Type} [Scalar α] {n n' : Network α} {P P' M M' Q Q' : Cluster α}

theorem Built.joins_of_mem (hn : n.Built) {d : Channel × Nat} (hd : d ∈ n.plan.dissociations)
    (hP : P ∈ n.clusters) (hM : M ∈ n.clusters) (hQ : Q ∈ n.clusters) (hparent : d.1.parent = P.id)
    (hmonomer : d.1.monomer = M.id) (hremainder : d.1.remainder = Q.id) : d.1.Joins P M Q := by
  obtain ⟨P₁, hP₁, M₁, hM₁, Q₁, hQ₁, hjoins⟩ := hn.of_mem_dissociations hd
  obtain rfl := hn.sound.eq_of_id hP hP₁ (hparent.symm.trans hjoins.parent_eq)
  obtain rfl := hn.sound.eq_of_id hM hM₁ (hmonomer.symm.trans hjoins.monomer_eq)
  obtain rfl := hn.sound.eq_of_id hQ hQ₁ (hremainder.symm.trans hjoins.remainder_eq)
  exact hjoins

theorem Built.exists_joins (hn : n.Built) {i reverse : Nat} {energy : α}
    (hi : n.reactions[i]? = some (.dissociation P.id M.id Q.id reverse energy)) (hP : P ∈ n.clusters)
    (hM : M ∈ n.clusters) (hQ : Q ∈ n.clusters) :
    ∃ d : Channel, d.Joins P M Q ∧ energy = d.bindingEnergy n.material := by
  obtain ⟨k, d, hd, hparent, hmonomer, hremainder, henergy⟩ := hn.bindingEnergy_of_getElem? hi
  exact ⟨d, hn.joins_of_mem (List.mem_of_getElem? hd) hP hM hQ hparent hmonomer hremainder, henergy⟩

omit [Scalar α] in
/-- Channels between twins are cut out of the same region by the same one. -/
theorem Twins.channel_eq (hP : n.Twins n' P P') (hM : n.Twins n' M M') (hQ : n.Twins n' Q Q') {d d' : Channel}
    (hd : d.Joins P M Q) (hd' : d'.Joins P' M' Q') : d.offset = d'.offset ∧ d.box = d'.box := by
  have hoffset : d.offset = d'.offset := by rw [hd.offset_eq, hd'.offset_eq, hM.region_eq]
  refine ⟨hoffset, Option.some.inj ?_⟩
  rw [← hd.box_eq, ← hd'.box_eq, hP.region_eq, hQ.region_eq, hoffset]

end Network

/-! ### Constants -/

/-- Two scalars have the same sum in both orders. -/
def Scalar.AddComm (α : Type) [Scalar α] : Prop := ∀ x y : α, x + y = y + x

namespace RateConstants

variable {α : Type}

/-- The constants of two networks agree on twins. -/
structure Agrees (n n' : Network α) [Scalar α] (k k' : RateConstants α) : Prop where
  fits : k.Fits n
  fits' : k'.Fits n'
  diffusion : ∀ {c c' : Cluster α}, n.Twins n' c c' → k.diffusion? c.id = k'.diffusion? c'.id
  production : ∀ {a a' c c' : Cluster α} {i i' : Nat}, n.Twins n' a a' → n.Twins n' c c' →
    n.Combines i a.id c.id → n'.Combines i' a'.id c'.id → k.rate i = k'.rate i'
  dissociation : ∀ {P P' M M' R R' : Cluster α} {i i' : Nat}, n.Twins n' P P' → n.Twins n' M M' →
    n.Twins n' R R' → n.Dissociates i P.id M.id R.id → n'.Dissociates i' P'.id M'.id R'.id →
      k.rate i = k'.rate i'

variable [Analytic α] {n n' : Network α} {T : α} {k k' : RateConstants α} {a c : Cluster α} {i : Nat}

theorem fits_of_compute (h : compute n T = .ok k) : k.Fits n := by
  unfold compute at h
  split_ifs at h <;> cases h
  · exact ⟨by simp, by simp [diffusionOf]⟩
  · exact ⟨by simp, by simp [diffusionOf]⟩

theorem diffusion?_of_compute (S : n.toPopulation.Sound) (h : compute n T = .ok k) (hc : c ∈ n.clusters) :
    k.diffusion? c.id =
      some (RateLaw.diffusion c.properties.diffusionFactor c.properties.migrationEnergy T) := by
  have hdiffusion : k.diffusion = diffusionOf n T := by
    unfold compute at h
    split_ifs at h <;> cases h <;> rfl
  rw [diffusion?, hdiffusion, diffusionOf, Array.getElem?_map, S.getElem?_id hc, Option.map_some]

theorem rate_of_getElem? (h : compute n T = .ok k) {first second : Nat}
    (hi : n.reactions[i]? = some (.production first second)) :
    k.rate i = productionRate n (diffusionOf n T) (.production first second) := by
  unfold compute at h
  split_ifs at h <;> cases h
  · simp [rate, Array.getD_eq_getD_getElem?, Array.getElem?_zipWith, hi, dissociationRate]
  · simp [rate, Array.getD_eq_getD_getElem?, hi]

/-- Which of two clusters comes first in a production is no matter. -/
theorem rate_of_combines (hα : Scalar.AddComm α) (S : n.toPopulation.Sound) (h : compute n T = .ok k)
    (ha : a ∈ n.clusters) (hc : c ∈ n.clusters) (hi : n.Combines i a.id c.id) :
    k.rate i = RateLaw.production a.properties.reactionRadius c.properties.reactionRadius
      n.material.coreRadius (RateLaw.diffusion a.properties.diffusionFactor a.properties.migrationEnergy T)
      (RateLaw.diffusion c.properties.diffusionFactor c.properties.migrationEnergy T) := by
  have hradius : ∀ {d : Cluster α}, d ∈ n.clusters → radius n d.id = d.properties.reactionRadius :=
    fun hd => by rw [radius, S.getElem?_id hd]; rfl
  have hdiffusion : ∀ {d : Cluster α}, d ∈ n.clusters → (diffusionOf n T).getD d.id 0 =
      RateLaw.diffusion d.properties.diffusionFactor d.properties.migrationEnergy T := fun hd => by
    rw [diffusionOf, Array.getD_eq_getD_getElem?, Array.getElem?_map, S.getElem?_id hd]
    rfl
  obtain ⟨first, second, hreaction, hpair⟩ := hi
  rw [rate_of_getElem? h hreaction, productionRate]
  rcases Sym2.eq_iff.mp hpair with ⟨rfl, rfl⟩ | ⟨rfl, rfl⟩
  · rw [hradius ha, hradius hc, hdiffusion ha, hdiffusion hc]
  · rw [hradius ha, hradius hc, hdiffusion ha, hdiffusion hc, RateLaw.production, RateLaw.production,
      hα a.properties.reactionRadius,
      hα (RateLaw.diffusion a.properties.diffusionFactor a.properties.migrationEnergy T)]

theorem rate_of_not_dissociation (h : compute n T = .ok k) (hd : n.material.dissociation = false)
    {parent first second reverse : Nat} {energy : α}
    (hi : n.reactions[i]? = some (.dissociation parent first second reverse energy)) : k.rate i = 0 := by
  unfold compute at h
  simp only [hd, Bool.false_eq_true, if_false] at h
  split_ifs at h
  cases h
  simp [rate, Array.getD_eq_getD_getElem?, hi, productionRate]

theorem agrees_of_compute (hα : Scalar.AddComm α) (R : n.Reordered n') (h : compute n T = .ok k)
    (h' : compute n' T = .ok k') : Agrees n n' k k' := by
  have hproduction : ∀ {a a' c c' : Cluster α} {i i' : Nat}, n.Twins n' a a' → n.Twins n' c c' →
      n.Combines i a.id c.id → n'.Combines i' a'.id c'.id → k.rate i = k'.rate i' := by
    intro a a' c c' i i' ha hc hi hi'
    rw [rate_of_combines hα R.built.sound h ha.mem hc.mem hi,
      rate_of_combines hα R.built'.sound h' ha.mem' hc.mem' hi', ha.properties_eq, hc.properties_eq,
      R.material_eq]
  refine ⟨fits_of_compute h, fits_of_compute h', fun hc => ?_, hproduction, ?_⟩
  · rw [diffusion?_of_compute R.built.sound h hc.mem, diffusion?_of_compute R.built'.sound h' hc.mem',
      hc.properties_eq]
  · intro P P' M M' Q Q' i i' hP hM hQ hi hi'
    obtain ⟨reverse, energy, hi⟩ := hi
    obtain ⟨reverse', energy', hi'⟩ := hi'
    cases hd : n.material.dissociation with
    | false =>
      rw [rate_of_not_dissociation h hd hi, rate_of_not_dissociation h' (R.material_eq ▸ hd) hi']
    | true =>
      have hcombines := (R.built.combines_reverse hi).1
      have hcombines' := (R.built'.combines_reverse hi').1
      obtain ⟨d, hjoins, rfl⟩ := R.built.exists_joins hi hP.mem hM.mem hQ.mem
      obtain ⟨d', hjoins', rfl⟩ := R.built'.exists_joins hi' hP.mem' hM.mem' hQ.mem'
      obtain ⟨hoffset, hbox⟩ := hP.channel_eq hM hQ hjoins hjoins'
      have henergy : d.bindingEnergy n.material = d'.bindingEnergy n'.material := by
        rw [Channel.bindingEnergy, Channel.bindingEnergy, hbox, hoffset, R.material_eq]
      rw [rate_dissociation h hd hi hcombines, rate_dissociation h' (R.material_eq ▸ hd) hi' hcombines',
        hproduction hM hQ hcombines hcombines', henergy, R.material_eq]

end RateConstants

end ClusterDynamics
