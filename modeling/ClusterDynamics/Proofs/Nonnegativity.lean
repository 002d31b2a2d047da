import ClusterDynamics.Proofs.Kinetics

/-! Fluxes push no empty cluster below zero. The concentration that a cluster assigns to the compositions
    of its region is affine, so at opposite compositions it adds up to twice the mean: where it is nowhere
    negative and has the mean zero, it vanishes everywhere. Reactions take compositions only from clusters
    that hold some, hence a cluster without any gains and does not lose. -/

namespace ClusterDynamics

/-! ### Opposite compositions -/

namespace Region

/-- The composition on the other side of the centre, as far away from it. -/
def opposite (r : Region) (x : Point) : Point := Vector.ofFn fun a => r.twiceCenter a - x.get a

theorem contains_opposite {r : Region} {x : Point} (hx : r.contains x = true) :
    r.contains (r.opposite x) = true := by
  refine contains_iff.mpr fun a => ?_
  have hxa := contains_iff.mp hx a
  rw [opposite, get_ofFn, twiceCenter]
  omega

end Region

namespace Moment

variable {K : Type} [Field K] [LinearOrder K] [IsStrictOrderedRing K] {r : Region} {v : MomentVector K}

/-- A first moment changes its sign at the opposite composition. -/
theorem phi_opposite (r : Region) (a : Direction) (x : Point) :
    (phi r a.succ (r.opposite x) : K) = -phi r a.succ x := by
  have haxis : BasisIndex.axis? a.succ = some a := rfl
  simp only [phi, haxis]
  split_ifs
  · rw [Region.opposite, get_ofFn, center]
    simp only [Scalar.ofInt_exact]
    push_cast
    ring
  · exact neg_zero.symm

/-- Opposite concentrations have the mean in their middle. -/
theorem density_add_density_opposite (r : Region) (v : MomentVector K) (x : Point) :
    density r v x + density r v (r.opposite x) = 2 * v.get 0 := by
  simp only [density, Fin.sum_univ_succ (n := 4), phi_zero, one_mul, phi_opposite, neg_mul,
    Finset.sum_neg_distrib]
  ring

/-- A concentration that is nowhere negative vanishes together with its mean. -/
theorem density_eq_zero (hv : ∀ x, r.contains x = true → 0 ≤ density r v x) (hmean : v.get 0 = 0)
    {x : Point} (hx : r.contains x = true) : density r v x = 0 := by
  have hsum := density_add_density_opposite r v x
  have hhere := hv x hx
  have hthere := hv _ (Region.contains_opposite hx)
  rw [hmean] at hsum
  linarith

theorem weight_zero_nonneg (r : Region) (x : Point) : (0 : K) ≤ weight r 0 x := by
  have hvolume : (0 : Int) ≤ r.volume := by
    rw [← Region.card_lattice]
    exact Int.natCast_nonneg _
  rw [weight_zero]
  exact one_div_nonneg.mpr (Int.cast_nonneg hvolume)

end Moment

/-! ### Effects on an empty cluster -/

theorem Region.restrict_nonneg {K : Type} [Field K] [LinearOrder K] (r : Region) {f : Point → K}
    (hf : ∀ x, 0 ≤ f x) (x : Point) : 0 ≤ r.restrict f x := by
  unfold restrict
  split_ifs
  · exact hf x
  · exact le_refl 0

namespace Network

/-- No cluster assigns a negative concentration to a composition of its region. -/
def Nonnegative {K : Type} [Field K] [LinearOrder K] (n : Network K) (state : Array K) : Prop :=
  ∀ c ∈ n.clusters, ∀ x, c.region.contains x = true → 0 ≤ n.concentration state c.id x

variable {K : Type} [Field K] [LinearOrder K] [IsStrictOrderedRing K] {n : Network K}
  {k : RateConstants K} {state : Array K} {c g s : Cluster K}

section
variable (S : n.toPopulation.Sound) (hstate : n.Nonnegative state) (hc : c ∈ n.clusters)
  (hempty : State.value state c.id = 0)
include S hstate hc

omit [IsStrictOrderedRing K] in
theorem Nonnegative.value_nonneg (hsingle : c.isGrouped = false) : 0 ≤ State.value state c.id := by
  have hlo := (Region.contains_of_isUnit (S.isUnit hc hsingle)).mpr rfl
  have hvalue := hstate c hc _ hlo
  rwa [concentration_single S hc hsingle] at hvalue

include hempty

/-- Without a mean a cluster holds none of its compositions. -/
theorem Nonnegative.concentration_eq_zero {x : Point} (hx : c.region.contains x = true) :
    n.concentration state c.id x = 0 := by
  have hdensity : ∀ y, c.region.contains y = true → 0 ≤ Moment.density c.region (State.gather state c) y := by
    intro y hy
    have hconc := hstate c hc y hy
    rwa [concentration_id S hc] at hconc
  rw [concentration_id S hc]
  exact Moment.density_eq_zero hdensity ((get_zero_gather state c).trans hempty) hx

/-- What is taken from the compositions of another owner is not taken from an empty cluster. -/
theorem Nonnegative.concentration_mul_restrict (hg : g ∈ n.clusters) {y : Point}
    (hy : g.region.contains y = true) (f : Point → K) :
    n.concentration state g.id y * c.region.restrict f y = 0 := by
  rw [S.restrict_of_owner hc hg hy]
  split_ifs with hid
  · rw [hid, hstate.concentration_eq_zero S hc hempty (S.eq_of_id hg hc hid ▸ hy), zero_mul]
  · exact mul_zero _

/-- An encounter takes nothing from an empty cluster. -/
theorem Nonnegative.effect_encounter (hg : g ∈ n.clusters) (hs : s ∈ n.clusters)
    (hsingle : s.isGrouped = false) {rate : K} (hrate : 0 ≤ rate) {f : Point → K} (hf : ∀ x, 0 ≤ f x) :
    0 ≤ (Encounter.ofOperands n.toPopulation g s).effect (c.region.restrict f) (n.concentration state g.id)
      (rate * State.value state s.id) := by
  have hslo := (Region.contains_of_isUnit (S.isUnit hs hsingle)).mpr rfl
  have hsecond : State.value state s.id * c.region.restrict f s.region.lo = 0 := by
    have h := hstate.concentration_mul_restrict S hc hempty hs hslo f
    rwa [concentration_single S hs hsingle] at h
  refine List.sum_nonneg ?_
  rintro _ hsum
  obtain ⟨q, hq, rfl⟩ := List.mem_map.mp hsum
  refine Finset.sum_nonneg fun y hy => ?_
  have hyg := Encounter.contains_of_mem_pieces S hq hy
  have hfirst := hstate.concentration_mul_restrict S hc hempty hg hyg f
  have hspeed : 0 ≤ n.concentration state g.id y * (rate * State.value state s.id) :=
    mul_nonneg (hstate g hg y hyg) (mul_nonneg hrate (hstate.value_nonneg S hs hsingle))
  have hgain : 0 ≤ if q.product.isSome then c.region.restrict f (y.add s.region.lo) else 0 := by
    split_ifs
    · exact c.region.restrict_nonneg hf _
    · exact le_refl 0
  calc (0 : K)
      ≤ n.concentration state g.id y * (rate * State.value state s.id) *
          (if q.product.isSome then c.region.restrict f (y.add s.region.lo) else 0) :=
        mul_nonneg hspeed hgain
    _ = n.concentration state g.id y * (rate * State.value state s.id) *
          ((if q.product.isSome then c.region.restrict f (y.add s.region.lo) else 0) +
            (-c.region.restrict f y + -c.region.restrict f s.region.lo)) := by
        linear_combination (rate * State.value state s.id) * hfirst +
          (n.concentration state g.id y * rate) * hsecond

/-- A channel takes nothing from an empty cluster. -/
theorem Nonnegative.effect_channel {d : Channel} {parent monomer remainder : Cluster K}
    (hd : d.Joins parent monomer remainder) (hp : parent ∈ n.clusters) {rate : K} (hrate : 0 ≤ rate)
    {f : Point → K} (hf : ∀ x, 0 ≤ f x) :
    0 ≤ d.effect (c.region.restrict f) (n.concentration state d.parent) rate := by
  refine Finset.sum_nonneg fun y hy => ?_
  rw [Region.lattice_of_intersection? hd.box_eq, Finset.mem_inter, Region.mem_lattice] at hy
  have hparent := hstate.concentration_mul_restrict S hc hempty hp hy.1 f
  have hspeed : 0 ≤ n.concentration state parent.id y * rate := mul_nonneg (hstate parent hp y hy.1) hrate
  rw [hd.parent_eq]
  calc (0 : K)
      ≤ n.concentration state parent.id y * rate *
          (c.region.restrict f (y.add d.offset.neg) + c.region.restrict f d.offset) :=
        mul_nonneg hspeed (add_nonneg (c.region.restrict_nonneg hf _) (c.region.restrict_nonneg hf _))
    _ = n.concentration state parent.id y * rate *
          (c.region.restrict f (y.add d.offset.neg) + c.region.restrict f d.offset +
            -c.region.restrict f y) := by
        linear_combination rate * hparent

end

/-! ### Fluxes -/

/-- In an exact computation with any sinks and no negative rate constant, a cluster whose mean vanishes in a
    nowhere negative state does not lose: what the flux adds to the slot of the mean is not negative. -/
theorem flux_of_empty_nonneg {params : NetworkParams K} {material : Material K} {b : Builder K}
    (hb : b.Reachable params material) (hn : b.finish = .ok n) (sinks : Array K) (hk : k.Fits n)
    (hrate : ∀ i, 0 ≤ k.rate i) (hsize : state.size = n.dof) (hstate : n.Nonnegative state) {out : Array K}
    (hout : out.size = n.dof) :
    ∃ out', ({ n with sinks := sinks } : Network K).addFluxes k state out = .ok out' ∧ out'.size = n.dof ∧
      ∀ c ∈ n.clusters, State.value state c.id = 0 → 0 ≤ State.value out' c.id - State.value out c.id := by
  obtain ⟨hbuilt, -⟩ := built_of_finish hb hn
  have S : ({ n with sinks := sinks } : Network K).toPopulation.Sound := hbuilt.sound
  obtain ⟨out', hok, hsize', hrows⟩ := addFluxes_eq_ok S ⟨hk.rates, hk.diffusion⟩ hsize hout
  refine ⟨out', hok, hsize', ?_⟩
  intro c hc hempty
  have hrow : ((0 : BasisIndex), c.id) ∈ c.slots := Cluster.mem_slots.mpr rfl
  -- Sinks enter no term but their own, which is a multiple of the vanishing mean.
  have htotal : (({ n with sinks := sinks } : Network K).terms k state c).total.get 0 =
      ((n.terms k state c).production.get 0 + (n.terms k state c).combination.get 0) +
        ((n.terms k state c).dissociation.get 0 + (n.terms k state c).emission.get 0) := by
    rw [get_total, get_sinkTerm hrow, hempty, mul_zero, neg_zero, add_zero]
    rfl
  have hproductions : 0 ≤ (n.terms k state c).production.get 0 + (n.terms k state c).combination.get 0 := by
    rw [get_production_add_combination hbuilt hc]
    refine List.sum_nonneg ?_
    rintro _ hsum
    obtain ⟨e, he, rfl⟩ := List.mem_map.mp hsum
    obtain ⟨g, hg, s, hs, hsingle, heq⟩ := of_mem_productions (List.fst_mem_of_mem_zipIdx he)
    rw [heq]
    exact hstate.effect_encounter hbuilt.sound hc hempty hg hs hsingle (hrate e.2)
      (Moment.weight_zero_nonneg c.region)
  have hdissociations :
      0 ≤ (n.terms k state c).dissociation.get 0 + (n.terms k state c).emission.get 0 := by
    rw [get_dissociation_add_emission hbuilt hc]
    refine List.sum_nonneg ?_
    rintro _ hsum
    obtain ⟨d, hd, rfl⟩ := List.mem_map.mp hsum
    obtain ⟨parent, hp, monomer, -, remainder, -, hjoins⟩ :=
      hbuilt.of_mem_dissociations (List.fst_mem_of_mem_zipIdx hd)
    exact hstate.effect_channel hbuilt.sound hc hempty hjoins hp (hrate d.2)
      (Moment.weight_zero_nonneg c.region)
  rw [hrows c hc _ hrow, htotal, add_sub_cancel_left]
  exact add_nonneg hproductions hdissociations

end Network

/-! ### An empty group -/

namespace Chain

/-- Single atoms and pairs, but none of the larger clusters. -/
def emptyGroup : Array ℚ := #[5, 3, 0, 0]

theorem constants_nonneg (i : Nat) : 0 ≤ constants.rate i := by
  by_cases hi : i < 6
  · interval_cases i <;> decide +kernel
  · rw [RateConstants.rate, Array.getD_eq_getD_getElem?, Array.getElem?_eq_none (Nat.le_of_not_lt hi)]
    exact le_refl 0

/-- The group of three to five atoms holds none of them, absorbs and sheds single ones, and only gains. -/
theorem flux_emptyGroup : ∃ n, builder.finish = .ok n ∧ n.Nonnegative emptyGroup ∧
    ∃ c ∈ n.clusters, c.isGrouped = true ∧ State.value emptyGroup c.id = 0 ∧
      ∃ out', ({ n with sinks := #[1, 0, 2] } : Network ℚ).addFluxes constants emptyGroup
          (State.zeros n.dof) = .ok out' ∧ out'.size = n.dof ∧
        0 ≤ State.value out' c.id - State.value (State.zeros n.dof : Array ℚ) c.id := by
  obtain ⟨n, hn, hclusters, hdof, hreactions, hlattice, c, hc, hgrouped, hempty⟩ :
      ∃ n, builder.finish = .ok n ∧ n.clusters.size = 3 ∧ n.dof = 4 ∧ n.reactions.size = 6 ∧
        (∀ c ∈ n.clusters.toList, ∀ x ∈ c.region.lattice, 0 ≤ n.concentration emptyGroup c.id x) ∧
        ∃ c ∈ n.clusters.toList, c.isGrouped = true ∧ State.value emptyGroup c.id = 0 :=
    exists_eq_ok (by decide +kernel)
  have hstate : n.Nonnegative emptyGroup := by
    intro d hd x hx
    exact hlattice d (Array.mem_toList_iff.mpr hd) x (Region.mem_lattice.mpr hx)
  have hc := Array.mem_toList_iff.mp hc
  obtain ⟨out', hok, hsize, hnonneg⟩ := Network.flux_of_empty_nonneg reachable hn #[1, 0, 2]
    (constants_fit hclusters hreactions) constants_nonneg (show emptyGroup.size = n.dof from hdof.symm) hstate
    (State.size_zeros n.dof)
  exact ⟨n, hn, hstate, c, hc, hgrouped, hempty, out', hok, hsize, hnonneg c hc hempty⟩

end Chain
end ClusterDynamics
