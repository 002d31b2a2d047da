import ClusterDynamics.Proofs.Kinetics
import ClusterDynamics.Proofs.TwinRates

/-! The rows of twins. What an encounter does depends on the regions of its operands and on the compositions
    that are owned, and two single operands may change places; what a channel does depends on the regions
    of its three clusters. Twins have the same regions and the same rate constants, so with corresponding
    states their rows are equal, though the sums run over the reactions in another order. -/

namespace ClusterDynamics

/-- What is read off the members of a numbered list does not depend on their numbers. -/
theorem map_fst_zipIdx {β γ : Type} (l : List β) (start : Nat) (f : β → γ) :
    ((l.zipIdx start).map fun e => f e.1) = l.map f := by
  rw [← List.zipIdx_map_fst start l, List.map_map, List.zipIdx_map_fst]
  rfl

/-! ### Effects without numbers -/

namespace Encounter

theorem product_of_mem_recombination {target : Region} {shift : Point} {q : Piece}
    (h : q ∈ recombination target shift) : q.product = none := by
  unfold recombination at h
  split_ifs at h
  · rw [List.mem_singleton.mp h]
  · exact absurd h List.not_mem_nil

theorem isSome_product_of_mem_owned {α : Type} {p : Population α} {g : Region} {shift : Point}
    {owners : List Nat} {q : Piece} (h : q ∈ owned p g shift owners) : q.product.isSome = true := by
  obtain ⟨id, -, h⟩ := List.mem_filterMap.mp h
  obtain ⟨_, -, h⟩ := Option.bind_eq_some_iff.mp h
  obtain ⟨_, -, h⟩ := Option.bind_eq_some_iff.mp h
  cases h
  rfl

end Encounter

section
variable {K : Type} [Field K] {p : Population K} {g s : Cluster K}

/-- What an encounter does to a quantity depends on the regions of its operands and on the compositions that
    are owned. -/
theorem Encounter.effect_eq_sum (S : p.Sound) (g s : Cluster K) (f conc : Point → K) (rate : K) :
    (ofOperands p g s).effect f conc rate = ∑ y ∈ g.region.lattice, conc y * rate *
      ((if y.add s.region.lo = Point.origin then -f y + -f s.region.lo else 0) +
        if p.owns (y.add s.region.lo) then f (y.add s.region.lo) + (-f y + -f s.region.lo) else 0) := by
  have hlost : ((recombination (g.region.shifted s.region.lo) s.region.lo).map fun q =>
      ∑ y ∈ q.box.lattice, conc y * rate *
        ((if q.product.isSome then f (y.add s.region.lo) else 0) + (-f y + -f s.region.lo))).sum =
      ∑ y ∈ g.region.lattice, if y.add s.region.lo = Point.origin then
        conc y * rate * (-f y + -f s.region.lo) else 0 := by
    rw [← sum_recombination]
    refine congrArg List.sum (List.map_congr_left fun q hq => ?_)
    simp [product_of_mem_recombination hq]
  have hkept : ((owned p g.region s.region.lo (p.tree.query (g.region.shifted s.region.lo))).map fun q =>
      ∑ y ∈ q.box.lattice, conc y * rate *
        ((if q.product.isSome then f (y.add s.region.lo) else 0) + (-f y + -f s.region.lo))).sum =
      ∑ y ∈ g.region.lattice, if p.owns (y.add s.region.lo) then
        conc y * rate * (f (y.add s.region.lo) + (-f y + -f s.region.lo)) else 0 := by
    rw [← sum_owned _ S]
    refine congrArg List.sum (List.map_congr_left fun q hq => ?_)
    simp [isSome_product_of_mem_owned hq]
  rw [effect, ofOperands, List.map_append, List.sum_append, hlost, hkept, ← Finset.sum_add_distrib]
  refine Finset.sum_congr rfl fun y _ => ?_
  simp only [mul_add, mul_ite, mul_zero]

end

/-! ### Corresponding states -/

namespace Network

/-- Corresponding slots of two networks have the same values. -/
structure Relabels {α : Type} [Scalar α] (n n' : Network α) (x x' : Array α) : Prop where
  size : x.size = n.dof
  size' : x'.size = n'.dof
  value : ∀ s s', n.Corresponds n' s s' → State.value x s = State.value x' s'

/-- The regions of the two clusters of an encounter, in no order. -/
def regionsOf {α : Type} (n : Network α) (e : Encounter) : Sym2 (Option Region) := e.pair.map n.region?

/-- The regions of parent, monomer and remainder. -/
def splitOf {α : Type} (n : Network α) (c : Channel) : Option Region × Option Region × Option Region :=
  (n.region? c.parent, n.region? c.monomer, n.region? c.remainder)

section
variable {α : Type} [Scalar α] {n n' : Network α}

omit [Scalar α] in
theorem regionsOf_ofOperands (S : n.toPopulation.Sound) {g s : Cluster α} (hg : g ∈ n.clusters)
    (hs : s ∈ n.clusters) :
    n.regionsOf (.ofOperands n.toPopulation g s) = s(some g.region, some s.region) := by
  show s(n.region? g.id, n.region? s.id) = _
  rw [S.region?_id hg, S.region?_id hs]

omit [Scalar α] in
theorem splitOf_of_joins (S : n.toPopulation.Sound) {P M Q : Cluster α} {c : Channel} (hc : c.Joins P M Q)
    (hP : P ∈ n.clusters) (hM : M ∈ n.clusters) (hQ : Q ∈ n.clusters) :
    n.splitOf c = (some P.region, some M.region, some Q.region) := by
  rw [splitOf, hc.parent_eq, hc.monomer_eq, hc.remainder_eq, S.region?_id hP, S.region?_id hM,
    S.region?_id hQ]

theorem Built.nodup_regionsOf (hn : n.Built) : (n.plan.productions.map n.regionsOf).Nodup := by
  refine List.pairwise_map.mpr
    (((Encounter.pairwise_pair hn.sound).filter _).imp_of_mem fun {e f} he hf hne heq => hne ?_)
  obtain ⟨g, hg, s, hs, -, rfl⟩ := of_mem_productions he
  obtain ⟨g', hg', s', hs', -, rfl⟩ := of_mem_productions hf
  rw [regionsOf_ofOperands hn.sound hg hs, regionsOf_ofOperands hn.sound hg' hs', Sym2.eq_iff] at heq
  simp only [Option.some.injEq] at heq
  rcases heq with ⟨h, h'⟩ | ⟨h, h'⟩
  · rw [hn.eq_of_region hg hg' h, hn.eq_of_region hs hs' h']
  · rw [hn.eq_of_region hg hs' h, hn.eq_of_region hs hg' h']
    exact Sym2.eq_swap

theorem Built.nodup_splitOf (hn : n.Built) (hm : n.material.monomers.Nodup) :
    (n.plan.dissociations.map fun d => n.splitOf d.1).Nodup := by
  refine List.pairwise_map.mpr ((hn.pairwise_dissociations hm).imp_of_mem fun {c d} hc hd hne heq => hne ?_)
  obtain ⟨P, hP, M, hM, Q, hQ, hjoins⟩ := hn.of_mem_dissociations hc
  obtain ⟨P', hP', M', hM', Q', hQ', hjoins'⟩ := hn.of_mem_dissociations hd
  rw [splitOf_of_joins hn.sound hjoins hP hM hQ, splitOf_of_joins hn.sound hjoins' hP' hM' hQ'] at heq
  simp only [Prod.mk.injEq, Option.some.injEq] at heq
  obtain rfl := hn.eq_of_region hP hP' heq.1
  obtain rfl := hn.eq_of_region hM hM' heq.2.1
  obtain rfl := hn.eq_of_region hQ hQ' heq.2.2
  exact ⟨hjoins.parent_eq.trans hjoins'.parent_eq.symm, hjoins.monomer_eq.trans hjoins'.monomer_eq.symm,
    hjoins.remainder_eq.trans hjoins'.remainder_eq.symm⟩

theorem Built.getElem?_of_mem_zipIdx (hn : n.Built) {d : Channel × Nat} {i : Nat}
    (h : (d, i) ∈ n.plan.dissociations.zipIdx n.plan.productions.length) :
    n.reactions[i]? = some (.dissociation d.1.parent d.1.monomer d.1.remainder d.2
      (d.1.bindingEnergy n.material)) := by
  rw [← Array.getElem?_toList, ← List.mk_mem_zipIdx_iff_getElem?, hn.zipIdx_reactions]
  exact List.mem_append_right _ (List.mem_map.mpr ⟨_, h, rfl⟩)

theorem Built.sinkOf_id (hn : n.Built) {c : Cluster α} (hc : c ∈ n.clusters) :
    n.sinkOf c.id = n.material.sinkStrength c.composition := by
  have hsinks : n.sinks = n.clusters.map fun c => n.material.sinkStrength c.composition := by
    conv_lhs => rw [hn.assembled]
    rfl
  rw [sinkOf, hsinks, Array.getD_eq_getD_getElem?, Array.getElem?_map, hn.sound.getElem?_id hc]
  rfl

namespace Reordered
variable (R : n.Reordered n')
include R

theorem mem_regionsOf {x : Sym2 (Option Region)} (h : x ∈ n.plan.productions.map n.regionsOf) :
    x ∈ n'.plan.productions.map n'.regionsOf := by
  obtain ⟨e, he, rfl⟩ := List.mem_map.mp h
  obtain ⟨g, hg, s, hs, -, rfl⟩ := of_mem_productions he
  obtain ⟨i, hi⟩ := List.mem_iff_getElem?.mp he
  obtain ⟨g', hgg'⟩ := R.twin hg
  obtain ⟨s', hss'⟩ := R.twin hs
  obtain ⟨j, hj⟩ := R.exists_combines hgg' hss' ⟨i, R.built.combines_iff.mpr ⟨_, hi, rfl⟩⟩
  obtain ⟨a, c, hcase, -, -, -, hac⟩ := R.built'.of_combines hgg'.mem' hss'.mem' hj
  obtain ⟨ha, hc⟩ := mem_of_operands hgg'.mem' hss'.mem' hcase
  refine List.mem_map.mpr ⟨_, List.mem_of_getElem? hac, ?_⟩
  rw [regionsOf_ofOperands R.built'.sound ha hc, regionsOf_ofOperands R.built.sound hg hs, hgg'.region_eq,
    hss'.region_eq]
  rcases hcase with ⟨rfl, rfl⟩ | ⟨rfl, rfl⟩
  · rfl
  · exact Sym2.eq_swap

theorem mem_splitOf {x : Option Region × Option Region × Option Region}
    (h : x ∈ n.plan.dissociations.map fun d => n.splitOf d.1) :
    x ∈ n'.plan.dissociations.map fun d => n'.splitOf d.1 := by
  obtain ⟨d, hd, rfl⟩ := List.mem_map.mp h
  obtain ⟨P, hP, M, hM, Q, hQ, hjoins⟩ := R.built.of_mem_dissociations hd
  obtain ⟨P', hPP'⟩ := R.twin hP
  obtain ⟨M', hMM'⟩ := R.twin hM
  obtain ⟨Q', hQQ'⟩ := R.twin hQ
  obtain ⟨i, hi⟩ := R.built.exists_dissociation hd
  rw [hjoins.parent_eq, hjoins.monomer_eq, hjoins.remainder_eq] at hi
  have hreversible := R.reversible hPP' hMM' hQQ' (R.built.reversible_of_dissociates hP hM hQ ⟨_, _, hi⟩)
  obtain ⟨j, reverse, energy, hj⟩ := R.built'.exists_dissociates hPP'.mem' hMM'.mem' hQQ'.mem' hreversible
  obtain ⟨k, c, -, hk, hjoins', -⟩ := R.built'.channel_of_dissociation hPP'.mem' hMM'.mem' hQQ'.mem' hj
  refine List.mem_map.mpr ⟨_, List.mem_of_getElem? hk, ?_⟩
  rw [splitOf_of_joins R.built'.sound hjoins' hPP'.mem' hMM'.mem' hQQ'.mem',
    splitOf_of_joins R.built.sound hjoins hP hM hQ, hPP'.region_eq, hMM'.region_eq, hQQ'.region_eq]

end Reordered
end

/-! ### Rows of twins -/

section
variable {K : Type} [Field K] [LinearOrder K] {n n' : Network K} {state state' : Array K}
  {c c' g g' s s' : Cluster K}

/-- Two single clusters may change places in an encounter. -/
theorem Built.effect_swap (hn : n.Built) (hg : g ∈ n.clusters) (hs : s ∈ n.clusters)
    (hgs : g.isGrouped = false) (hss : s.isGrouped = false) (f : Point → K) (rate : K) :
    (Encounter.ofOperands n.toPopulation g s).effect f (n.concentration state g.id)
        (rate * State.value state s.id) =
      (Encounter.ofOperands n.toPopulation s g).effect f (n.concentration state s.id)
        (rate * State.value state g.id) := by
  rw [Encounter.effect_eq_sum hn.sound, Encounter.effect_eq_sum hn.sound,
    Region.lattice_of_isUnit (hn.sound.isUnit hg hgs), Region.lattice_of_isUnit (hn.sound.isUnit hs hss),
    Finset.sum_singleton, Finset.sum_singleton, concentration_single hn.sound hg hgs,
    concentration_single hn.sound hs hss, Point.add_comm s.region.lo, add_comm (-f s.region.lo)]
  ring

namespace Reordered
variable (R : n.Reordered n') (hx : n.Relabels n' state state')
include R hx

theorem gather_eq (h : n.Twins n' c c') : State.gather state c = State.gather state' c' := by
  refine Vector.ext fun i hi => ?_
  let j : BasisIndex := ⟨i, hi⟩
  show (State.gather state c).get j = (State.gather state' c').get j
  cases hslot : c.slot? j.val with
  | some s =>
    have hs : (j, s) ∈ c.slots := Cluster.mem_slots.mpr hslot
    obtain ⟨s', hs'⟩ := R.exists_slot h hs
    rw [State.get_gather hs, State.get_gather hs', hx.value s s' ((R.corresponds_iff h hs).mpr hs')]
  | none =>
    have hnone : c'.slot? j.val = none := by
      refine Option.eq_none_iff_forall_ne_some.mpr fun s' hs' => ?_
      obtain ⟨s, hs⟩ := R.symm.exists_slot h.symm (Cluster.mem_slots.mpr hs')
      rw [Cluster.mem_slots.mp hs] at hslot
      cases hslot
    rw [State.gather, State.gather, get_ofFn, get_ofFn, hslot, hnone]

theorem concentration_eq (h : n.Twins n' c c') (y : Point) :
    n.concentration state c.id y = n'.concentration state' c'.id y := by
  rw [concentration_id R.built.sound h.mem, concentration_id R.built'.sound h.mem', R.gather_eq hx h,
    h.region_eq]

theorem effect_eq (hg : n.Twins n' g g') (hs : n.Twins n' s s') (f : Point → K) (rate : K) :
    (Encounter.ofOperands n.toPopulation g s).effect f (n.concentration state g.id)
        (rate * State.value state s.id) =
      (Encounter.ofOperands n'.toPopulation g' s').effect f (n'.concentration state' g'.id)
        (rate * State.value state' s'.id) := by
  rw [Encounter.effect_eq_sum R.built.sound, Encounter.effect_eq_sum R.built'.sound, hg.region_eq,
    hs.region_eq, hx.value _ _ (R.corresponds_id hs)]
  refine Finset.sum_congr rfl fun y _ => ?_
  rw [R.concentration_eq hx hg, R.owns_eq]

variable {k k' : RateConstants K} (hk : RateConstants.Agrees n n' k k')
include hk

theorem sum_productions_eq (f : Point → K) :
    (n.plan.productions.zipIdx.map fun e => e.1.effect f (n.concentration state e.1.first)
        (k.rate e.2 * State.value state e.1.second)).sum =
      (n'.plan.productions.zipIdx.map fun e => e.1.effect f (n'.concentration state' e.1.first)
        (k'.rate e.2 * State.value state' e.1.second)).sum := by
  have hkeys := fun m : Network K => map_fst_zipIdx m.plan.productions 0 m.regionsOf
  refine sum_eq_of_keys (fun e => n.regionsOf e.1) (fun e => n'.regionsOf e.1)
    (hkeys n ▸ R.built.nodup_regionsOf) (hkeys n' ▸ R.built'.nodup_regionsOf) (fun x => ?_) ?_
  · rw [hkeys n, hkeys n']
    exact ⟨R.mem_regionsOf, R.symm.mem_regionsOf⟩
  rintro ⟨e, i⟩ he ⟨e', i'⟩ he' heq
  replace he := List.mk_mem_zipIdx_iff_getElem?.mp he
  replace he' := List.mk_mem_zipIdx_iff_getElem?.mp he'
  obtain ⟨g, hg, s, hs, hsingle, rfl⟩ := of_mem_productions (List.mem_of_getElem? he)
  obtain ⟨g', hg', s', hs', hsingle', rfl⟩ := of_mem_productions (List.mem_of_getElem? he')
  have hi : n.Combines i g.id s.id := R.built.combines_iff.mpr ⟨_, he, rfl⟩
  have hi' : n'.Combines i' g'.id s'.id := R.built'.combines_iff.mpr ⟨_, he', rfl⟩
  -- Equal regions name the same pair, but either of the two may come first.
  rw [regionsOf_ofOperands R.built.sound hg hs, regionsOf_ofOperands R.built'.sound hg' hs',
    Sym2.eq_iff] at heq
  simp only [Option.some.injEq] at heq
  show (Encounter.ofOperands n.toPopulation g s).effect f (n.concentration state g.id)
      (k.rate i * State.value state s.id) =
    (Encounter.ofOperands n'.toPopulation g' s').effect f (n'.concentration state' g'.id)
      (k'.rate i' * State.value state' s'.id)
  rcases heq with ⟨hgg, hss⟩ | ⟨hgs, hsg⟩
  · have hgg := R.twins_of_region hg hg' hgg
    have hss := R.twins_of_region hs hs' hss
    rw [hk.production hgg hss hi hi', R.effect_eq hx hgg hss]
  · -- The operands have changed places, so neither of them is grouped.
    have hgs := R.twins_of_region hg hs' hgs
    have hsg := R.twins_of_region hs hg' hsg
    have hgsingle : g.isGrouped = false := (R.isGrouped_eq hgs).trans hsingle'
    obtain ⟨first, second, hreaction, hpair⟩ := hi'
    rw [hk.production hgs hsg hi ⟨first, second, hreaction, hpair.trans Sym2.eq_swap⟩,
      R.built.effect_swap hg hs hgsingle hsingle, R.effect_eq hx hsg hgs]

theorem sum_dissociations_eq (f : Point → K) :
    ((n.plan.dissociations.zipIdx n.plan.productions.length).map fun d =>
        d.1.1.effect f (n.concentration state d.1.1.parent) (k.rate d.2)).sum =
      ((n'.plan.dissociations.zipIdx n'.plan.productions.length).map fun d =>
        d.1.1.effect f (n'.concentration state' d.1.1.parent) (k'.rate d.2)).sum := by
  have hkeys := fun (m : Network K) (start : Nat) =>
    map_fst_zipIdx m.plan.dissociations start fun d => m.splitOf d.1
  refine sum_eq_of_keys (fun d => n.splitOf d.1.1) (fun d => n'.splitOf d.1.1)
    (hkeys n _ ▸ R.built.nodup_splitOf R.monomers) (hkeys n' _ ▸ R.built'.nodup_splitOf R.symm.monomers)
    (fun x => ?_) ?_
  · rw [hkeys n, hkeys n']
    exact ⟨R.mem_splitOf, R.symm.mem_splitOf⟩
  rintro ⟨d, i⟩ hd ⟨d', i'⟩ hd' heq
  have hi := R.built.getElem?_of_mem_zipIdx hd
  have hi' := R.built'.getElem?_of_mem_zipIdx hd'
  obtain ⟨P, hP, M, hM, Q, hQ, hjoins⟩ := R.built.of_mem_dissociations (List.fst_mem_of_mem_zipIdx hd)
  obtain ⟨P', hP', M', hM', Q', hQ', hjoins'⟩ :=
    R.built'.of_mem_dissociations (List.fst_mem_of_mem_zipIdx hd')
  rw [splitOf_of_joins R.built.sound hjoins hP hM hQ, splitOf_of_joins R.built'.sound hjoins' hP' hM' hQ']
    at heq
  simp only [Prod.mk.injEq, Option.some.injEq] at heq
  have hPP := R.twins_of_region hP hP' heq.1
  have hMM := R.twins_of_region hM hM' heq.2.1
  have hQQ := R.twins_of_region hQ hQ' heq.2.2
  rw [hjoins.parent_eq, hjoins.monomer_eq, hjoins.remainder_eq] at hi
  rw [hjoins'.parent_eq, hjoins'.monomer_eq, hjoins'.remainder_eq] at hi'
  obtain ⟨hoffset, hbox⟩ := hPP.channel_eq hMM hQQ hjoins hjoins'
  show d.1.effect f (n.concentration state d.1.parent) (k.rate i) =
    d'.1.effect f (n'.concentration state' d'.1.parent) (k'.rate i')
  rw [Channel.effect, Channel.effect, hbox, hoffset, hjoins.parent_eq, hjoins'.parent_eq,
    hk.dissociation hPP hMM hQQ ⟨_, _, hi⟩ ⟨_, _, hi'⟩]
  refine Finset.sum_congr rfl fun y _ => ?_
  rw [R.concentration_eq hx hPP]

theorem get_total_eq [IsStrictOrderedRing K] (h : n.Twins n' c c') {j : BasisIndex} {t t' : Nat}
    (ht : (j, t) ∈ c.slots) (ht' : (j, t') ∈ c'.slots) :
    (n.terms k state c).total.get j = (n'.terms k' state' c').total.get j := by
  have hslot := hx.value t t' ((R.corresponds_iff h ht).mpr ht')
  rw [get_total, get_total, get_production_add_combination R.built h.mem,
    get_production_add_combination R.built' h.mem', get_dissociation_add_emission R.built h.mem,
    get_dissociation_add_emission R.built' h.mem', get_sinkTerm ht, get_sinkTerm ht', h.region_eq,
    R.sum_productions_eq hx hk, R.sum_dissociations_eq hx hk, R.built.sinkOf_id h.mem,
    R.built'.sinkOf_id h.mem', h.composition_eq, R.material_eq, hk.diffusion h, hslot]

end Reordered
end
end Network
end ClusterDynamics
