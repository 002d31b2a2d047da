import ClusterDynamics.Proofs.Doubling
import ClusterDynamics.Proofs.Overlap
import ClusterDynamics.Proofs.Productions

/-! Dissociations undo productions. A parent falls apart into a monomer that it may shed and an owner of
    the remainder exactly when a production joins the two. The compositions that a channel takes from its
    parent are the products of this production, so the box of the one is the box of the other, moved
    by the monomer, and both records count the same number of compositions. -/

namespace ClusterDynamics

variable {α : Type}

/-! ### Counting with scalars -/

/-- Summed over a range of coordinates, the constant one gives the number of coordinates. No step of the
    closed form rounds: with doubles, all that it adds up besides the number itself is zero. -/
def Scalar.CountsWords (α : Type) [Scalar α] : Prop :=
  ∀ lo hi s : Int, fits lo = true → fits hi = true → fits (-s) = true → lo < hi →
    Affine.axisSum lo hi (Affine.one.shifted s) Affine.one = (Scalar.ofInt (hi - lo) : α)

theorem Scalar.countsWords_exact {K : Type} [Field K] [LinearOrder K] [IsStrictOrderedRing K] :
    Scalar.CountsWords K := by
  intro lo hi s _ _ _ hlt
  rw [Affine.axisSum_eq_sum]
  simp only [Affine.eval_shifted, Affine.eval_one, mul_one, Finset.sum_const, Int.card_Ico, nsmul_eq_mul,
    Scalar.ofInt_exact]
  have hwidth : ((hi - lo).toNat : Int) = hi - lo := Int.toNat_of_nonneg (by omega)
  exact_mod_cast congrArg (Int.cast : Int → K) hwidth

/-- A box that holds a point and has corners made of words. -/
def Region.Addressable (r : Region) : Prop :=
  ∀ a : Direction, fits (r.lo.get a) = true ∧ fits (r.hi.get a) = true ∧ r.lo.get a < r.hi.get a

namespace Region

theorem shiftFits_iff {r : Region} {offset : Point} : r.shiftFits offset = true ↔
    ∀ a : Direction, fits (r.lo.get a + offset.get a) = true ∧ fits (r.hi.get a + offset.get a) = true := by
  simp only [shiftFits, List.all_eq_true, Bool.and_eq_true]
  exact ⟨fun h a => h a (mem_directions a), fun h a _ => h a⟩

/-- What a region has in common with one that is moved within words lies within words. -/
theorem addressable_of_intersection? {r s q : Region} {offset : Point}
    (h : r.intersection? (s.shifted offset) = some q) (hs : s.shiftFits offset = true) :
    q.Addressable := by
  obtain ⟨hmeet, rfl⟩ := intersection?_eq_some.mp h
  intro a
  have hcommon := intersects_iff.mp hmeet a
  obtain ⟨hlo, hhi⟩ := shiftFits_iff.mp hs a
  rw [fits_iff] at hlo hhi ⊢
  rw [fits_iff]
  simp only [meet, shifted, get_ofFn, Point.get_add] at hcommon ⊢
  omega

end Region

namespace Moment
variable [Scalar α]

theorem entry_zero_eq (hw : Scalar.CountsWords α) {this grouped q : Region} {shift : Point}
    (hq : q.Addressable) (hshift : shift.negFits = true) :
    (coefficients this shift grouped q : MomentMatrix α).entry 0 0 =
      productUntilZero (fun a => Scalar.ofInt (q.width a)) directions (weightScale this 0) := by
  have huses : (uses this 0 && uses grouped 0) = true := rfl
  rw [coefficients, MomentMatrix.entry_ofFn, coefficient, if_pos huses]
  refine congrArg (productUntilZero · directions _) (funext fun a => ?_)
  obtain ⟨hlo, hhi, hlt⟩ := hq a
  exact hw _ _ _ hlo hhi (List.all_eq_true.mp hshift a (mem_directions a)) hlt

end Moment

/-! ### Boxes of productions and channels -/

/-- The compositions that a parent sheds a monomer from are those that monomer and remainder make, so
    the two boxes have the same widths. -/
theorem width_eq_of_operands {M R g s : Cluster α} (h : g = M ∧ s = R ∨ g = R ∧ s = M)
    (hM : M.region.isUnit = true) (hs : s.region.isUnit = true) {parent q q' : Region}
    (hq : g.region.intersection? (parent.shifted s.region.lo.neg) = some q)
    (hq' : parent.intersection? (R.region.shifted M.region.lo) = some q') (a : Direction) :
    q.width a = q'.width a := by
  obtain ⟨-, rfl⟩ := Region.intersection?_eq_some.mp hq
  obtain ⟨-, rfl⟩ := Region.intersection?_eq_some.mp hq'
  have hone := Region.isUnit_iff.mp hM a
  have hone' := Region.isUnit_iff.mp hs a
  simp only [Region.width, Region.meet, Region.shifted, get_ofFn, Point.get_add, Point.get_neg]
    at hone hone' ⊢
  rcases h with ⟨rfl, rfl⟩ | ⟨rfl, rfl⟩ <;> omega

namespace Builder

theorem rangeFits_of_finish [Scalar α] {b : Builder α} {n : Network α} (h : b.finish = .ok n) :
    n.plan.rangeFits n.material n.toPopulation = true := by
  unfold finish at h
  obtain ⟨-, h⟩ := check_bind_eq_ok.mp h
  obtain ⟨p, hp, h⟩ := bind_eq_ok.mp h
  obtain ⟨_, hfits, h⟩ := bind_eq_ok.mp h
  cases h
  exact require_eq_ok.mp hfits

end Builder

namespace Network

variable [Scalar α] {n : Network α} {P M R g s : Cluster α} {i reverse : Nat}

theorem Built.addressable_production (hn : n.Built)
    (hfits : n.plan.rangeFits n.material n.toPopulation = true) (hP : P ∈ n.clusters)
    (hg : g ∈ n.clusters) (hs : s ∈ n.clusters)
    (he : Encounter.ofOperands n.toPopulation g s ∈ n.plan.productions) {q : Region}
    (hq : g.region.intersection? (P.region.shifted s.region.lo.neg) = some q) :
    q.Addressable ∧ s.region.lo.negFits = true := by
  simp only [ReactionPlan.rangeFits, Bool.and_eq_true, List.all_eq_true] at hfits
  have hencounter := hfits.1.1.1 _ (List.mem_filter.mp he).1
  unfold Encounter.rangeFits at hencounter
  rw [show n.region? (Encounter.ofOperands n.toPopulation g s).first = some g.region from
    hn.sound.region?_id hg, show n.region? (Encounter.ofOperands n.toPopulation g s).second =
      some s.region from hn.sound.region?_id hs] at hencounter
  simp only [Bool.and_eq_true, List.all_eq_true] at hencounter
  obtain ⟨⟨⟨hneg, -⟩, -⟩, hpieces⟩ := hencounter
  have hpiece := (hpieces _ (Encounter.mem_pieces hn.sound hP hq)).2
  rw [Option.all_some, hn.sound.region?_id hP, Option.all_some, Bool.and_eq_true] at hpiece
  exact ⟨Region.addressable_of_intersection? hq hpiece.1, hneg⟩

theorem Built.addressable_dissociation (hn : n.Built)
    (hfits : n.plan.rangeFits n.material n.toPopulation = true) (hR : R ∈ n.clusters) {c : Channel}
    (hc : (c, reverse) ∈ n.plan.dissociations) (hjoins : c.Joins P M R) : c.box.Addressable := by
  simp only [ReactionPlan.rangeFits, Bool.and_eq_true, List.all_eq_true] at hfits
  obtain ⟨x, hx, hxc⟩ := List.mem_filterMap.mp hc
  obtain ⟨_, -, hxc⟩ := Option.map_eq_some_iff.mp hxc
  cases hxc
  have hbox := hfits.1.2 _ hx
  rw [Channel.boxFits, hjoins.remainder_eq, hn.sound.region?_id hR, Option.all_some] at hbox
  exact Region.addressable_of_intersection? hjoins.box_eq hbox

/-! ### Dissociations -/

/-- Reaction `i` takes `parent` apart into `monomer` and `remainder`. -/
def Dissociates (n : Network α) (i parent monomer remainder : Nat) : Prop :=
  ∃ reverse energy, n.reactions[i]? = some (.dissociation parent monomer remainder reverse energy)

/-- The parent `P` may shed the monomer `M` and leave something in `R`, and a production joins the two
    again. -/
structure Reversible (n : Network α) (P M R : Cluster α) : Prop where
  single : M.isGrouped = false
  listed : M.composition ∈ n.material.monomers
  other : M.id ≠ P.id
  emits : n.material.canEmit P.composition M.composition = true
  meets : ∃ m, n.material.space.toPoint M.composition = .ok m ∧
    P.region.intersects (R.region.shifted m) = true
  production : ∃ i, n.Combines i M.id R.id

theorem Built.channel_of_dissociation (hn : n.Built) (hP : P ∈ n.clusters) (hM : M ∈ n.clusters)
    (hR : R ∈ n.clusters) {energy : α}
    (h : n.reactions[i]? = some (.dissociation P.id M.id R.id reverse energy)) :
    ∃ k c, i = n.plan.productions.length + k ∧ n.plan.dissociations[k]? = some (c, reverse) ∧
      c.Joins P M R ∧ M.composition ∈ n.material.monomers ∧ M.id ≠ P.id ∧
        n.material.canEmit P.composition M.composition = true := by
  obtain ⟨k, c, hi, hk, hparent, hmonomer, hremainder⟩ := hn.dissociation_of_getElem? h
  obtain ⟨hall, -⟩ := mem_dissociations_iff.mp (List.mem_of_getElem? hk)
  obtain ⟨P', hP', M', hM', R', hR', hjoins, hsheds⟩ := Channel.sheds_of_mem_all hn.sound hn.placed hall
  obtain rfl := hn.sound.eq_of_id hP' hP (hjoins.parent_eq.symm.trans hparent)
  obtain rfl := hn.sound.eq_of_id hM' hM (hjoins.monomer_eq.symm.trans hmonomer)
  obtain rfl := hn.sound.eq_of_id hR' hR (hjoins.remainder_eq.symm.trans hremainder)
  exact ⟨k, c, hi, hk, hjoins, hsheds⟩

/-- The reverse of a dissociation is the earlier production of its two clusters. -/
theorem Built.combines_reverse (hn : n.Built) {energy : α} {parent a b : Nat}
    (h : n.reactions[i]? = some (.dissociation parent a b reverse energy)) :
    n.Combines reverse a b ∧ reverse < i := by
  obtain ⟨k, c, rfl, hk, -, rfl, rfl⟩ := hn.dissociation_of_getElem? h
  obtain ⟨-, hreverse⟩ := mem_dissociations_iff.mp (List.mem_of_getElem? hk)
  obtain ⟨hlt, hjoins, -⟩ := List.findIdx?_eq_some_iff_getElem.mp hreverse
  exact ⟨hn.combines_iff.mpr ⟨_, List.getElem?_eq_getElem hlt, Encounter.joins_iff_pair.mp hjoins⟩,
    by omega⟩

theorem Built.reversible_of_dissociates (hn : n.Built) (hP : P ∈ n.clusters) (hM : M ∈ n.clusters)
    (hR : R ∈ n.clusters) (h : n.Dissociates i P.id M.id R.id) : n.Reversible P M R := by
  obtain ⟨reverse, energy, h⟩ := h
  obtain ⟨-, c, -, -, hjoins, hlisted, hother, hemits⟩ := hn.channel_of_dissociation hP hM hR h
  refine ⟨hjoins.single, hlisted, hother, hemits, ⟨M.region.lo, ?_, ?_⟩, reverse, (hn.combines_reverse h).1⟩
  · exact hn.placed M hM (hn.sound.isUnit hM hjoins.single)
  · exact hjoins.offset_eq ▸ (Region.intersection?_eq_some.mp hjoins.box_eq).1

theorem Reversible.intersects (hn : n.Built) (hM : M ∈ n.clusters) (h : n.Reversible P M R) :
    P.region.intersects (R.region.shifted M.region.lo) = true := by
  obtain ⟨m, hm, hmeet⟩ := h.meets
  rw [hn.placed M hM (hn.sound.isUnit hM h.single)] at hm
  cases hm
  exact hmeet

theorem Reversible.exists_makes (hn : n.Built) (hM : M ∈ n.clusters) (h : n.Reversible P M R) :
    ∃ x, M.Makes R x ∧ P.region.contains x = true := by
  obtain ⟨x, hx, hxR⟩ := Region.intersects_iff_exists.mp (h.intersects hn hM)
  have hlo := (Region.contains_of_isUnit (hn.sound.isUnit hM h.single)).mpr rfl
  refine ⟨x, ⟨_, _, hlo, Region.contains_shifted.mp hxR, ?_⟩, hx⟩
  rw [Point.add_comm, Point.add_neg_add]

theorem Built.exists_dissociates (hn : n.Built) (hP : P ∈ n.clusters) (hM : M ∈ n.clusters)
    (hR : R ∈ n.clusters) (h : n.Reversible P M R) : ∃ i, n.Dissociates i P.id M.id R.id := by
  have hall := Channel.mem_all hn.sound hn.placed hP hM hR h.single h.listed h.other h.emits
    (Region.intersection?_eq_some.mpr ⟨h.intersects hn hM, rfl⟩)
  obtain ⟨j, hj⟩ := h.production
  obtain ⟨e, he, hpair⟩ := hn.combines_iff.mp hj
  obtain ⟨reverse, hd⟩ := mem_dissociations.mpr
    ⟨hall, e, List.mem_of_getElem? he, Encounter.joins_iff_pair.mpr hpair⟩
  obtain ⟨i, hi⟩ := hn.exists_dissociation hd
  exact ⟨i, reverse, _, hi⟩

theorem Built.eq_of_dissociates (hn : n.Built) (hm : n.material.monomers.Nodup) {parent a b i j : Nat}
    (hi : n.Dissociates i parent a b) (hj : n.Dissociates j parent a b) : i = j := by
  obtain ⟨_, _, hi⟩ := hi
  obtain ⟨_, _, hj⟩ := hj
  obtain ⟨k, c, rfl, hk, hc⟩ := hn.dissociation_of_getElem? hi
  obtain ⟨l, d, rfl, hl, hd⟩ := hn.dissociation_of_getElem? hj
  by_contra hne
  refine rel_of_pairwise (fun h h' => h h'.symm) (hn.pairwise_dissociations hm) (by omega) hk hl ?_
  exact ⟨hc.1.trans hd.1.symm, hc.2.1.trans hd.2.1.symm, hc.2.2.trans hd.2.2.symm⟩

/-! ### Records of both directions -/

/-- The emission records of a cluster: one for each of its dissociations. -/
theorem Built.mem_emission (hn : n.Built) (hP : P ∈ n.clusters) {r : Record Couple α} :
    r ∈ (n.linksOf P.id).emission ↔
      ∃ k d, n.plan.dissociations[k]? = some d ∧ d.1.parent = P.id ∧
        r = ⟨n.plan.productions.length + k, ⟨d.1.monomer, d.1.remainder⟩,
          Moment.coefficients P.region Point.origin P.region d.1.box⟩ := by
  obtain ⟨hlt, -⟩ := Array.getElem?_eq_some_iff.mp (hn.sound.getElem?_id hP)
  rw [hn.linksOf hP, ReactionPlan.mem_records hlt]
  simp only [List.getElem?_map, Option.map_eq_some_iff]
  constructor
  · rintro ⟨k, c, ⟨d, hd, rfl⟩, hr⟩
    unfold ReactionPlan.emissionRecords at hr
    split at hr
    · next parent hparent =>
      obtain ⟨hid, rfl⟩ := Prod.mk.inj (List.mem_singleton.mp hr)
      rw [← hid, hn.sound.region?_id hP] at hparent
      cases hparent
      exact ⟨k, d, hd, hid.symm, rfl⟩
    · exact absurd hr List.not_mem_nil
  · rintro ⟨k, d, hd, hparent, rfl⟩
    refine ⟨k, d.1, ⟨d, hd, rfl⟩, ?_⟩
    unfold ReactionPlan.emissionRecords
    rw [hparent, hn.sound.region?_id hP]
    exact List.mem_singleton_self _

/-- Emission and production of a parent count the same compositions. -/
theorem Built.entry_zero_eq (hn : n.Built) (hfits : n.plan.rangeFits n.material n.toPopulation = true)
    (hw : Scalar.CountsWords α) (hP : P ∈ n.clusters) (hM : M ∈ n.clusters) (hR : R ∈ n.clusters)
    {energy : α} (h : n.reactions[i]? = some (.dissociation P.id M.id R.id reverse energy))
    {r : Record Couple α} (hr : r ∈ (n.linksOf P.id).production) (hri : r.reaction = reverse)
    {e : Record Couple α} (he : e ∈ (n.linksOf P.id).emission) (hei : e.reaction = i) :
    e.coefs.entry 0 0 = r.coefs.entry 0 0 := by
  -- The emission record is made from the box of the channel, the production record from that of the
  -- encounter with the number `reverse`, which is the one of monomer and remainder.
  obtain ⟨k, c, rfl, hk, hjoins, -⟩ := hn.channel_of_dissociation hP hM hR h
  obtain ⟨l, d, hl, -, rfl⟩ := (hn.mem_emission hP).mp he
  obtain rfl : l = k := Nat.add_left_cancel hei
  cases hk.symm.trans hl
  obtain ⟨j, g, hg, s, hs, q, hj, hq, rfl⟩ := (hn.mem_production hP).mp hr
  obtain rfl : j = reverse := hri
  obtain ⟨g', s', hcase, hsingle, -, -, hj'⟩ := hn.of_combines hM hR (hn.combines_reverse h).1
  obtain ⟨hg', hs'⟩ := mem_of_operands hM hR hcase
  have heq := Option.some.inj (hj.symm.trans hj')
  obtain rfl := hn.sound.eq_of_id hg hg' (congrArg Encounter.first heq)
  obtain rfl := hn.sound.eq_of_id hs hs' (congrArg Encounter.second heq)
  have hbox := hn.addressable_dissociation hfits hR (List.mem_of_getElem? hl) hjoins
  obtain ⟨hqbox, hneg⟩ := hn.addressable_production hfits hP hg hs (List.mem_of_getElem? hj) hq
  have hwidth : ∀ a, q.width a = c.box.width a := width_eq_of_operands hcase
    (hn.sound.isUnit hM hjoins.single) (hn.sound.isUnit hs hsingle) hq (hjoins.offset_eq ▸ hjoins.box_eq)
  have horigin : Point.origin.negFits = true := by decide
  rw [Moment.entry_zero_eq hw hbox horigin, Moment.entry_zero_eq hw hqbox hneg]
  simp only [hwidth]

/-- In a finished network a parent falls apart into a monomer and a remainder exactly when it may shed the
    monomer and a production joins the two, and then in one dissociation. This refers to the production,
    which comes before it and makes the parent, and counts as many compositions. -/
theorem dissociates_of_finish {α : Type} [Analytic α] {source params : NetworkParams α}
    {material : Material α} {b : Builder α} {n : Network α}
    (hchoice : source.chooseMaterial = .ok material) (hb : b.Reachable params material)
    (hfinish : b.finish = .ok n) {P M R : Cluster α} (hP : P ∈ n.clusters) (hM : M ∈ n.clusters)
    (hR : R ∈ n.clusters) :
    (n.Reversible P M R → ∃! i, n.Dissociates i P.id M.id R.id) ∧
    (¬n.Reversible P M R → ∀ i, ¬n.Dissociates i P.id M.id R.id) ∧
    ∀ i reverse energy, n.reactions[i]? = some (.dissociation P.id M.id R.id reverse energy) →
      n.Combines reverse M.id R.id ∧ reverse < i ∧
        (∃ r ∈ (n.linksOf P.id).production, r.reaction = reverse) ∧
        (∃ e ∈ (n.linksOf P.id).emission, e.reaction = i) ∧
        (Scalar.CountsWords α →
          ∀ r ∈ (n.linksOf P.id).production, r.reaction = reverse →
            ∀ e ∈ (n.linksOf P.id).emission, e.reaction = i → e.coefs.entry 0 0 = r.coefs.entry 0 0) := by
  obtain ⟨hn, -, hmaterial⟩ := built_of_finish hb hfinish
  have hmonomers : n.material.monomers.Nodup := nodup_monomers (hmaterial ▸ hchoice)
  refine ⟨fun h => ?_, fun h i hi => h (hn.reversible_of_dissociates hP hM hR hi), ?_⟩
  · obtain ⟨i, hi⟩ := hn.exists_dissociates hP hM hR h
    exact ⟨i, hi, fun j hj => hn.eq_of_dissociates hmonomers hj hi⟩
  · intro i reverse energy h
    obtain ⟨hcombines, hlt⟩ := hn.combines_reverse h
    have hreversible := hn.reversible_of_dissociates hP hM hR ⟨reverse, energy, h⟩
    refine ⟨hcombines, hlt, ?_, ?_, fun hw r hr hri e he hei =>
      hn.entry_zero_eq (Builder.rangeFits_of_finish hfinish) hw hP hM hR h hr hri he hei⟩
    · exact (hn.exists_record_iff hM hR hcombines hP).mpr (hreversible.exists_makes hn hM)
    · obtain ⟨k, c, rfl, hk, hjoins, -⟩ := hn.channel_of_dissociation hP hM hR h
      exact ⟨_, (hn.mem_emission hP).mpr ⟨k, _, hk, hjoins.parent_eq, rfl⟩, rfl⟩

end Network

/-- In the smallest iron network a bubble of one helium atom falls apart into this atom and a vacancy, once,
    and its records count the same compositions. -/
theorem Pair.dissociates_once : ∃ n, Network.ofParams params = .ok n ∧
    ∃ P ∈ n.clusters, ∃ M ∈ n.clusters, ∃ R ∈ n.clusters, P.composition = .bubble ∧
      M.composition = .single .helium 1 ∧ R.composition = .single .vacancy 1 ∧
        (∃! i, n.Dissociates i P.id M.id R.id) ∧
        ∀ i reverse energy, n.reactions[i]? = some (.dissociation P.id M.id R.id reverse energy) →
          ∀ r ∈ (n.linksOf P.id).production, r.reaction = reverse →
            ∀ e ∈ (n.linksOf P.id).emission, e.reaction = i → e.coefs.entry 0 0 = r.coefs.entry 0 0 := by
  obtain ⟨n, hn, P, hP, M, hM, R, hR, hPc, hMc, hRc, hmobile, hsingle, hlisted, hother, hemits, hinP, hinM,
      hinR⟩ :
      ∃ n, Network.ofParams params = .ok n ∧ ∃ P ∈ n.clusters, ∃ M ∈ n.clusters, ∃ R ∈ n.clusters,
        P.composition = .bubble ∧ M.composition = .single .helium 1 ∧ R.composition = .single .vacancy 1 ∧
          M.isMobile = true ∧ M.isGrouped = false ∧ M.composition ∈ n.material.monomers ∧ M.id ≠ P.id ∧
            n.material.canEmit P.composition M.composition = true ∧
              P.region.contains (DefectSpace.point 1 1) = true ∧
                M.region.contains (DefectSpace.point 1 0) = true ∧
                  R.region.contains (DefectSpace.point 0 1) = true :=
    exists_eq_ok (by decide +kernel)
  obtain ⟨b, hchoice, hb, hfinish⟩ := Network.reachable_of_ofParams hn
  obtain ⟨hbuilt, -, -⟩ := Network.built_of_finish hb hfinish
  have hunit := hbuilt.sound.isUnit hM hsingle
  have hlo := (Region.contains_of_isUnit hunit).mp hinM
  have hproduct : M.Makes R (DefectSpace.point 1 1) := ⟨_, _, hinM, hinR, by decide⟩
  obtain ⟨j, hj⟩ := hbuilt.exists_combines hM hR ⟨.inl hmobile, .inl hsingle, _, hproduct,
    .inr (Population.owns_iff.mpr ⟨P, hP, hinP⟩)⟩
  have hmeets : P.region.intersects (R.region.shifted M.region.lo) = true :=
    Region.intersects_iff_exists.mpr ⟨_, hinP, Region.contains_shifted.mpr (by rw [← hlo]; exact hinR)⟩
  have hreversible : n.Reversible P M R :=
    ⟨hsingle, hlisted, hother, hemits, ⟨_, hbuilt.placed M hM hunit, hmeets⟩, j, hj⟩
  obtain ⟨honce, -, hrecords⟩ := Network.dissociates_of_finish hchoice hb hfinish hP hM hR
  exact ⟨n, hn, P, hP, M, hM, R, hR, hPc, hMc, hRc, honce hreversible, fun i reverse energy h =>
    (hrecords i reverse energy h).2.2.2.2 Scalar.countsWords_exact⟩

end ClusterDynamics
