import ClusterDynamics.Proofs.Reactions

/-! Which encounters and channels there are. Two clusters meet as soon as one of them moves and they are
    not both grouped, and the meeting makes something when a product has an owner. A parent has a
    channel for every monomer that it may shed and every owner of a remainder, and no two channels take
    one parent apart into the same monomer and remainder. -/

namespace ClusterDynamics

variable {α : Type}

/-! ### Encounters -/

namespace Encounter

variable {p : Population α}

theorem joins_iff {e : Encounter} {a b : Nat} :
    e.joins a b = true ↔ (e.first = a ∧ e.second = b) ∨ (e.first = b ∧ e.second = a) := by
  simp only [joins, Bool.or_eq_true, Bool.and_eq_true, beq_iff_eq]

theorem exists_operands {a b : Cluster α} (h : (a.isGrouped && b.isGrouped) = false) :
    ∃ g s, operands a b = some (g, s) ∧ (g = a ∧ s = b ∨ g = b ∧ s = a) := by
  unfold operands
  rw [h, if_neg Bool.false_ne_true]
  split_ifs
  · exact ⟨a, b, rfl, .inl ⟨rfl, rfl⟩⟩
  · exact ⟨b, a, rfl, .inr ⟨rfl, rfl⟩⟩
  · exact ⟨a, b, rfl, .inl ⟨rfl, rfl⟩⟩
  · exact ⟨b, a, rfl, .inr ⟨rfl, rfl⟩⟩

theorem exists_of_facing [Scalar α] {a b : Cluster α} (ha : a ∈ p.clusters) (hb : b ∈ p.clusters)
    (hmobile : a.isMobile = true) (hface : facing a b = true) (h : (a.isGrouped && b.isGrouped) = false) :
    ∃ g s, ofOperands p g s ∈ Encounter.all p ∧ s.isGrouped = false ∧
      (g = a ∧ s = b ∨ g = b ∧ s = a) := by
  obtain ⟨g, s, ho, hcase⟩ := exists_operands h
  refine ⟨g, s, List.mem_flatMap.mpr ⟨a, ?_, List.mem_filterMap.mpr ⟨b, ?_, ?_⟩⟩,
    (operands_eq_some ho).2, hcase⟩
  · exact List.mem_filter.mpr ⟨Array.mem_toList_iff.mpr ha, hmobile⟩
  · exact List.mem_filter.mpr ⟨Array.mem_toList_iff.mpr hb, hface⟩
  · rw [ho]
    rfl

/-- Two clusters of which one moves meet, unless both are grouped. -/
theorem exists_of_isMobile [Scalar α] {a b : Cluster α} (ha : a ∈ p.clusters) (hb : b ∈ p.clusters)
    (hmobile : a.isMobile = true ∨ b.isMobile = true) (h : (a.isGrouped && b.isGrouped) = false) :
    ∃ g s, ofOperands p g s ∈ Encounter.all p ∧ s.isGrouped = false ∧
      (g = a ∧ s = b ∨ g = b ∧ s = a) := by
  by_cases hface : a.isMobile = true ∧ facing a b = true
  · exact exists_of_facing ha hb hface.1 hface.2 h
  · -- Seen from `b`, the pair is not the one that `a` already looked at.
    have hback : b.isMobile = true ∧ facing b a = true := by
      simp only [facing, Bool.not_eq_true', Bool.and_eq_false_iff, decide_eq_false_iff_not] at hface ⊢
      cases hma : a.isMobile <;> cases hmb : b.isMobile <;> simp_all
      omega
    obtain ⟨g, s, hall, hsingle, hcase⟩ := exists_of_facing hb ha hback.1 hback.2 (Bool.and_comm _ _ ▸ h)
    exact ⟨g, s, hall, hsingle, hcase.symm⟩

/-- The compositions of `g` whose products a cluster owns are a piece of the encounter. -/
theorem mem_pieces (S : p.Sound) {g s c : Cluster α} (hc : c ∈ p.clusters) {box : Region}
    (h : g.region.intersection? (c.region.shifted s.region.lo.neg) = some box) :
    (⟨some c.id, box⟩ : Piece) ∈ (ofOperands p g s).pieces := by
  have htarget : c.region.intersects (g.region.shifted s.region.lo) = true := by
    obtain ⟨x, hx, hcx⟩ := Region.intersects_iff_exists.mp (Region.intersection?_eq_some.mp h).1
    refine Region.intersects_iff_exists.mpr
      ⟨_, Region.contains_shifted_neg.mp hcx, Region.contains_shifted.mpr ?_⟩
    rwa [Point.add_add_neg]
  have hpiece : ownedPiece? g.region s.region.lo c = some ⟨some c.id, box⟩ := by
    rw [ownedPiece?, h, Option.map_some]
  exact List.mem_append_right _ ((owned_perm S _ _ _).mem_iff.mpr (List.mem_filterMap.mpr
    ⟨c, List.mem_filter.mpr ⟨Array.mem_toList_iff.mpr hc, htarget⟩, hpiece⟩))

/-- An encounter with a product that some cluster owns makes something. -/
theorem pieces_ne_nil (S : p.Sound) {g s c : Cluster α} (hc : c ∈ p.clusters) {x : Point}
    (hx : g.region.contains x = true) (hcx : c.region.contains (x.add s.region.lo) = true) :
    (ofOperands p g s).pieces ≠ [] := by
  have hmeet : g.region.intersects (c.region.shifted s.region.lo.neg) = true :=
    Region.intersects_iff_exists.mpr ⟨x, hx, Region.contains_shifted_neg.mpr hcx⟩
  exact List.ne_nil_of_mem (mem_pieces S hc (Region.intersection?_eq_some.mpr ⟨hmeet, rfl⟩))

end Encounter

/-! ### Channels -/

namespace Channel

/-- Both channels take the same parent apart into the same monomer and remainder. -/
def SameSplit (c d : Channel) : Prop :=
  c.parent = d.parent ∧ c.monomer = d.monomer ∧ c.remainder = d.remainder

variable {material : Material α} {p : Population α} (S : p.Sound)
variable (placed : ∀ c ∈ p.clusters, c.region.isUnit = true →
  material.space.toPoint c.composition = .ok c.region.lo)
include S

theorem pairwise_ofMonomer (parent monomer : Cluster α) (m : Point) :
    (ofMonomer p parent monomer m).Pairwise fun c d => ¬c.SameSplit d := by
  refine List.pairwise_filterMap.mpr ((S.nodup_query _).imp fun {i j} hij c hc d hd hsame => hij ?_)
  obtain ⟨_, -, hc⟩ := Option.bind_eq_some_iff.mp hc
  obtain ⟨_, -, hc⟩ := Option.bind_eq_some_iff.mp hc
  obtain ⟨_, -, hd⟩ := Option.bind_eq_some_iff.mp hd
  obtain ⟨_, -, hd⟩ := Option.bind_eq_some_iff.mp hd
  cases hc
  cases hd
  exact hsame.2.2

/-- Different monomers are different clusters. -/
theorem pairwise_emitters (hm : material.monomers.Nodup) :
    (emitters material p).Pairwise fun e f => e.cluster.id ≠ f.cluster.id := by
  refine List.pairwise_filterMap.mpr (hm.imp fun {a b} hab e he f hf hid => hab ?_)
  obtain ⟨-, hmem, -, hcomp, -⟩ := emitter_eq_some he
  obtain ⟨-, hmem', -, hcomp', -⟩ := emitter_eq_some hf
  rw [← hcomp, ← hcomp', S.eq_of_id hmem hmem' hid]

/-- No two channels take one parent apart into the same monomer and remainder. -/
theorem pairwise_all (hm : material.monomers.Nodup) :
    (Channel.all material p).Pairwise fun c d => ¬c.SameSplit d := by
  have hid : p.clusters.toList.Pairwise fun a b => a.id ≠ b.id := List.pairwise_map.mp S.nodup_ids
  refine List.pairwise_flatMap.mpr ⟨fun parent hparent => ?_, hid.imp ?_⟩
  · refine List.pairwise_flatMap.mpr ⟨fun e _ => pairwise_ofMonomer S parent e.cluster e.point, ?_⟩
    refine ((pairwise_emitters S hm).filter _).imp fun {e f} hef c hc d hd hsame => hef ?_
    have h1 := (of_mem_ofMonomer S hc).2.1
    have h2 := (of_mem_ofMonomer S hd).2.1
    exact h1.symm.trans (hsame.2.1.trans h2)
  · intro a b hab c hc d hd hsame
    obtain ⟨e, -, hc⟩ := List.mem_flatMap.mp hc
    obtain ⟨f, -, hd⟩ := List.mem_flatMap.mp hd
    have h1 := (of_mem_ofMonomer S hc).1
    have h2 := (of_mem_ofMonomer S hd).1
    exact hab (h1.symm.trans (hsame.1.trans h2))

/-- When the remainder too is on one point, the parent holds the sum of the two points. -/
theorem Joins.contains_add {c : Channel} {parent monomer remainder : Cluster α}
    (h : c.Joins parent monomer remainder) (hr : remainder ∈ p.clusters)
    (hsingle : remainder.isGrouped = false) :
    parent.region.contains (monomer.region.lo.add remainder.region.lo) = true := by
  obtain ⟨x, hx, hrem⟩ := Region.intersects_iff_exists.mp (Region.intersection?_eq_some.mp h.box_eq).1
  have hlo := (Region.contains_of_isUnit (S.isUnit hr hsingle)).mp (Region.contains_shifted.mp hrem)
  rw [h.offset_eq] at hlo
  rwa [Point.add_comm, ← hlo, Point.add_neg_add]

include placed

theorem findUnit?_composition {c : Cluster α} (hc : c ∈ p.clusters) (hsingle : c.isGrouped = false) :
    p.findUnit? c.composition = some c := by
  cases hfind : p.findUnit? c.composition with
  | none =>
    have := Array.find?_eq_none.mp hfind c hc
    simp [hsingle] at this
  | some k =>
    obtain ⟨hk, hsinglek, hcomposition⟩ := Population.findUnit?_eq_some hfind
    have hunitk := S.isUnit hk hsinglek
    have hunitc := S.isUnit hc hsingle
    have hlo : k.region.lo = c.region.lo := by
      have h1 := placed k hk hunitk
      rw [hcomposition, placed c hc hunitc] at h1
      exact (Except.ok.inj h1).symm
    rw [S.eq_of_contains hk hc ((Region.contains_of_isUnit hunitk).mpr rfl)
      ((Region.contains_of_isUnit hunitc).mpr hlo)]

/-- A parent has a channel for every monomer that it sheds and every owner of a remainder. -/
theorem mem_all {parent monomer remainder : Cluster α} (hparent : parent ∈ p.clusters)
    (hmonomer : monomer ∈ p.clusters) (hremainder : remainder ∈ p.clusters)
    (hsingle : monomer.isGrouped = false) (hlisted : monomer.composition ∈ material.monomers)
    (hself : monomer.id ≠ parent.id)
    (hemit : material.canEmit parent.composition monomer.composition = true) {box : Region}
    (hbox : parent.region.intersection? (remainder.region.shifted monomer.region.lo) = some box) :
    (⟨parent.id, monomer.id, remainder.id, monomer.region.lo, box⟩ : Channel) ∈
      Channel.all material p := by
  have hpoint := placed monomer hmonomer (S.isUnit hmonomer hsingle)
  have hemitter : (⟨monomer.composition, monomer, monomer.region.lo⟩ : Emitter α) ∈
      emitters material p := by
    refine List.mem_filterMap.mpr ⟨_, hlisted, ?_⟩
    rw [findUnit?_composition S placed hmonomer hsingle, hpoint]
    rfl
  have hmeet : remainder.region.intersects (parent.region.shifted monomer.region.lo.neg) = true := by
    obtain ⟨x, hx, hr⟩ := Region.intersects_iff_exists.mp (Region.intersection?_eq_some.mp hbox).1
    refine Region.intersects_iff_exists.mpr ⟨_, Region.contains_shifted.mp hr, ?_⟩
    rw [Region.contains_shifted_neg]
    rwa [Point.add_neg_add]
  refine List.mem_flatMap.mpr ⟨parent, Array.mem_toList_iff.mpr hparent,
    List.mem_flatMap.mpr ⟨_, List.mem_filter.mpr ⟨hemitter, ?_⟩, ?_⟩⟩
  · simp [sheds, hself, hemit]
  · refine List.mem_filterMap.mpr ⟨remainder.id, S.mem_query.mpr ⟨remainder, hremainder, hmeet, rfl⟩, ?_⟩
    rw [S.region?_id hremainder]
    show (parent.region.intersection? (remainder.region.shifted monomer.region.lo)).bind _ = _
    rw [hbox]
    rfl

end Channel

/-! ### Dissociations -/

namespace Network

variable [Scalar α] {n : Network α}

/-- A channel is a dissociation under the number of the production that joins its monomer and its
    remainder. -/
theorem mem_dissociations_iff {c : Channel} {reverse : Nat} :
    (c, reverse) ∈ n.plan.dissociations ↔
      c ∈ Channel.all n.material n.toPopulation ∧
        ReactionPlan.reverseOf? n.plan.productions c.monomer c.remainder = some reverse := by
  constructor
  · intro h
    obtain ⟨⟨c', o⟩, hc, hd⟩ := List.mem_filterMap.mp h
    obtain ⟨j, ho, he⟩ := Option.map_eq_some_iff.mp hd
    cases he
    obtain ⟨c'', hc'', he⟩ := List.mem_map.mp hc
    cases he
    exact ⟨hc'', ho⟩
  · rintro ⟨hc, hi⟩
    exact List.mem_filterMap.mpr
      ⟨(c, some reverse), List.mem_map.mpr ⟨c, hc, by rw [← hi]; rfl⟩, rfl⟩

/-- A channel is a dissociation when some production joins its monomer and its remainder. -/
theorem mem_dissociations {c : Channel} :
    (∃ reverse, (c, reverse) ∈ n.plan.dissociations) ↔
      c ∈ Channel.all n.material n.toPopulation ∧
        ∃ e ∈ n.plan.productions, e.joins c.monomer c.remainder = true := by
  have hreverse : (∃ e ∈ n.plan.productions, e.joins c.monomer c.remainder = true) ↔
      ∃ i, ReactionPlan.reverseOf? n.plan.productions c.monomer c.remainder = some i := by
    rw [← Option.isSome_iff_exists, ReactionPlan.reverseOf?, List.findIdx?_isSome, List.any_eq_true]
  simp only [hreverse, mem_dissociations_iff, exists_and_left]

/-- No two dissociations of a plan take one parent apart into the same monomer and remainder. -/
theorem Built.pairwise_dissociations (hn : n.Built) (hm : n.material.monomers.Nodup) :
    n.plan.dissociations.Pairwise fun c d => ¬c.1.SameSplit d.1 := by
  refine List.pairwise_filterMap.mpr (List.pairwise_map.mpr
    ((Channel.pairwise_all hn.sound hm).imp fun {c d} hcd x hx y hy => ?_))
  obtain ⟨i, -, rfl⟩ := Option.map_eq_some_iff.mp hx
  obtain ⟨j, -, rfl⟩ := Option.map_eq_some_iff.mp hy
  exact hcd

/-- Of the two clusters that a dissociation leaves, one moves. -/
theorem Built.isMobile_of_mem_dissociations (hn : n.Built) {d : Channel × Nat}
    (hd : d ∈ n.plan.dissociations) {parent monomer remainder : Cluster α} (hm : monomer ∈ n.clusters)
    (hr : remainder ∈ n.clusters) (hjoins : d.1.Joins parent monomer remainder) :
    monomer.isMobile = true ∨ remainder.isMobile = true := by
  obtain ⟨-, e, he, hjoin⟩ := mem_dissociations.mp ⟨d.2, hd⟩
  obtain ⟨g, hg, s, hs, -, hmobile, rfl⟩ := Encounter.of_mem_all (List.mem_filter.mp he).1
  rw [hjoins.monomer_eq, hjoins.remainder_eq, Encounter.joins_iff] at hjoin
  rcases hjoin with ⟨h1, h2⟩ | ⟨h1, h2⟩
  · rwa [hn.sound.eq_of_id hg hm h1, hn.sound.eq_of_id hs hr h2] at hmobile
  · rw [hn.sound.eq_of_id hg hr h1, hn.sound.eq_of_id hs hm h2] at hmobile
    exact hmobile.symm

/-- Dissociations are numbered behind the productions, in the order of their channels. -/
theorem Built.dissociation_of_getElem? (hn : n.Built) {i parent first second reverse : Nat} {energy : α}
    (h : n.reactions[i]? = some (.dissociation parent first second reverse energy)) :
    ∃ k c, i = n.plan.productions.length + k ∧ n.plan.dissociations[k]? = some (c, reverse) ∧
      c.parent = parent ∧ c.monomer = first ∧ c.remainder = second := by
  rw [← Array.getElem?_toList, hn.reactions, ReactionPlan.reactions, List.getElem?_append] at h
  split_ifs at h with hi
  · obtain ⟨e, -, he⟩ := List.mem_map.mp (List.mem_of_getElem? h)
    cases he
  · rw [List.length_map] at hi h
    rw [List.getElem?_map] at h
    obtain ⟨d, hd, he⟩ := Option.map_eq_some_iff.mp h
    cases he
    exact ⟨_, d.1, by omega, hd, rfl, rfl, rfl⟩

theorem Built.getElem?_dissociation (hn : n.Built) {i parent first second reverse : Nat} {energy : α}
    (h : n.reactions[i]? = some (.dissociation parent first second reverse energy)) :
    ∃ k d, i = n.plan.productions.length + k ∧ n.plan.dissociations[k]? = some d ∧
      d.1.parent = parent ∧ d.1.monomer = first ∧ d.1.remainder = second := by
  obtain ⟨k, c, hi, hd, hc⟩ := hn.dissociation_of_getElem? h
  exact ⟨k, (c, reverse), hi, hd, hc⟩

theorem Built.exists_dissociation (hn : n.Built) {d : Channel × Nat} (hd : d ∈ n.plan.dissociations) :
    ∃ i : Nat, n.reactions[i]? = some (.dissociation d.1.parent d.1.monomer d.1.remainder d.2
      (d.1.bindingEnergy n.material)) := by
  have hmem : Reaction.dissociation d.1.parent d.1.monomer d.1.remainder d.2
      (d.1.bindingEnergy n.material) ∈ n.reactions.toList := by
    rw [hn.reactions]
    exact List.mem_append_right _ (List.mem_map.mpr ⟨d, hd, rfl⟩)
  obtain ⟨i, hi⟩ := List.mem_iff_getElem?.mp hmem
  exact ⟨i, by rwa [← Array.getElem?_toList]⟩

/-- A parent is taken apart into a monomer that it sheds and an owner of the remainder when one of these
    two moves. -/
theorem Built.exists_dissociation_of_isMobile (hn : n.Built) {parent monomer remainder : Cluster α}
    (hparent : parent ∈ n.clusters) (hmonomer : monomer ∈ n.clusters) (hremainder : remainder ∈ n.clusters)
    (hsingle : monomer.isGrouped = false) (hlisted : monomer.composition ∈ n.material.monomers)
    (hself : monomer.id ≠ parent.id)
    (hemit : n.material.canEmit parent.composition monomer.composition = true)
    (hmobile : monomer.isMobile = true ∨ remainder.isMobile = true) {x : Point}
    (hx : parent.region.contains x = true)
    (hrem : remainder.region.contains (x.add monomer.region.lo.neg) = true) :
    ∃ (i : Nat) (reverse : Nat) (energy : α),
      n.reactions[i]? = some (.dissociation parent.id monomer.id remainder.id reverse energy) := by
  have hmeet : parent.region.intersects (remainder.region.shifted monomer.region.lo) = true :=
    Region.intersects_iff_exists.mpr ⟨x, hx, Region.contains_shifted.mpr hrem⟩
  have hall := Channel.mem_all hn.sound hn.placed hparent hmonomer hremainder hsingle hlisted hself hemit
    (Region.intersection?_eq_some.mpr ⟨hmeet, rfl⟩)
  obtain ⟨g, s, hencounter, hs, hcase⟩ :=
    Encounter.exists_of_isMobile hmonomer hremainder hmobile (by rw [hsingle, Bool.false_and])
  -- Monomer and remainder make `x` again, whichever of them is the operand on one point.
  have hproduct : ∃ y, g.region.contains y = true ∧ parent.region.contains (y.add s.region.lo) = true := by
    rcases hcase with ⟨rfl, rfl⟩ | ⟨rfl, rfl⟩
    · refine ⟨g.region.lo, (Region.contains_of_isUnit (hn.sound.isUnit hmonomer hsingle)).mpr rfl, ?_⟩
      rw [← (Region.contains_of_isUnit (hn.sound.isUnit hremainder hs)).mp hrem, Point.add_comm,
        Point.add_neg_add]
      exact hx
    · exact ⟨_, hrem, by rwa [Point.add_neg_add]⟩
  obtain ⟨y, hy, hproduct⟩ := hproduct
  have hpieces := Encounter.pieces_ne_nil hn.sound hparent hy hproduct
  have hproduction : Encounter.ofOperands n.toPopulation g s ∈ n.plan.productions :=
    List.mem_filter.mpr ⟨hencounter, by simpa using hpieces⟩
  have hjoins : (Encounter.ofOperands n.toPopulation g s).joins monomer.id remainder.id = true := by
    refine Encounter.joins_iff.mpr ?_
    rcases hcase with ⟨rfl, rfl⟩ | ⟨rfl, rfl⟩
    · exact .inl ⟨rfl, rfl⟩
    · exact .inr ⟨rfl, rfl⟩
  obtain ⟨reverse, hd⟩ := mem_dissociations.mpr ⟨hall, _, hproduction, hjoins⟩
  obtain ⟨i, hi⟩ := hn.exists_dissociation hd
  exact ⟨i, reverse, _, hi⟩

end Network
end ClusterDynamics
