import ClusterDynamics.Proofs.Lattice
import ClusterDynamics.Proofs.Records

/-! What the planned reactions are about. An encounter joins a cluster `g` with a cluster `s` on a single
    point and cuts `g` into pieces by the owner of the product; a channel joins a parent, a monomer on a
    single point and the owner of the remainder. The numbered reactions are exactly these. -/

namespace ClusterDynamics

variable {α : Type}

namespace Population.Sound
variable {p : Population α} (S : p.Sound)
include S

/-- A sum over the clusters in which only one of them counts. -/
theorem sum_single {M : Type} [AddCommMonoid M] {c : Cluster α} (hc : c ∈ p.clusters) {f : Cluster α → M}
    (h : ∀ d ∈ p.clusters, d ≠ c → f d = 0) : (p.clusters.toList.map f).sum = f c := by
  classical
  have hnodup : p.clusters.toList.Nodup := S.nodup_ids.of_map
  rw [List.sum_map_eq_nsmul_single c f fun d hd hmem => h d (Array.mem_toList_iff.mp hmem) hd,
    List.count_eq_one_of_mem hnodup (Array.mem_toList_iff.mpr hc), one_smul]

/-- A sum over the clusters that hold a point has one term if the point has an owner, else none. -/
theorem sum_owner {M : Type} [AddCommMonoid M] (x : Point) (m : M) :
    (p.clusters.toList.map fun c => if c.region.contains x then m else 0).sum =
      if p.owns x then m else 0 := by
  split_ifs with h
  · obtain ⟨c, hc, hx⟩ := owns_iff.mp h
    rw [S.sum_single hc, if_pos hx]
    intro d hd hne
    exact if_neg fun hdx => hne (S.eq_of_contains hd hc hdx hx)
  · refine List.sum_eq_zero fun y hy => ?_
    obtain ⟨d, hd, rfl⟩ := List.mem_map.mp hy
    exact if_neg fun hdx => h (owns_iff.mpr ⟨d, Array.mem_toList_iff.mp hd, hdx⟩)

end Population.Sound

/-! ### Encounters -/

namespace Encounter

variable {p : Population α} {g s : Cluster α} {e : Encounter}

theorem operands_eq_some {a b : Cluster α} (h : operands a b = some (g, s)) :
    (g = a ∧ s = b ∨ g = b ∧ s = a) ∧ s.isGrouped = false := by
  unfold operands at h
  cases ha : a.isGrouped <;> cases hb : b.isGrouped <;> simp only [ha, hb] at h
  · by_cases hle : a.id ≤ b.id
    · rw [if_pos hle] at h
      cases h
      exact ⟨.inl ⟨rfl, rfl⟩, hb⟩
    · rw [if_neg hle] at h
      cases h
      exact ⟨.inr ⟨rfl, rfl⟩, ha⟩
  · cases h
    exact ⟨.inr ⟨rfl, rfl⟩, ha⟩
  · cases h
    exact ⟨.inl ⟨rfl, rfl⟩, hb⟩
  · cases h

/-- The clusters of an encounter: one of them moves, and the second one is not grouped. -/
theorem of_mem_all [Scalar α] (h : e ∈ Encounter.all p) :
    ∃ g ∈ p.clusters, ∃ s ∈ p.clusters, s.isGrouped = false ∧
      (g.isMobile = true ∨ s.isMobile = true) ∧ e = ofOperands p g s := by
  obtain ⟨m, hm, he⟩ := List.mem_flatMap.mp h
  obtain ⟨c, hc, ho⟩ := List.mem_filterMap.mp he
  obtain ⟨⟨g, s⟩, hgs, rfl⟩ := Option.map_eq_some_iff.mp ho
  have hmobile := (List.mem_filter.mp hm).2
  replace hm := Array.mem_toList_iff.mp (List.mem_filter.mp hm).1
  replace hc := Array.mem_toList_iff.mp (List.mem_filter.mp hc).1
  obtain ⟨hcase, hs⟩ := operands_eq_some hgs
  rcases hcase with ⟨rfl, rfl⟩ | ⟨rfl, rfl⟩
  · exact ⟨g, hm, s, hc, hs, .inl hmobile, rfl⟩
  · exact ⟨g, hc, s, hm, hs, .inr hmobile, rfl⟩

/-- The piece of a cluster `c` that is produced. -/
def ownedPiece? (g : Region) (shift : Point) (c : Cluster α) : Option Piece :=
  (g.intersection? (c.region.shifted shift.neg)).map fun q => ⟨some c.id, q⟩

/-- The pieces with a product, up to their order, cluster by cluster. -/
theorem owned_perm (S : p.Sound) (g : Region) (shift : Point) (target : Region) :
    (owned p g shift (p.tree.query target)).Perm
      ((p.clusters.toList.filter fun c => c.region.intersects target).filterMap
        (ownedPiece? g shift)) := by
  have hperm := (S.query target).filterMap fun id => do
    let r ← p.region? id
    let q ← g.intersection? (r.shifted shift.neg)
    return (⟨some id, q⟩ : Piece)
  rw [List.filterMap_map] at hperm
  refine hperm.trans (List.Perm.of_eq (List.filterMap_congr fun c hc => ?_))
  have hc := Array.mem_toList_iff.mp (List.mem_filter.mp hc).1
  rw [Function.comp_apply, S.region?_id hc, ownedPiece?, Option.map_eq_bind]
  rfl

/-- A piece annihilates at the origin, or its products have an owner. -/
theorem of_mem_pieces (S : p.Sound) {q : Piece} (h : q ∈ (ofOperands p g s).pieces) :
    (q.product = none ∧ q.box = Region.unit s.region.lo.neg ∧
        g.region.contains s.region.lo.neg = true) ∨
      ∃ c ∈ p.clusters, q.product = some c.id ∧
        g.region.intersection? (c.region.shifted s.region.lo.neg) = some q.box := by
  rcases List.mem_append.mp h with h | h
  · left
    unfold recombination at h
    split_ifs at h with horigin
    · rw [List.mem_singleton.mp h]
      refine ⟨rfl, rfl, ?_⟩
      have := Region.contains_shifted.mp horigin
      rwa [Point.add_comm, Point.add_origin] at this
    · exact absurd h List.not_mem_nil
  · right
    obtain ⟨c, hc, hq⟩ := List.mem_filterMap.mp ((owned_perm S _ _ _).mem_iff.mp h)
    obtain ⟨box, hbox, rfl⟩ := Option.map_eq_some_iff.mp hq
    exact ⟨c, Array.mem_toList_iff.mp (List.mem_filter.mp hc).1, rfl, hbox⟩

/-- The compositions of a box, and where their products go. -/
theorem mem_box {g r q : Region} {shift y : Point} (h : g.intersection? (r.shifted shift.neg) = some q)
    (hy : y ∈ q.lattice) : g.contains y = true ∧ r.contains (y.add shift) = true := by
  rw [Region.lattice_of_intersection? h, Finset.mem_inter] at hy
  exact ⟨Region.mem_lattice.mp hy.1, Region.contains_shifted_neg.mp (Region.mem_lattice.mp hy.2)⟩

theorem contains_of_mem_pieces (S : p.Sound) {q : Piece} (h : q ∈ (ofOperands p g s).pieces) {y : Point}
    (hy : y ∈ q.box.lattice) : g.region.contains y = true := by
  rcases of_mem_pieces S h with ⟨-, hbox, hin⟩ | ⟨c, hc, -, hbox⟩
  · rw [hbox, Region.lattice_unit, Finset.mem_singleton] at hy
    rwa [hy]
  · exact (mem_box hbox hy).1

section
variable {M : Type} [AddCommMonoid M] (f : Point → M)

theorem sum_recombination (g : Region) (shift : Point) :
    ((recombination (g.shifted shift) shift).map fun q => ∑ y ∈ q.box.lattice, f y).sum =
      ∑ y ∈ g.lattice, if y.add shift = Point.origin then f y else 0 := by
  simp only [Point.add_eq_origin, Finset.sum_ite_eq', Region.mem_lattice, recombination,
    Region.contains_shifted, Point.add_comm Point.origin, Point.add_origin]
  split_ifs with h
  · simp [Region.lattice_unit]
  · simp

theorem sum_ownedPiece? (g : Region) (shift : Point) (c : Cluster α) :
    (if c.region.intersects (g.shifted shift) then
      ((ownedPiece? g shift c).map fun q => ∑ y ∈ q.box.lattice, f y).getD 0 else 0) =
      ∑ y ∈ g.lattice, if c.region.contains (y.add shift) then f y else 0 := by
  rw [← Finset.sum_filter]
  have hset : g.lattice.filter (fun y => c.region.contains (y.add shift) = true) =
      g.lattice ∩ (c.region.shifted shift.neg).lattice := by
    ext y
    simp only [Finset.mem_filter, Finset.mem_inter, Region.mem_lattice, Region.contains_shifted_neg]
  rw [hset, ownedPiece?, Option.map_map]
  cases hbox : g.intersection? (c.region.shifted shift.neg) with
  | some q =>
    have hmeet : c.region.intersects (g.shifted shift) = true := by
      obtain ⟨y, hy, hcy⟩ := Region.intersects_iff_exists.mp (Region.intersection?_eq_some.mp hbox).1
      refine Region.intersects_iff_exists.mpr ⟨y.add shift, Region.contains_shifted_neg.mp hcy, ?_⟩
      rwa [Region.contains_shifted, Point.add_add_neg]
    rw [if_pos hmeet, Option.map_some, Option.getD_some, Function.comp_apply,
      Region.lattice_of_intersection? hbox]
  | none =>
    have hempty := Region.lattice_disjoint.mpr (Region.intersection?_eq_none.mp hbox)
    rw [Finset.disjoint_iff_inter_eq_empty.mp hempty, Finset.sum_empty, Option.map_none,
      Option.getD_none, ite_self]

/-- The pieces with a product cut out of `g` each composition that has an owner for its product, once. -/
theorem sum_owned (S : p.Sound) (g : Region) (shift : Point) :
    ((owned p g shift (p.tree.query (g.shifted shift))).map fun q => ∑ y ∈ q.box.lattice, f y).sum =
      ∑ y ∈ g.lattice, if p.owns (y.add shift) then f y else 0 := by
  rw [((owned_perm S _ _ _).map _).sum_eq, sum_map_filterMap, sum_map_filter]
  simp only [sum_ownedPiece?, sum_map_sum, S.sum_owner]

/-- When no cluster sits at the origin, the pieces cut out of `g` each composition that annihilates or
    has an owner for its product, once. -/
theorem sum_pieces (S : p.Sound) (h0 : p.owns Point.origin = false) (g s : Cluster α) :
    ((ofOperands p g s).pieces.map fun q => ∑ y ∈ q.box.lattice, f y).sum =
      ∑ y ∈ g.region.lattice with
        y.add s.region.lo = Point.origin ∨ p.owns (y.add s.region.lo) = true, f y := by
  have hdisjoint : ∀ y : Point, ¬(y.add s.region.lo = Point.origin ∧ p.owns (y.add s.region.lo) = true) :=
    fun y h => by rw [h.1, h0] at h; exact absurd h.2 Bool.false_ne_true
  rw [ofOperands, List.map_append, List.sum_append, sum_recombination, sum_owned f S,
    ← Finset.sum_add_distrib, Finset.sum_filter]
  refine Finset.sum_congr rfl fun y _ => ?_
  by_cases h1 : y.add s.region.lo = Point.origin
  · rw [if_pos h1, if_neg fun h2 => hdisjoint y ⟨h1, h2⟩, if_pos (.inl h1), add_zero]
  · by_cases h2 : p.owns (y.add s.region.lo) = true
    · rw [if_neg h1, if_pos h2, if_pos (.inr h2), zero_add]
    · rw [if_neg h1, if_neg h2, if_neg (not_or.mpr ⟨h1, h2⟩), add_zero]

end

end Encounter

/-! ### Channels -/

namespace Channel

/-- The clusters of a channel, and the compositions of the parent that it takes. -/
structure Joins (c : Channel) (parent monomer remainder : Cluster α) : Prop where
  parent_eq : c.parent = parent.id
  monomer_eq : c.monomer = monomer.id
  remainder_eq : c.remainder = remainder.id
  single : monomer.isGrouped = false
  offset_eq : c.offset = monomer.region.lo
  box_eq : parent.region.intersection? (remainder.region.shifted c.offset) = some c.box

variable {material : Material α} {p : Population α}

/-- The emitter of one monomer is a cluster on one point, found under its composition. -/
theorem emitter_eq_some {c : Composition} {e : Emitter α}
    (h : ((p.findUnit? c).bind fun k =>
      match material.space.toPoint c with
      | .ok m => some ⟨c, k, m⟩
      | .error _ => none) = some e) :
    e.composition = c ∧ e.cluster ∈ p.clusters ∧ e.cluster.isGrouped = false ∧
      e.cluster.composition = c ∧ material.space.toPoint c = .ok e.point := by
  obtain ⟨k, hk, he⟩ := Option.bind_eq_some_iff.mp h
  obtain ⟨hmem, hsingle, hcomposition⟩ := Population.findUnit?_eq_some hk
  cases hpoint : material.space.toPoint c with
  | error fault => simp [hpoint] at he
  | ok m =>
    simp only [hpoint, Option.some.injEq] at he
    cases he
    exact ⟨rfl, hmem, hsingle, hcomposition, rfl⟩

theorem of_mem_emitters {e : Emitter α} (h : e ∈ emitters material p) :
    e.composition ∈ material.monomers ∧ e.cluster ∈ p.clusters ∧ e.cluster.isGrouped = false ∧
      e.cluster.composition = e.composition ∧ material.space.toPoint e.composition = .ok e.point := by
  obtain ⟨c, hc, he⟩ := List.mem_filterMap.mp h
  obtain ⟨rfl, hrest⟩ := emitter_eq_some he
  exact ⟨hc, hrest⟩

theorem of_mem_ofMonomer (S : p.Sound) {parent monomer : Cluster α} {m : Point} {c : Channel}
    (h : c ∈ ofMonomer p parent monomer m) :
    c.parent = parent.id ∧ c.monomer = monomer.id ∧ c.offset = m ∧
      ∃ r ∈ p.clusters, c.remainder = r.id ∧
        parent.region.intersection? (r.region.shifted m) = some c.box := by
  obtain ⟨i, hi, hc⟩ := List.mem_filterMap.mp h
  obtain ⟨r, hr, -, rfl⟩ := S.mem_query.mp hi
  obtain ⟨_, hregion, hc⟩ := Option.bind_eq_some_iff.mp hc
  cases (S.region?_id hr).symm.trans hregion
  obtain ⟨q, hq, hc⟩ := Option.bind_eq_some_iff.mp hc
  cases hc
  exact ⟨rfl, rfl, rfl, r, hr, rfl, hq⟩

/-- A parent sheds every listed monomer but itself that the material lets it emit. -/
theorem sheds_iff {parent : Cluster α} {e : Emitter α} : sheds material parent e = true ↔
    e.cluster.id ≠ parent.id ∧ material.canEmit parent.composition e.composition = true := by
  rw [sheds, Bool.and_eq_true, bne_iff_ne]

/-- Every channel joins a parent, one of the material's monomers which the parent sheds, and the owner of
    the remainder. -/
theorem sheds_of_mem_all (S : p.Sound)
    (placed : ∀ c ∈ p.clusters, c.region.isUnit = true →
      material.space.toPoint c.composition = .ok c.region.lo)
    {c : Channel} (h : c ∈ Channel.all material p) :
    ∃ parent ∈ p.clusters, ∃ monomer ∈ p.clusters, ∃ remainder ∈ p.clusters,
      c.Joins parent monomer remainder ∧ monomer.composition ∈ material.monomers ∧
        monomer.id ≠ parent.id ∧ material.canEmit parent.composition monomer.composition = true := by
  obtain ⟨parent, hparent, h⟩ := List.mem_flatMap.mp h
  obtain ⟨e, he, h⟩ := List.mem_flatMap.mp h
  obtain ⟨he, hsheds⟩ := List.mem_filter.mp he
  obtain ⟨hlisted, hmem, hsingle, hcomp, hpoint⟩ := of_mem_emitters he
  obtain ⟨hp, hm, ho, r, hr, hrem, hbox⟩ := of_mem_ofMonomer S h
  have hlo : e.point = e.cluster.region.lo := by
    have := placed e.cluster hmem (S.isUnit hmem hsingle)
    rw [hcomp, hpoint] at this
    exact Except.ok.inj this
  exact ⟨parent, Array.mem_toList_iff.mp hparent, e.cluster, hmem, r, hr,
    ⟨hp, hm, hrem, hsingle, ho.trans hlo, ho ▸ hbox⟩, hcomp ▸ hlisted, hcomp ▸ sheds_iff.mp hsheds⟩

/-- Every channel joins a parent, one of the material's monomers and the owner of the remainder. -/
theorem of_mem_all (S : p.Sound)
    (placed : ∀ c ∈ p.clusters, c.region.isUnit = true →
      material.space.toPoint c.composition = .ok c.region.lo)
    {c : Channel} (h : c ∈ Channel.all material p) :
    ∃ parent ∈ p.clusters, ∃ monomer ∈ p.clusters, ∃ remainder ∈ p.clusters,
      c.Joins parent monomer remainder ∧ monomer.composition ∈ material.monomers := by
  obtain ⟨parent, hp, monomer, hm, remainder, hr, hjoins, hlisted, -⟩ := sheds_of_mem_all S placed h
  exact ⟨parent, hp, monomer, hm, remainder, hr, hjoins, hlisted⟩

end Channel

/-! ### Contributions -/

namespace ReactionPlan

variable [Scalar α] (p : Population α) (i : Nat)

theorem coherent_productionRecords (e : Encounter) :
    Record.Coherent i (fun _ => ⟨e.first, e.second⟩) (productionRecords p i e) := by
  intro x hx
  unfold productionRecords at hx
  split at hx
  · exact absurd hx List.not_mem_nil
  · obtain ⟨q, -, hq⟩ := List.mem_filterMap.mp hx
    obtain ⟨id, -, hq⟩ := Option.bind_eq_some_iff.mp hq
    obtain ⟨r, -, hq⟩ := Option.bind_eq_some_iff.mp hq
    cases hq
    exact ⟨rfl, rfl⟩

/-- The partner of a cluster in an encounter, which is the cluster itself when it meets its like. -/
theorem coherent_combiningRecords (e : Encounter) :
    Record.Coherent i (fun j => if j = e.first then e.second else e.first) (combiningRecords p i e) := by
  intro x hx
  unfold combiningRecords at hx
  split at hx
  · obtain ⟨q, -, hq⟩ := List.mem_flatMap.mp hx
    rcases List.mem_pair.mp hq with rfl | rfl
    · exact ⟨rfl, (if_pos rfl).symm⟩
    · refine ⟨rfl, ?_⟩
      dsimp only
      split_ifs with h
      · exact h.symm
      · rfl
  · exact absurd hx List.not_mem_nil

theorem coherent_dissociatingRecords (c : Channel) :
    Record.Coherent i (fun _ => c.parent) (dissociatingRecords p i c) := by
  intro x hx
  unfold dissociatingRecords at hx
  split at hx
  · rcases List.mem_pair.mp hx with rfl | rfl <;> exact ⟨rfl, rfl⟩
  · exact absurd hx List.not_mem_nil

theorem coherent_emissionRecords (c : Channel) :
    Record.Coherent i (fun _ => ⟨c.monomer, c.remainder⟩) (emissionRecords p i c) := by
  intro x hx
  unfold emissionRecords at hx
  split at hx
  · rw [List.mem_singleton.mp hx]
    exact ⟨rfl, rfl⟩
  · exact absurd hx List.not_mem_nil

end ReactionPlan

/-! ### Numbered reactions -/

namespace Network

variable [Scalar α] {n : Network α}

theorem Built.reactions (hn : n.Built) : n.reactions.toList = n.plan.reactions n.material := by
  conv_lhs => rw [hn.assembled]
  rfl

theorem Built.links (hn : n.Built) : n.links = n.plan.links n.toPopulation := by
  conv_lhs => rw [hn.assembled]
  rfl

theorem Built.sparsity (hn : n.Built) :
    n.sparsity = .ofRows (patternRows n.clusters n.links n.dof).toList := by
  rw [hn.links]
  conv_lhs => rw [hn.assembled]
  rfl

/-- The records of a cluster are those of all events that it owns. -/
theorem Built.linksOf (hn : n.Built) {c : Cluster α} (hc : c ∈ n.clusters) :
    n.linksOf c.id =
      ⟨(ReactionPlan.records n.clusters.size 0 n.plan.productions
          (ReactionPlan.productionRecords n.toPopulation)).getD c.id [],
        (ReactionPlan.records n.clusters.size 0 n.plan.productions
          (ReactionPlan.combiningRecords n.toPopulation)).getD c.id [],
        (ReactionPlan.records n.clusters.size n.plan.productions.length
          (n.plan.dissociations.map (·.1))
          (ReactionPlan.dissociatingRecords n.toPopulation)).getD c.id [],
        (ReactionPlan.records n.clusters.size n.plan.productions.length
          (n.plan.dissociations.map (·.1))
          (ReactionPlan.emissionRecords n.toPopulation)).getD c.id []⟩ := by
  obtain ⟨hlt, -⟩ := Array.getElem?_eq_some_iff.mp (hn.sound.getElem?_id hc)
  rw [Network.linksOf, hn.links, ReactionPlan.links, Array.getD_eq_getD_getElem?, Array.getElem?_ofFn,
    dif_pos hlt, Option.getD_some]

/-- Productions are numbered first, then dissociations. -/
theorem Built.zipIdx_reactions (hn : n.Built) :
    n.reactions.toList.zipIdx =
      (n.plan.productions.zipIdx.map fun e => (.production e.1.first e.1.second, e.2)) ++
        ((n.plan.dissociations.zipIdx n.plan.productions.length).map fun d =>
          (.dissociation d.1.1.parent d.1.1.monomer d.1.1.remainder d.1.2
            (d.1.1.bindingEnergy n.material), d.2)) := by
  rw [hn.reactions, ReactionPlan.reactions, List.zipIdx_append, List.zipIdx_map, List.zipIdx_map,
    List.length_map, Nat.zero_add]
  rfl

theorem of_mem_productions {e : Encounter} (h : e ∈ n.plan.productions) :
    ∃ g ∈ n.clusters, ∃ s ∈ n.clusters, s.isGrouped = false ∧ e = .ofOperands n.toPopulation g s := by
  obtain ⟨g, hg, s, hs, hsingle, -, he⟩ := Encounter.of_mem_all (List.mem_filter.mp h).1
  exact ⟨g, hg, s, hs, hsingle, he⟩

theorem Built.of_mem_dissociations (hn : n.Built) {d : Channel × Nat} (h : d ∈ n.plan.dissociations) :
    ∃ parent ∈ n.clusters, ∃ monomer ∈ n.clusters, ∃ remainder ∈ n.clusters,
      d.1.Joins parent monomer remainder := by
  obtain ⟨⟨c, reverse⟩, hc, hd⟩ := List.mem_filterMap.mp h
  obtain ⟨i, -, rfl⟩ := Option.map_eq_some_iff.mp hd
  obtain ⟨c', hc', he⟩ := List.mem_map.mp hc
  cases he
  obtain ⟨parent, hp, monomer, hm, remainder, hr, hjoins, -⟩ :=
    Channel.of_mem_all hn.sound hn.placed hc'
  exact ⟨parent, hp, monomer, hm, remainder, hr, hjoins⟩

end Network
end ClusterDynamics
