import ClusterDynamics.Proofs.Collection
import ClusterDynamics.Proofs.Coverage
import ClusterDynamics.Proofs.Enumeration
import ClusterDynamics.Proofs.SignedPoints

/-! Two ways to look up a composition. A table from single compositions to numbers finds the clusters of
    exactly one composition; the other way turns the composition into its point and asks the spatial index for
    the cluster that holds it. Compositions with one point are one composition, single clusters sit on their
    points and no two regions share one, so both ways lead to the same cluster, unless it is grouped. -/

namespace ClusterDynamics

variable {α : Type}

/-! ### The table -/

namespace Population

/-- The clusters that stand for one composition each, in order. -/
def singles (p : Population α) : List (Cluster α) := p.clusters.toList.filter fun c => !c.isGrouped

/-- The numbers of the single clusters by their compositions. -/
def units (p : Population α) : Std.HashMap Composition Nat :=
  .ofList (p.singles.map fun c => (c.composition, c.id))

variable {p : Population α} {k : Cluster α} {c : Composition}

theorem mem_singles : k ∈ p.singles ↔ k ∈ p.clusters ∧ k.isGrouped = false := by
  rw [singles, List.mem_filter, Array.mem_toList_iff, Bool.not_eq_true']

variable {material : Material α} (S : p.Sound)
  (placed : ∀ c ∈ p.clusters, c.region.isUnit = true → material.space.toPoint c.composition = .ok c.region.lo)
include S placed

theorem findUnit?_of_mem_singles (hk : k ∈ p.singles) : p.findUnit? k.composition = some k :=
  Channel.findUnit?_composition S placed (mem_singles.mp hk).1 (mem_singles.mp hk).2

theorem eq_of_composition {a b : Cluster α} (ha : a ∈ p.singles) (hb : b ∈ p.singles)
    (h : a.composition = b.composition) : a = b := by
  have hfound := findUnit?_of_mem_singles S placed ha
  rw [h, findUnit?_of_mem_singles S placed hb] at hfound
  exact (Option.some.inj hfound).symm

/-- No two single clusters stand for one composition. -/
theorem pairwise_singles : p.singles.Pairwise fun a b => a.composition ≠ b.composition := by
  refine ((List.pairwise_map.mp S.nodup_ids).filter _).imp_of_mem fun {a b} ha hb hid hcomposition => hid ?_
  rw [eq_of_composition S placed ha hb hcomposition]

/-- The table finds what a search through the clusters finds. -/
theorem getElem?_units (c : Composition) : (p.units[c]?.bind fun id => p.clusters[id]?) = p.findUnit? c := by
  cases hfind : p.findUnit? c with
  | none =>
    have hnone : ((p.singles.map fun c => (c.composition, c.id)).map Prod.fst).contains c = false := by
      rw [← Bool.not_eq_true, List.contains_iff_mem, List.map_map, List.mem_map]
      rintro ⟨k, hk, rfl⟩
      cases hfind.symm.trans (findUnit?_of_mem_singles S placed hk)
    rw [units, Std.HashMap.getElem?_ofList_of_contains_eq_false hnone, Option.bind_none]
  | some k =>
    obtain ⟨hk, hsingle, rfl⟩ := findUnit?_eq_some hfind
    have hdistinct : (p.singles.map fun c => (c.composition, c.id)).Pairwise fun a b => (a.1 == b.1) = false :=
      List.pairwise_map.mpr ((pairwise_singles S placed).imp beq_eq_false_iff_ne.mpr)
    rw [units, Std.HashMap.getElem?_ofList_of_mem BEq.rfl hdistinct (List.mem_map_of_mem
      (mem_singles.mpr ⟨hk, hsingle⟩)), Option.bind_some, S.getElem?_id hk]

end Population

/-! ### Both ways -/

namespace Network

/-- How the two ways to look up a composition are related. -/
structure LookupsAgree (n : Network α) : Prop where
  table : ∀ c, (n.units[c]?.bind fun id => n.clusters[id]?) = n.findUnit? c
  find_iff : ∀ c k, n.findUnit? c = some k ↔ n.findOwner? c = some k ∧ k.isGrouped = false
  owner_iff : ∀ c k, n.findOwner? c = some k ↔ ∃ x, n.material.space.toPoint c = .ok x ∧
    k ∈ n.clusters ∧ k.region.contains x = true ∧ ∀ d ∈ n.clusters, d.region.contains x = true → d = k
  /-- Neither way finds a composition with an untracked species or with both species of an axis. -/
  outside : ∀ c, ¬n.material.space.Separates c → n.findUnit? c = none ∧ n.findOwner? c = none
  /-- The second way always ends inside the space, and outside of it where the refusal can be worded. -/
  fits_iff : ∀ c, n.findOwnerFits c = true ↔ n.material.space.Separates c ∨ c.totalFits = true

variable {n : Network α} {c : Composition} {k : Cluster α}

theorem findOwner?_eq_some :
    n.findOwner? c = some k ↔ ∃ x, n.material.space.toPoint c = .ok x ∧ n.findPoint? x = some k := by
  unfold findOwner?
  cases n.material.space.toPoint c <;> simp

theorem findOwnerFits_iff :
    n.findOwnerFits c = true ↔ (∃ x, n.material.space.toPoint c = .ok x) ∨ c.totalFits = true := by
  unfold findOwnerFits
  rcases n.material.space.toPoint c with (_ | _) | x <;>
    simp [PlacementFault.ofTracking, PlacementFault.nameable]

variable [Scalar α]

theorem lookupsAgree_of_finish {params : NetworkParams α} {material : Material α} {b : Builder α}
    {axes : List Axis} (haxes : PhaseSpace.ofAxes axes = .ok material.space)
    (hb : b.Reachable params material) (h : b.finish = .ok n) : n.LookupsAgree := by
  obtain ⟨hn, -, rfl⟩ := built_of_finish hb h
  have C := PhaseSpace.converts_of_ofAxes haxes
  have howner : ∀ c k, n.findOwner? c = some k ↔ ∃ x, n.material.space.toPoint c = .ok x ∧
      k ∈ n.clusters ∧ k.region.contains x = true := fun c k => by
    simp only [findOwner?_eq_some, findPoint?_of_finish h]
  have hfind : ∀ c k, n.findUnit? c = some k ↔ n.findOwner? c = some k ∧ k.isGrouped = false := by
    intro c k
    rw [howner]
    constructor
    · intro hc
      obtain ⟨hk, hsingle, -⟩ := Population.findUnit?_eq_some hc
      have hunit := hn.sound.isUnit hk hsingle
      exact ⟨⟨k.region.lo, hn.toPoint_of_findUnit? hc, hk, (Region.contains_of_isUnit hunit).mpr rfl⟩, hsingle⟩
    · rintro ⟨⟨x, hx, hk, hkx⟩, hsingle⟩
      have hunit := hn.sound.isUnit hk hsingle
      -- The point of `c` is the only one of the cluster, and `c` is the only composition there.
      rw [(Region.contains_of_isUnit hunit).mp hkx] at hx
      rw [C.injective c k.composition _ hx (hn.placed k hk hunit)]
      exact Channel.findUnit?_composition hn.sound hn.placed hk hsingle
  refine ⟨Population.getElem?_units hn.sound hn.placed, hfind, fun c k => ?_, fun c hc => ?_, fun c => ?_⟩
  · rw [howner]
    refine exists_congr fun x => and_congr_right fun _ => and_congr_right fun hk => ?_
    exact (and_iff_left_of_imp fun hkx d hd hdx => hn.sound.eq_of_contains hd hk hdx hkx).symm
  · have hnone : n.findOwner? c = none := Option.eq_none_iff_forall_ne_some.mpr fun k hk => by
      obtain ⟨x, hx, -⟩ := (howner c k).mp hk
      exact hc ((C.exists_toPoint_iff c).mp ⟨x, hx⟩)
    refine ⟨Option.eq_none_iff_forall_ne_some.mpr fun k hk => ?_, hnone⟩
    cases hnone.symm.trans ((hfind c k).mp hk).1
  · rw [findOwnerFits_iff, C.exists_toPoint_iff]

end Network

/-- The group of three to five atoms owns five of them, which are no single cluster; the pair is found both
    ways; helium beside a vacancy lies outside the axis. -/
theorem Chain.lookups : ∃ n, builder.finish = .ok n ∧
    (n.findUnit? (.single .helium 5) = none ∧ ∃ k, n.findOwner? (.single .helium 5) = some k ∧
      k ∈ n.clusters ∧ k.composition = .single .helium 4) ∧
    (∃ k, n.findUnit? (.single .helium 2) = some k ∧ n.findOwner? (.single .helium 2) = some k) ∧
    n.findUnit? { helium := 1, vacancy := 1 } = none ∧ n.findOwner? { helium := 1, vacancy := 1 } = none := by
  obtain ⟨n, hn, hgroup, hpair⟩ : ∃ n, builder.finish = .ok n ∧
      ((n.findOwner? (.single .helium 5)).map fun k => (k.composition, k.isGrouped)) =
        some (.single .helium 4, true) ∧
      ((n.findOwner? (.single .helium 2)).map (·.isGrouped)) = some false := exists_eq_ok (by decide +kernel)
  have haxes : PhaseSpace.ofAxes [Axis.plain .helium] = .ok material.space := rfl
  have L := Network.lookupsAgree_of_finish haxes reachable hn
  obtain ⟨g, hg, hgrouped⟩ := Option.map_eq_some_iff.mp hgroup
  obtain ⟨k, hk, hsingle⟩ := Option.map_eq_some_iff.mp hpair
  obtain ⟨hcomposition, hgrouped⟩ := Prod.mk.inj hgrouped
  obtain ⟨x, -, hmem, -⟩ := (L.owner_iff _ g).mp hg
  refine ⟨n, hn, ⟨?_, g, hg, hmem, hcomposition⟩, ⟨k, (L.find_iff _ k).mpr ⟨hk, hsingle⟩, hk⟩, L.outside _ ?_⟩
  · refine Option.eq_none_iff_forall_ne_some.mpr fun d hd => ?_
    obtain ⟨howner, hd⟩ := (L.find_iff _ d).mp hd
    rw [Option.some.inj (howner.symm.trans hg), hgrouped] at hd
    cases hd
  · obtain ⟨-, -, hmaterial⟩ := Network.built_of_finish reachable hn
    rw [hmaterial]
    intro h
    obtain ⟨y, hy, hvacancy⟩ := h.tracked .vacancy (by decide)
    rw [List.mem_singleton.mp hy] at hvacancy
    exact absurd hvacancy (by decide)

end ClusterDynamics
