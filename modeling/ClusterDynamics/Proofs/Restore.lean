import ClusterDynamics.Proofs.Generation
import ClusterDynamics.Snapshot

/-! What a restored network shares with its snapshot. Records are taken in the order of their numbers,
    but clusters on one point are numbered before grouped ones, and the comparison at the end looks at
    numbers and kinds only. So every record comes back as the cluster of its number exactly when the
    kinds of all records agree with their regions; a snapshot in which a grouped record calls itself
    single and one on a single point calls itself grouped is restored with their regions exchanged. -/

namespace ClusterDynamics

variable {α : Type}

/-! ### Numbering -/

/-- Moving the members without a property to the front keeps a list that looks the same afterwards. -/
theorem filter_append_filter_eq_self {β : Type} (f : β → Bool) : ∀ {l : List β},
    (l.filter f ++ l.filter fun x => !f x).map f = l.map f → l.filter f ++ l.filter (fun x => !f x) = l
  | [], _ => rfl
  | x :: l, h => by
    cases hx : f x with
    | true =>
      rw [List.filter_cons_of_pos hx, List.filter_cons_of_neg (by simp [hx]), List.cons_append,
        List.map_cons, List.map_cons] at h
      rw [List.filter_cons_of_pos hx, List.filter_cons_of_neg (by simp [hx]), List.cons_append,
        filter_append_filter_eq_self f (List.cons.inj h).2]
    | false =>
      -- The first member of the rearranged list lacks the property too, so no member has it.
      rw [List.filter_cons_of_neg (by simp [hx]), List.filter_cons_of_pos (by simp [hx])] at h ⊢
      have hnone : l.filter f = [] := by
        cases hl : l.filter f with
        | nil => rfl
        | cons y rest =>
          have hy : f y = true := (List.mem_filter.mp (hl ▸ List.mem_cons_self)).2
          rw [hl, List.cons_append, List.map_cons, List.map_cons, hx, hy] at h
          exact nomatch (List.cons.inj h).1
      have hall : l.filter (fun x => !f x) = l :=
        List.filter_eq_self.mpr fun y hy => by
          simpa using List.filter_eq_nil_iff.mp hnone y hy
      rw [hnone, hall, List.nil_append]

namespace Population

theorem map_id_assign : ∀ (id next : Nat) (seeds : List (ClusterSeed α)),
    (assign id next seeds).map (·.id) = List.range' id seeds.length
  | _, _, [] => rfl
  | id, next, s :: rest => by
    rw [assign, List.map_cons, map_id_assign, List.length_cons, List.range'_succ]
    rfl

theorem map_kind_assign : ∀ (id next : Nat) (seeds : List (ClusterSeed α)),
    (assign id next seeds).map (·.kind) = seeds.map (·.kind)
  | _, _, [] => rfl
  | id, next, s :: rest => by
    rw [assign, List.map_cons, map_kind_assign, List.map_cons]
    rfl

/-- Clusters are numbered by their place. -/
theorem map_id_clustersOf (seeds : List (ClusterSeed α)) :
    (clustersOf seeds).map (·.id) = List.range seeds.length := by
  rw [clustersOf, map_id_assign, (numbering_perm seeds).length_eq, List.range_eq_range']

/-- Seeds that are grouped in the same places before and after numbering stay where they are. -/
theorem numbering_eq_self {seeds : List (ClusterSeed α)}
    (h : (numbering seeds).map (·.region.isUnit) = seeds.map (·.region.isUnit)) : numbering seeds = seeds :=
  filter_append_filter_eq_self _ h

end Population

/-! ### Records -/

namespace ClusterRecord

/-- The cluster is the one that the record describes, with its number, kind, region, composition and
    physics. -/
structure Describes (dim : Nat) (r : ClusterRecord α) (c : Cluster α) : Prop where
  id_eq : c.id = r.id
  kind_eq : c.kind = r.kind
  seed_eq : r.seed dim = .ok c.seed

/-- The record calls itself grouped exactly when its region is more than a single point. -/
def Consistent (dim : Nat) (r : ClusterRecord α) : Prop :=
  ∃ s, r.seed dim = .ok s ∧ (r.kind == .grouped) = !s.region.isUnit

/-- Consistent records tell by their kinds which of their seeds stand on single points. -/
theorem map_isUnit_of_consistent {dim : Nat} : ∀ {records : List (ClusterRecord α)}
    {seeds : List (ClusterSeed α)}, records.map (·.seed dim) = seeds.map .ok →
      (∀ r ∈ records, r.Consistent dim) →
        seeds.map (·.region.isUnit) = (records.map (·.kind)).map fun k => !(k == .grouped)
  | [], [], _, _ => rfl
  | r :: records, s :: seeds, hseeds, h => by
    rw [List.map_cons, List.map_cons] at hseeds
    obtain ⟨hhead, htail⟩ := List.cons.inj hseeds
    obtain ⟨s', hs', hkind⟩ := h r List.mem_cons_self
    cases hhead.symm.trans hs'
    rw [List.map_cons, List.map_cons, List.map_cons, hkind, Bool.not_not,
      map_isUnit_of_consistent htail fun r hr => h r (List.mem_cons_of_mem _ hr)]

end ClusterRecord

namespace NetworkSnapshot

theorem mem_ordered {s : NetworkSnapshot α} {r : ClusterRecord α} : r ∈ s.ordered ↔ r ∈ s.clusters :=
  List.mem_mergeSort

/-- The builder takes the seeds of the records, in their order. -/
theorem addRecords_eq_ok {dim : Nat} : ∀ {records : List (ClusterRecord α)} {b b' : Builder α},
    addRecords dim records b = .ok b' →
      ∃ seeds, records.map (·.seed dim) = seeds.map .ok ∧
        b' = { b with seeds := (b.seeds.toList ++ seeds).toArray }
  | [], b, b', h => by
    cases h
    exact ⟨[], rfl, by simp⟩
  | r :: rest, b, b', h => by
    obtain ⟨seed, hseed, h⟩ := bind_eq_ok.mp h
    obtain ⟨b₁, hadd, h⟩ := bind_eq_ok.mp h
    obtain ⟨rfl, -⟩ := Builder.add_eq_ok hadd
    obtain ⟨seeds, hseeds, rfl⟩ := addRecords_eq_ok h
    refine ⟨seed :: seeds, ?_, ?_⟩
    · rw [List.map_cons, List.map_cons, hseed, hseeds]
    · simp

/-- Records that pass the comparison have the numbers and kinds of the clusters in their places. -/
theorem checkRecords_eq_ok : ∀ {records : List (ClusterRecord α)} {clusters : List (Cluster α)},
    records.length = clusters.length → checkRecords records clusters = .ok () →
      records.map (·.id) = clusters.map (·.id) ∧ records.map (·.kind) = clusters.map (·.kind)
  | [], [], _, _ => ⟨rfl, rfl⟩
  | r :: rest, c :: clusters, hlen, h => by
    rw [checkRecords] at h
    split_ifs at h with hmoved
    rw [not_or, not_not, not_not] at hmoved
    obtain ⟨hid, hkind⟩ := checkRecords_eq_ok (Nat.succ.inj hlen) h
    simp only [List.map_cons, hmoved.1, hmoved.2, hid, hkind, and_self]

section
variable {s : NetworkSnapshot α} {n : Network α} {dim : Nat} {seeds : List (ClusterSeed α)}

/-- Records that are consistent are grouped in the same places as their clusters, so numbering moves
    none of their seeds. -/
theorem numbering_eq_self_of_consistent (hseeds : s.ordered.map (·.seed dim) = seeds.map .ok)
    (hkind : s.ordered.map (·.kind) = (Population.numbering seeds).map (·.kind))
    (hall : ∀ r ∈ s.clusters, r.Consistent dim) : Population.numbering seeds = seeds := by
  refine Population.numbering_eq_self ?_
  rw [ClusterRecord.map_isUnit_of_consistent hseeds fun r hr => hall r (mem_ordered.mp hr), hkind,
    List.map_map]
  refine List.map_congr_left fun x _ => ?_
  have hx : (x.kind == .grouped) = !x.region.isUnit := Population.isGrouped_toCluster x 0 0
  rw [Function.comp_apply, hx, Bool.not_not]

/-- When the seeds stay in the order of the records, each record describes the cluster of its number. -/
theorem exists_describes (S : n.toPopulation.Sound)
    (hseeds : s.ordered.map (·.seed dim) = (n.clusters.toList.map Cluster.seed).map .ok)
    (hid : s.ordered.map (·.id) = List.range n.clusters.size)
    (hkind : s.ordered.map (·.kind) = n.clusters.toList.map (·.kind)) {r : ClusterRecord α}
    (hr : r ∈ s.clusters) : ∃ c, n.clusters[r.id]? = some c ∧ r.Describes dim c := by
  obtain ⟨k, hk⟩ := List.mem_iff_getElem?.mp (mem_ordered.mpr hr)
  have hid := congrArg (·[k]?) hid
  have hkind := congrArg (·[k]?) hkind
  have hseeds := congrArg (·[k]?) hseeds
  simp only [List.getElem?_map, hk, Option.map_some, Array.getElem?_toList] at hid hkind hseeds
  obtain ⟨_, hplace⟩ := List.getElem?_eq_some_iff.mp hid.symm
  rw [List.getElem_range] at hplace
  subst hplace
  obtain ⟨c, hc, hck⟩ := Option.map_eq_some_iff.mp hkind.symm
  rw [hc, Option.map_some, Option.map_some] at hseeds
  exact ⟨c, hc, S.id _ c hc, hck, Option.some.inj hseeds⟩

end

variable [Analytic α] {s : NetworkSnapshot α} {n : Network α}

theorem restore_eq_ok (h : s.restore = .ok n) :
    ∃ empty builder, Builder.ofParams s.params = .ok empty ∧
      addRecords empty.material.space.dim s.ordered empty = .ok builder ∧
      builder.finish = .ok n ∧ n.dof = s.dof ∧ checkRecords s.ordered n.clusters.toList = .ok () := by
  unfold restore at h
  obtain ⟨empty, hempty, h⟩ := bind_eq_ok.mp h
  obtain ⟨builder, hbuilder, h⟩ := bind_eq_ok.mp h
  obtain ⟨m, hm, h⟩ := bind_eq_ok.mp h
  obtain ⟨hdof, h⟩ := check_bind_eq_ok.mp h
  obtain ⟨_, hcheck, h⟩ := bind_eq_ok.mp h
  cases h
  exact ⟨empty, builder, hempty, hbuilder, hm, not_not.mp hdof, hcheck⟩

/-- The clusters of a restored network grow from the seeds of the records, with single points moved to
    the front, and have the numbers and kinds of the records in their places. -/
theorem exists_seeds (h : s.restore = .ok n) :
    n.toPopulation.Sound ∧
      ∃ seeds, s.ordered.map (·.seed n.material.space.dim) = seeds.map .ok ∧
        n.clusters.toList.map Cluster.seed = Population.numbering seeds ∧
        s.ordered.map (·.id) = List.range n.clusters.size ∧
        s.ordered.map (·.kind) = n.clusters.toList.map (·.kind) ∧
        n.clusters.toList.map (·.kind) = (Population.numbering seeds).map (·.kind) := by
  obtain ⟨empty, builder, hempty, hadd, hfinish, -, hcheck⟩ := restore_eq_ok h
  obtain ⟨seeds, hseeds, rfl⟩ := addRecords_eq_ok hadd
  have hnone : empty.seeds = #[] := by
    rw [(Builder.ofParams_eq_ok hempty).2]
    rfl
  have hclusters : n.clusters.toList = Population.clustersOf seeds := by
    rw [Builder.clusters_of_finish hfinish, hnone]
    rfl
  obtain ⟨p, hp, hn⟩ := Builder.finish_eq_ok hfinish
  have hmaterial : n.material = empty.material := by rw [hn]; rfl
  have hsound : n.toPopulation.Sound := by
    rw [hn]
    exact Population.sound_of_ofSeeds hp
  have hlen : s.ordered.length = seeds.length := by
    simpa using congrArg List.length hseeds
  have hids := Population.map_id_clustersOf seeds
  have hsize : n.clusters.size = seeds.length := by
    rw [← Array.length_toList, hclusters]
    simpa using congrArg List.length hids
  obtain ⟨hid, hkind⟩ := checkRecords_eq_ok
    (by rw [hlen, ← hsize, Array.length_toList]) hcheck
  refine ⟨hsound, seeds, hmaterial ▸ hseeds, ?_, ?_, hkind, ?_⟩
  · rw [hclusters, Population.clustersOf, Population.map_seed_assign]
  · rw [hid, hclusters, hids, hsize]
  · rw [hclusters, Population.clustersOf, Population.map_kind_assign]

/-- A restored network has one cluster per record, and record and cluster of one number have the same
    kind. The clusters hold the regions, compositions and physics of the records, those on single
    points first; each record finds its own under its number exactly when all kinds agree with the
    regions. -/
theorem describes_iff_consistent (h : s.restore = .ok n) :
    n.clusters.size = s.clusters.length ∧
    s.ordered.map (·.id) = List.range n.clusters.size ∧
    s.ordered.map (·.kind) = n.clusters.toList.map (·.kind) ∧
    (∃ seeds, s.ordered.map (·.seed n.material.space.dim) = seeds.map .ok ∧
      n.clusters.toList.map Cluster.seed = Population.numbering seeds) ∧
    ((∀ r ∈ s.clusters, ∃ c, n.clusters[r.id]? = some c ∧ r.Describes n.material.space.dim c) ↔
      ∀ r ∈ s.clusters, r.Consistent n.material.space.dim) := by
  obtain ⟨hsound, seeds, hseeds, hcluster, hid, hkind, hgrown⟩ := exists_seeds h
  refine ⟨?_, hid, hkind, ⟨seeds, hseeds, hcluster⟩, fun hall r hr => ?_, fun hall r hr => ?_⟩
  · have hlen := congrArg List.length hid
    rwa [List.length_map, List.length_range, ordered, List.length_mergeSort, eq_comm] at hlen
  · obtain ⟨c, hc, D⟩ := hall r hr
    refine ⟨c.seed, D.seed_eq, ?_⟩
    rw [← D.kind_eq]
    exact hsound.grouped c (Array.mem_of_getElem? hc)
  · rw [numbering_eq_self_of_consistent hseeds (hkind.trans hgrown) hall] at hcluster
    exact exists_describes hsound (hcluster ▸ hseeds) hid hkind hr

end NetworkSnapshot

/-! ### Exchanged kinds -/

namespace Exchanged
open scoped Pair

/-- Xenon in two records. The first one is grouped and calls itself single, the second one is a single
    atom and calls itself grouped. -/
def snapshot : NetworkSnapshot ℚ where
  params := { NetworkParams.standard with material := .xenon, maxXenon := 3 }
  dof := 3
  clusters :=
    [⟨0, .single, [2], [4], .single .xenon 3, 14, none, 0, 1⟩,
      ⟨1, .grouped, [1], [2], .single .xenon 1, 7, some 3, 1, 1⟩]

theorem ordered_snapshot : snapshot.ordered = snapshot.clusters :=
  List.mergeSort_of_pairwise (by decide)

theorem restore_ok : ∃ n, snapshot.restore = .ok n ∧ n.material.space.dim = 1 := by
  unfold NetworkSnapshot.restore
  rw [ordered_snapshot]
  exact exists_eq_ok (by decide +kernel)

/-- The two records are restored, and neither of them is what its cluster has become. -/
theorem not_describes : ∃ n, snapshot.restore = .ok n ∧ n.material.space.dim = 1 ∧
    ¬∀ r ∈ snapshot.clusters, ∃ c, n.clusters[r.id]? = some c ∧ r.Describes n.material.space.dim c := by
  obtain ⟨n, h, hdim⟩ := restore_ok
  refine ⟨n, h, hdim, fun hall => ?_⟩
  rw [(NetworkSnapshot.describes_iff_consistent h).2.2.2.2, hdim] at hall
  obtain ⟨s, hs, hkind⟩ := hall _ List.mem_cons_self
  cases hs
  revert hkind
  decide

end Exchanged
end ClusterDynamics
