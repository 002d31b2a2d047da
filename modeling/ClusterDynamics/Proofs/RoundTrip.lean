import ClusterDynamics.Proofs.Acceptance
import ClusterDynamics.Proofs.Metal
import ClusterDynamics.Proofs.Restore

/-! A snapshot holds the whole network. The records keep neither the moment slots nor the reactions, but
    they keep the seeds in the order of their numbers, and numbering seeds that are numbered already
    moves none of them. So whatever is built from the seeds is built again, in whichever order the
    records are listed. -/

namespace ClusterDynamics

variable {α : Type}

/-! ### Seeds in the order of their numbers -/

namespace Population

theorem numbering_numbering (seeds : List (ClusterSeed α)) :
    numbering (numbering seeds) = numbering seeds := by
  have hunit : ((seeds.filter (·.region.isUnit)).filter fun s => !s.region.isUnit) = [] := by
    simp [List.filter_filter]
  have hgrouped : ((seeds.filter fun s => !s.region.isUnit).filter (·.region.isUnit)) = [] := by
    simp [List.filter_filter]
  rw [numbering, numbering, List.filter_append, List.filter_append, hunit, hgrouped, List.append_nil,
    List.nil_append]
  simp [List.filter_filter]

/-- The population of numbered seeds is the one of the seeds in any other order of adding. -/
theorem ofSeeds_numbering (seeds : List (ClusterSeed α)) : ofSeeds (numbering seeds) = ofSeeds seeds := by
  have hperm := numbering_perm seeds
  have hclusters : clustersOf (numbering seeds) = clustersOf seeds := by
    rw [clustersOf, clustersOf, numbering_numbering, hperm.length_eq]
  have hdof : dofOf (numbering seeds) = dofOf seeds := by
    rw [dofOf_eq, dofOf_eq, hperm.length_eq, (hperm.map _).sum_eq]
  rw [ofSeeds, ofSeeds, hclusters, hdof, hperm.all_eq]

end Population

/-! ### Accepted seeds -/

theorem ClusterSeed.Distinct.symm {s t : ClusterSeed α} (h : s.Distinct t) : t.Distinct s :=
  fun ht hs he => h hs ht he.symm

namespace Builder

variable {b b' : Builder α} {s : ClusterSeed α}

theorem ownsUnit_eq_false {c : Composition} :
    b.ownsUnit c = false ↔ ∀ t ∈ b.seeds, t.region.isUnit = true → t.composition ≠ c := by
  rw [ownsUnit, Array.any_eq_false']
  simp

theorem check_eq_ok_iff : b.check s = .ok () ↔
    (s.region.isEmptyFits = true ∧ s.region.isUnitFits = true) ∧ s.Placed b.material.space ∧
      (s.region.isUnit = true → b.ownsUnit s.composition = false) := by
  constructor
  · intro h
    refine ⟨?_, check_eq_ok h⟩
    unfold check at h
    obtain ⟨_, hempty, h⟩ := bind_eq_ok.mp h
    obtain ⟨-, h⟩ := check_bind_eq_ok.mp h
    obtain ⟨_, -, h⟩ := bind_eq_ok.mp h
    obtain ⟨_, hunit, -⟩ := bind_eq_ok.mp h
    exact ⟨require_eq_ok.mp hempty, require_eq_ok.mp hunit⟩
  · rintro ⟨⟨hempty, hunit⟩, hs, hnew⟩
    obtain ⟨x, hx, hlo⟩ := hs.located
    unfold check
    refine bind_eq_ok.mpr ⟨(), require_eq_ok.mpr hempty, ?_⟩
    rw [if_neg (by rw [hs.nonempty]; exact Bool.false_ne_true)]
    refine bind_eq_ok.mpr ⟨x, PhaseSpace.locatePoint_eq_ok.mpr hx, ?_⟩
    refine bind_eq_ok.mpr ⟨(), require_eq_ok.mpr hunit, ?_⟩
    split
    · rename_i h
      simp [hlo h, hnew h]
      rfl
    · rfl

/-- What the checks have found out about the seeds that are held. -/
structure Accepted (b : Builder α) : Prop where
  fits : ∀ s ∈ b.seeds, s.region.isEmptyFits = true ∧ s.region.isUnitFits = true
  placed : ∀ s ∈ b.seeds, s.Placed b.material.space
  distinct : b.seeds.toList.Pairwise ClusterSeed.Distinct

theorem accepted_push : ({ b with seeds := b.seeds.push s } : Builder α).Accepted ↔
    b.Accepted ∧ b.check s = .ok () := by
  rw [check_eq_ok_iff]
  constructor
  · rintro ⟨hfits, hplaced, hdistinct⟩
    rw [Array.toList_push, List.pairwise_append] at hdistinct
    have hself : s ∈ b.seeds.push s := Array.mem_push_self
    refine ⟨⟨?_, ?_, hdistinct.1⟩, hfits s hself, hplaced s hself, ?_⟩
    · intro t ht
      exact hfits t (Array.mem_push_of_mem s ht)
    · intro t ht
      exact hplaced t (Array.mem_push_of_mem s ht)
    · intro hunit
      refine ownsUnit_eq_false.mpr ?_
      intro t ht htunit
      exact hdistinct.2.2 t (Array.mem_toList_iff.mpr ht) s List.mem_cons_self htunit hunit
  · rintro ⟨h, hfits, hplaced, hnew⟩
    refine ⟨?_, ?_, ?_⟩
    · intro t ht
      rcases Array.mem_push.mp ht with ht | rfl
      · exact h.fits t ht
      · exact hfits
    · intro t ht
      rcases Array.mem_push.mp ht with ht | rfl
      · exact h.placed t ht
      · exact hplaced
    · rw [Array.toList_push, List.pairwise_append]
      refine ⟨h.distinct, List.pairwise_singleton _ _, ?_⟩
      intro t ht u hu htunit huunit
      cases List.mem_singleton.mp hu
      exact ownsUnit_eq_false.mp (hnew huunit) t (Array.mem_toList_iff.mp ht) htunit

theorem accepted_add (hb : b.Accepted) (h : b.add s = .ok b') : b'.Accepted := by
  obtain ⟨_, hcheck, h⟩ := bind_eq_ok.mp h
  cases h
  exact accepted_push.mpr ⟨hb, hcheck⟩

theorem Reachable.accepted [Scalar α] {params : NetworkParams α} {material : Material α}
    (hb : b.Reachable params material) : b.Accepted :=
  hb.preserved ⟨by simp [withMaterial], by simp [withMaterial], List.Pairwise.nil⟩ accepted_add

/-- Acceptance does not depend on the order of adding, nor on seeds that are left out. -/
theorem Accepted.of_subperm (h : b.Accepted) {seeds : List (ClusterSeed α)}
    (hseeds : seeds.Subperm b.seeds.toList) : ({ b with seeds := seeds.toArray } : Builder α).Accepted := by
  have hmem : ∀ s ∈ seeds.toArray, s ∈ b.seeds := by
    intro s hs
    exact Array.mem_toList_iff.mp (hseeds.subset (List.mem_toArray.mp hs))
  refine ⟨?_, ?_, ?_⟩
  · intro s hs
    exact h.fits s (hmem s hs)
  · intro s hs
    exact h.placed s (hmem s hs)
  · obtain ⟨l, hperm, hsub⟩ := hseeds
    exact (hperm.pairwise_iff fun h => h.symm).mp (h.distinct.sublist hsub)

/-- Accepted seeds in the order of their numbers make the same network. -/
theorem finish_numbering [Scalar α] (b : Builder α) :
    ({ b with seeds := (Population.numbering b.seeds.toList).toArray } : Builder α).finish = b.finish := by
  have hempty : (Population.numbering b.seeds.toList).toArray.isEmpty = b.seeds.isEmpty := by
    have hlen := (Population.numbering_perm b.seeds.toList).length_eq
    simp only [Array.isEmpty, List.size_toArray, hlen, Array.length_toList]
  rw [finish, finish, hempty, List.toList_toArray, Population.ofSeeds_numbering]

end Builder

theorem NetworkParams.dim_le_of_chooseMaterial [Analytic α] {p : NetworkParams α} {m : Material α}
    (h : p.chooseMaterial = .ok m) : m.space.dim ≤ maxAxes := by
  have hmetal : DefectSpace.space.dim ≤ maxAxes := by decide
  have hxenon : Xenon.space.dim ≤ maxAxes := by decide
  obtain ⟨-, rfl⟩ | ⟨-, rfl⟩ | ⟨-, rfl⟩ := NetworkParams.material_of_chooseMaterial h
  · exact hmetal
  · exact hmetal
  · exact hxenon

/-! ### Records of clusters -/

namespace ClusterRecord

variable [Scalar α] {dim : Nat} {c : Cluster α}

/-- Nothing that the record leaves out is lost: the region has no extent beyond the axes, and the
    migration energy is finite, if there is one. -/
structure Keeps (dim : Nat) (c : Cluster α) : Prop where
  beyond : ∀ a : Direction, dim ≤ a.val → c.region.lo.get a = 0 ∧ c.region.hi.get a = 1
  migration : ∀ e, c.properties.migrationEnergy = some e → Scalar.isFinite e = true

omit [Scalar α] in
/-- A corner is read back from its first coordinates. -/
theorem ofFn_take {x : Point} {rest : Int} (h : ∀ a : Direction, dim ≤ a.val → x.get a = rest) :
    (Vector.ofFn fun a : Direction => ((x.toList.take dim)[a.val]?).getD rest) = x := by
  refine Point.ext_get fun a => ?_
  rw [get_ofFn, List.getElem?_take]
  split_ifs with ha
  · simp [Vector.get]
  · exact (h a (by omega)).symm

theorem seed_ofCluster (hdim : dim ≤ maxAxes) (h : Keeps dim c) : (ofCluster dim c).seed dim = .ok c.seed := by
  have hlo : (c.region.lo.toList.take dim).length = dim := by simpa using hdim
  have hhi : (c.region.hi.toList.take dim).length = dim := by simpa using hdim
  have hregion : (ofCluster dim c).region dim = .ok c.region := by
    rw [region, if_neg (by simp [ofCluster, hlo, hhi])]
    simp only [ofCluster]
    rw [ofFn_take fun a ha => (h.beyond a ha).1, ofFn_take fun a ha => (h.beyond a ha).2]
  have hmigration : c.properties.migrationEnergy.filter Scalar.isFinite = c.properties.migrationEnergy := by
    cases he : c.properties.migrationEnergy with
    | none => rfl
    | some e => simp [Option.filter, h.migration e he]
  rw [seed, hregion]
  show Except.ok _ = _
  simp only [ofCluster, hmigration]
  rfl

end ClusterRecord

namespace NetworkSnapshot

section
variable {dim : Nat}

theorem addRecords_of_accepted : ∀ {records : List (ClusterRecord α)} {seeds : List (ClusterSeed α)}
    {b : Builder α}, records.map (·.seed dim) = seeds.map .ok →
      ({ b with seeds := (b.seeds.toList ++ seeds).toArray } : Builder α).Accepted →
        addRecords dim records b = .ok { b with seeds := (b.seeds.toList ++ seeds).toArray }
  | [], [], b, _, _ => by simp [addRecords]
  | r :: rest, s :: seeds, b, hseeds, h => by
    obtain ⟨hhead, htail⟩ := List.cons.inj hseeds
    have hpush : b.seeds.toList ++ s :: seeds = (b.seeds.push s).toList ++ seeds := by simp
    rw [hpush] at h ⊢
    have hhere : ({ b with seeds := (b.seeds.push s).toList.toArray } : Builder α).Accepted :=
      h.of_subperm (List.sublist_append_left _ seeds).subperm
    refine bind_eq_ok.mpr ⟨s, hhead, bind_eq_ok.mpr ⟨{ b with seeds := b.seeds.push s }, ?_, ?_⟩⟩
    · exact bind_eq_ok.mpr ⟨(), (Builder.accepted_push.mp hhere).2, rfl⟩
    · exact addRecords_of_accepted htail h

/-- Every cluster passes the comparison with its own record. -/
theorem checkRecords_map [Scalar α] : ∀ clusters : List (Cluster α),
    checkRecords (clusters.map (ClusterRecord.ofCluster dim)) clusters = .ok ()
  | [] => rfl
  | c :: rest => by
    rw [List.map_cons, checkRecords, if_neg (by simp [ClusterRecord.ofCluster]), checkRecords_map rest]

/-- Records with ascending numbers are put in order, however they are listed. -/
theorem ordered_eq {s : NetworkSnapshot α} {records : List (ClusterRecord α)}
    (hsorted : (records.map (·.id)).Pairwise (· < ·)) (hperm : s.clusters.Perm records) :
    s.ordered = records := by
  have hp : s.ordered.Perm records := (List.mergeSort_perm _ _).trans hperm
  have hle : s.ordered.Pairwise fun r t => r.id ≤ t.id := by
    have h : s.ordered.Pairwise fun r t => decide (r.id ≤ t.id) = true := List.pairwise_mergeSort
      (fun r s t h h' => by simpa using Nat.le_trans (by simpa using h) (by simpa using h'))
      (fun r t => by simpa using Nat.le_total r.id t.id) s.clusters
    exact h.imp fun h => by simpa using h
  refine hp.eq_of_pairwise ?_ hle ((List.pairwise_map.mp hsorted).imp fun h => h.le)
  intro r t hr ht hrt htr
  have hnodup : (records.map (·.id)).Nodup := hsorted.imp fun h => h.ne
  exact List.inj_on_of_nodup_map hnodup (hp.mem_iff.mp hr) ht (Nat.le_antisymm hrt htr)

end

variable [Analytic α]

/-- A snapshot of any network, with its records in any order, is restored to the same network. -/
theorem restore_snapshot {params : NetworkParams α} {m : Material α} {b : Builder α} {n : Network α}
    (hchoice : params.chooseMaterial = .ok m) (hb : b.Reachable params m) (hfinish : b.finish = .ok n)
    (hkeeps : ∀ c ∈ n.clusters, ClusterRecord.Keeps m.space.dim c) {records : List (ClusterRecord α)}
    (hperm : records.Perm n.snapshot.clusters) :
    ({ n.snapshot with clusters := records } : NetworkSnapshot α).restore = .ok n := by
  obtain ⟨hn, hparams, hmaterial⟩ := Network.built_of_finish hb hfinish
  have hclusters : n.clusters.toList = Population.clustersOf b.seeds.toList := by
    rw [Builder.clusters_of_finish hfinish]
  have hseeds : n.clusters.toList.map Cluster.seed = Population.numbering b.seeds.toList := by
    rw [hclusters, Population.clustersOf, Population.map_seed_assign]
  have hids : (n.snapshot.clusters.map (·.id)).Pairwise (· < ·) := by
    have hmap : n.snapshot.clusters.map (·.id) = n.clusters.toList.map (·.id) := by
      simp [Network.snapshot, ClusterRecord.ofCluster]
    rw [hmap, hclusters, Population.map_id_clustersOf]
    exact List.pairwise_lt_range
  have hrecords : n.snapshot.clusters.map (·.seed m.space.dim) =
      (Population.numbering b.seeds.toList).map .ok := by
    rw [← hseeds, Network.snapshot, hmaterial, List.map_map, List.map_map]
    refine List.map_congr_left ?_
    intro c hc
    exact ClusterRecord.seed_ofCluster (NetworkParams.dim_le_of_chooseMaterial hchoice)
      (hkeeps c (Array.mem_toList_iff.mp hc))
  have hbuilder : ({ b with seeds := (Population.numbering b.seeds.toList).toArray } : Builder α) =
      { Builder.withMaterial params m with
        seeds := ((Builder.withMaterial params m).seeds.toList ++
          Population.numbering b.seeds.toList).toArray } := by
    rw [hb.holds.params_eq, hb.holds.material_eq]
    rfl
  have haccepted := hb.accepted.of_subperm (Population.numbering_perm b.seeds.toList).subperm
  have hfinish := (Builder.finish_numbering b).trans hfinish
  have hordered := ordered_eq (s := { n.snapshot with clusters := records }) hids hperm
  rw [hbuilder] at haccepted hfinish
  have hempty : Builder.ofParams n.snapshot.params = .ok (Builder.withMaterial params m) := by
    rw [Network.snapshot, hparams, Builder.ofParams, hchoice]
  unfold restore
  rw [hordered]
  refine bind_eq_ok.mpr ⟨_, hempty, bind_eq_ok.mpr ⟨_, addRecords_of_accepted hrecords haccepted, ?_⟩⟩
  refine bind_eq_ok.mpr ⟨n, hfinish, check_bind_eq_ok.mpr ⟨not_not.mpr rfl, ?_⟩⟩
  exact bind_eq_ok.mpr ⟨(), checkRecords_map n.clusters.toList, rfl⟩

end NetworkSnapshot

/-! ### A group before a single atom -/

namespace GroupFirst
open scoped Pair

/-- Xenon clusters of up to three atoms. -/
def params : NetworkParams ℚ := { NetworkParams.standard with material := .xenon, maxXenon := 3 }

/-- The clusters of `lo` to `hi` atoms share a seed. -/
def seed (lo hi : Int) (count : UInt32) : ClusterSeed ℚ :=
  let r := Region.ofInclusive [(lo, hi)]
  let c := Composition.single .xenon count
  ⟨r, c, (Xenon.material params).seedProperties r c⟩

/-- The group is added before the single atom, which is numbered before the group. -/
def builder : Builder ℚ :=
  ((Builder.withMaterial params (Xenon.material params)).addAll [seed 2 3 3, seed 1 1 1]).1

theorem reachable : builder.Reachable params (Xenon.material params) := Builder.Reachable.start.addAll

theorem finish_ok : ∃ n, builder.finish = .ok n ∧ n.reactions.size = 4 ∧ n.clusters.size = 2 ∧
    (∀ c ∈ n.clusters.toList, ∀ a : Direction, 1 ≤ a.val → c.region.lo.get a = 0 ∧ c.region.hi.get a = 1) :=
  exists_eq_ok (by decide +kernel)

theorem isFinite_eq_true (x : ℚ) : Scalar.isFinite x = true := rfl

/-- Group and single atom come back from records in the order in which they were added. -/
theorem restore_reversed : ∃ n, builder.finish = .ok n ∧ n.clusters.size = 2 ∧
    ({ n.snapshot with clusters := n.snapshot.clusters.reverse } : NetworkSnapshot ℚ).restore = .ok n := by
  obtain ⟨n, hn, -, hsize, hbeyond⟩ := finish_ok
  refine ⟨n, hn, hsize, NetworkSnapshot.restore_snapshot (by rfl) reachable hn ?_ (List.reverse_perm _)⟩
  intro c hc
  exact ⟨hbeyond c (Array.mem_toList_iff.mpr hc), fun e _ => isFinite_eq_true e⟩

end GroupFirst
end ClusterDynamics
