import ClusterDynamics.Proofs.Collection
import ClusterDynamics.Proofs.Overlap

/-! The layout of the state vector. The slots of a network fall into two blocks: the concentrations of
    all clusters in the order of their numbers, then the moments of the grouped clusters in the order of
    cluster and axis. A step of the numbering appends one number to the first block and a run of slots to
    the second, so both blocks are dense, and every slot has one owner. Which axes own a slot is decided
    three times, by the width of the region, by its moment basis and by its half-width as a scalar; the
    answers agree. -/

namespace ClusterDynamics

variable {α : Type}

/-! ### Widths as scalars -/

/-- Half of a width beyond one is positive, and nothing is above itself. Doubles obey both: the scalar of
    a width that is a word is at least two, and halving does not reach zero. -/
def Scalar.SeparatesWidths (α : Type) [Scalar α] : Prop :=
  ¬(0 : α) < 0 ∧ ∀ w : Int, fits w = true → 1 < w → (0 : α) < (Scalar.ofInt w - 1) * 0.5

theorem Scalar.separatesWidths_exact {K : Type} [Field K] [LinearOrder K] [IsStrictOrderedRing K] :
    Scalar.SeparatesWidths K := by
  refine ⟨lt_irrefl _, fun w _ hw => ?_⟩
  have hw : (1 : K) < (w : K) := by exact_mod_cast hw
  have hhalf : (0 : K) < 0.5 := by norm_num
  rw [Scalar.ofInt_exact]
  exact mul_pos (sub_pos.mpr hw) hhalf

/-- The scalar test for a moment on an axis answers like the width. -/
theorem Moment.halfWidth_pos_iff [Scalar α] (hα : Scalar.SeparatesWidths α) {r : Region} {a : Direction}
    (hfits : fits (r.width a) = true) : (0 : α) < halfWidth r a ↔ 1 < r.width a := by
  unfold halfWidth isGrouped
  by_cases h : 1 < r.width a
  · rw [if_pos (decide_eq_true h)]
    exact iff_of_true (hα.2 _ hfits h) h
  · rw [if_neg (by simpa using h)]
    exact iff_of_false hα.1 h

/-! ### One cluster -/

/-- A region that holds a point holds several exactly when it is wider than one on some axis. -/
theorem Region.isUnit_eq_false_iff {r : Region} (h : r.isEmpty = false) :
    r.isUnit = false ↔ ∃ a, 1 < r.width a := by
  rw [← Bool.not_eq_true, isUnit_iff, not_forall]
  refine exists_congr fun a => ?_
  have := isEmpty_eq_false.mp h a
  rw [width]
  omega

/-- The moment slots of a cluster in the order of its axes. -/
def Cluster.momentColumns (c : Cluster α) : List Nat :=
  (c.slots.filter (·.1.axis?.isSome)).map (·.2)

/-- The slots of a cluster come in the order of its basis functions. -/
theorem Cluster.pairwise_slots (c : Cluster α) : c.slots.Pairwise fun x y => x.1 < y.1 := by
  have hbasis : basisIndices.Pairwise (· < ·) := by decide
  refine hbasis.filterMap _ fun k j hkj x hx y hy => ?_
  obtain ⟨_, -, rfl⟩ := Option.map_eq_some_iff.mp hx
  obtain ⟨_, -, rfl⟩ := Option.map_eq_some_iff.mp hy
  exact hkj

/-- A cluster's first slot is its number, the others belong to its moments. -/
theorem Cluster.filter_slots (c : Cluster α) :
    c.slots.filter (·.1 = 0) = [(0, c.id)] ∧
      c.slots.filter (·.1.axis?.isSome) =
        directions.filterMap fun a => (c.moments.get a).map fun s => (a.succ, s) := by
  have hsucc : ∀ x ∈ directions.filterMap fun a => (c.moments.get a).map fun s => (a.succ, s),
      x.1 ≠ 0 ∧ (BasisIndex.axis? x.1).isSome = true := fun x hx => by
    obtain ⟨a, -, ha⟩ := List.mem_filterMap.mp hx
    obtain ⟨s, -, rfl⟩ := Option.map_eq_some_iff.mp ha
    exact ⟨Fin.succ_ne_zero a, rfl⟩
  rw [Cluster.slots_eq, List.filter_cons_of_pos (by simp),
    List.filter_cons_of_neg (by simp [BasisIndex.axis?]), List.filter_eq_nil_iff.mpr fun x hx => by simpa using (hsucc x hx).1,
    List.filter_eq_self.mpr fun x hx => (hsucc x hx).2]
  exact ⟨rfl, rfl⟩

theorem Cluster.concentrationColumns_eq (c : Cluster α) :
    (c.slots.filter (·.1 = 0)).map (·.2) = [c.id] := by
  rw [c.filter_slots.1]
  rfl

theorem Cluster.slotsOf_eq (c : Cluster α) : Network.slotsOf c = c.id :: c.momentColumns := by
  rw [Network.slotsOf, Cluster.momentColumns, c.filter_slots.2, Cluster.slots_eq, List.map_cons]

theorem ClusterSeed.momentColumns_toCluster (s : ClusterSeed α) (id next : Nat) :
    (s.toCluster id next).momentColumns = List.range' next s.region.groupedAxes.length :=
  (List.cons.inj ((Cluster.slotsOf_eq _).symm.trans (s.slotsOf_toCluster id next))).2

/-- A slot number for a basis function is a slot of the cluster, also for numbers that name none. -/
theorem Cluster.slot?_eq_some {c : Cluster α} {b slot : Nat} :
    c.slot? b = some slot ↔ ∃ k : BasisIndex, k.val = b ∧ (k, slot) ∈ c.slots := by
  constructor
  · intro h
    rcases b with _ | a
    · exact ⟨0, rfl, Cluster.mem_slots.mpr h⟩
    · by_cases ha : a < maxAxes
      · exact ⟨⟨a + 1, Nat.succ_lt_succ ha⟩, rfl, Cluster.mem_slots.mpr h⟩
      · have hnone : c.moments[a]? = none := Vector.getElem?_eq_none_iff.mpr (not_lt.mp ha)
        rw [Cluster.slot?, hnone] at h
        cases h
  · rintro ⟨k, rfl, h⟩
    exact Cluster.mem_slots.mp h

namespace Population

/-! ### The two blocks -/

/-- Behind the first free slot, the moments of numbered clusters take consecutive slots. -/
theorem momentColumns_assign : ∀ (id next : Nat) (seeds : List (ClusterSeed α)),
    (assign id next seeds).flatMap Cluster.momentColumns =
      List.range' next (seeds.map fun s => s.region.groupedAxes.length).sum
  | _, _, [] => rfl
  | id, next, s :: rest => by
    rw [assign, List.flatMap_cons, ClusterSeed.momentColumns_toCluster, momentColumns_assign _ _ rest,
      List.map_cons, List.sum_cons, List.range'_append_1]

theorem momentColumns_clustersOf (seeds : List (ClusterSeed α)) :
    (clustersOf seeds).flatMap Cluster.momentColumns =
      List.range' seeds.length (dofOf seeds - seeds.length) := by
  rw [clustersOf, momentColumns_assign, ((numbering_perm seeds).map _).sum_eq, dofOf_eq,
    Nat.add_sub_cancel_left]

/-- Behind a grouped seed all seeds are grouped. -/
theorem pairwise_numbering (seeds : List (ClusterSeed α)) :
    (numbering seeds).Pairwise fun s t => s.region.isUnit = false → t.region.isUnit = false := by
  refine List.pairwise_append.mpr ⟨?_, ?_, fun s hs t ht => ?_⟩
  · exact List.pairwise_of_forall_mem_list fun s hs t _ h => by
      rw [(List.mem_filter.mp hs).2] at h
      cases h
  · exact List.pairwise_of_forall_mem_list fun s _ t ht _ => by simpa using (List.mem_filter.mp ht).2
  · exact fun _ => by simpa using (List.mem_filter.mp ht).2

variable {p : Population α}

/-- Basis functions of the same cluster have slots of their own, and so have clusters. -/
theorem Sound.owner_unique (S : p.Sound) {c d : Cluster α} (hc : c ∈ p.clusters) (hd : d ∈ p.clusters)
    {k j : BasisIndex} {slot : Nat} (h : (k, slot) ∈ c.slots) (h' : (j, slot) ∈ d.slots) :
    c = d ∧ k = j := by
  have hnodup := S.nodup_slots
  rw [List.nodup_flatMap] at hnodup
  have hmem : ∀ {e : Cluster α} {i : BasisIndex}, (i, slot) ∈ e.slots → slot ∈ Network.slotsOf e :=
    fun hi => List.mem_map.mpr ⟨_, hi, rfl⟩
  have hcd : c = d := by
    by_contra hne
    have hsymm : Std.Symm (fun x y : Cluster α => (Function.onFun List.Disjoint Network.slotsOf) x y) :=
      ⟨fun x y hxy => List.Disjoint.symm hxy⟩
    exact hnodup.2.forall (Array.mem_toList_iff.mpr hc) (Array.mem_toList_iff.mpr hd) hne (hmem h) (hmem h')
  subst hcd
  have hslots := hnodup.1 c (Array.mem_toList_iff.mpr hc)
  exact ⟨rfl, congrArg Prod.fst (List.inj_on_of_nodup_map hslots h h' rfl)⟩

/-- Every number below `dof` is a slot with one owner, and no other number is. -/
theorem Sound.existsUnique_owner (S : p.Sound) (slot : Nat) : slot < p.dof ↔
    ∃! x : Cluster α × BasisIndex, x.1 ∈ p.clusters ∧ (x.2, slot) ∈ x.1.slots := by
  constructor
  · intro hslot
    obtain ⟨c, hc, hmem⟩ := List.mem_flatMap.mp (S.slots.mem_iff.mpr (List.mem_range.mpr hslot))
    obtain ⟨⟨k, s⟩, hk, rfl⟩ := List.mem_map.mp hmem
    refine ⟨⟨c, k⟩, ⟨Array.mem_toList_iff.mp hc, hk⟩, ?_⟩
    rintro ⟨d, j⟩ ⟨hd, hj⟩
    obtain ⟨rfl, rfl⟩ := S.owner_unique hd (Array.mem_toList_iff.mp hc) hj hk
    rfl
  · rintro ⟨⟨c, k⟩, ⟨hc, hk⟩, -⟩
    exact S.slot_lt hc hk

end Population

/-! ### Networks -/

/-- The widths of all seeds are words when a network is finished. -/
theorem Builder.fits_width_of_finish [Scalar α] {b : Builder α} {n : Network α} (h : b.finish = .ok n)
    {c : Cluster α} (hc : c ∈ n.clusters) (a : Direction) : fits (c.region.width a) = true := by
  obtain ⟨p, hp, rfl⟩ := finish_eq_ok h
  have hfits : b.seeds.toList.all (·.layoutFits) = true := by
    unfold Population.ofSeeds at hp
    obtain ⟨_, hfits, -⟩ := bind_eq_ok.mp hp
    exact require_eq_ok.mp hfits
  obtain ⟨tree, -, rfl⟩ := Population.ofSeeds_eq_ok hp
  obtain ⟨s, hs, i, free, rfl⟩ := Population.seed_of_mem hc
  have hs := List.all_eq_true.mp hfits s hs
  simp only [ClusterSeed.layoutFits, Moment.basisFits, Region.volumeFits, Bool.and_eq_true] at hs
  exact List.all_eq_true.mp hs.2.1.1.1.1 a (mem_directions a)

namespace Network

/-- How clusters and state slots are numbered. -/
structure ExactLayout [Scalar α] (n : Network α) : Prop where
  /-- Clusters are numbered by their place. -/
  ids : n.clusters.toList.map (·.id) = List.range n.clusters.size
  /-- Grouped clusters come after all others. -/
  groupedLast : ∀ (i j : Nat) (c d : Cluster α), n.clusters[i]? = some c → n.clusters[j]? = some d →
    c.isGrouped = false → d.isGrouped = true → i < j
  /-- Every slot belongs to one basis function of one cluster. -/
  owner : ∀ slot, slot < n.dof ↔
    ∃! x : Cluster α × BasisIndex, x.1 ∈ n.clusters ∧ (x.2, slot) ∈ x.1.slots
  /-- No number from `dof` on is a slot. -/
  bounded : ∀ c ∈ n.clusters, ∀ k slot, (k, slot) ∈ c.slots → slot < n.dof
  /-- The first slots are the concentrations, in the order of the clusters. -/
  concentrations : n.clusters.toList.flatMap (fun c => (c.slots.filter (·.1 = 0)).map (·.2)) =
    List.range n.clusters.size
  /-- The slots behind them are the moments, in the order of clusters and axes. -/
  moments : n.clusters.size ≤ n.dof ∧ n.clusters.toList.flatMap Cluster.momentColumns =
    List.range' n.clusters.size (n.dof - n.clusters.size)
  ascending : ∀ c ∈ n.clusters, c.slots.Pairwise fun x y => x.1 < y.1
  /-- A basis function has a slot exactly when the region is wider than one along its axis. -/
  wide : ∀ c ∈ n.clusters, ∀ a : Direction, (∃ slot, (a.succ, slot) ∈ c.slots) ↔ 1 < c.region.width a
  /-- The moment basis of the region has the same functions. -/
  basis : ∀ c ∈ n.clusters, ∀ k, (∃ slot, (k, slot) ∈ c.slots) ↔ k ∈ Moment.indices c.region
  /-- So says the half-width, as a scalar. -/
  half : Scalar.SeparatesWidths α → ∀ c ∈ n.clusters, ∀ a : Direction,
    (0 : α) < Moment.halfWidth c.region a ↔ 1 < c.region.width a
  /-- Looking up the slot of a basis function finds what the list of slots has. -/
  column : ∀ c ∈ n.clusters, ∀ b slot, c.slot? b = some slot ↔
    ∃ k : BasisIndex, k.val = b ∧ (k, slot) ∈ c.slots
  /-- A cluster is grouped exactly when it owns the slot of a moment. -/
  grouped : ∀ c ∈ n.clusters, c.kind = .grouped ↔ ∃ (a : Direction) (slot : Nat), (a.succ, slot) ∈ c.slots

theorem Built.exists_slot_iff [Scalar α] {n : Network α} (hn : n.Built) {c : Cluster α}
    (hc : c ∈ n.clusters) (a : Direction) :
    (∃ slot, (a.succ, slot) ∈ c.slots) ↔ 1 < c.region.width a := by
  have hget : c.slot? a.succ.val = c.moments.get a := by
    show c.moments[a.val]?.join = c.moments.get a
    rw [Vector.getElem?_eq_getElem a.isLt]
    rfl
  simp only [Cluster.mem_slots, hget]
  rw [← Option.isSome_iff_exists, hn.sound.moments c hc a, decide_eq_true_eq]

/-- Behind a grouped cluster all clusters are grouped. -/
theorem Built.pairwise_grouped [Scalar α] {n : Network α} (hn : n.Built) {b : Builder α}
    (h : b.finish = .ok n) :
    n.clusters.toList.Pairwise fun c d => c.isGrouped = true → d.isGrouped = true := by
  have hseeds := Population.pairwise_numbering b.seeds.toList
  rw [← Builder.map_seed_of_finish h, List.pairwise_map] at hseeds
  refine hseeds.imp_of_mem fun {c d} hc hd hcd => ?_
  rw [hn.sound.grouped c (Array.mem_toList_iff.mp hc), hn.sound.grouped d (Array.mem_toList_iff.mp hd),
    Bool.not_eq_true', Bool.not_eq_true']
  exact hcd

/-- Every finished network has an exact layout of its slots. -/
theorem exactLayout_of_finish [Scalar α] {params : NetworkParams α} {material : Material α}
    {b : Builder α} {n : Network α} (hb : b.Reachable params material) (h : b.finish = .ok n) :
    n.ExactLayout := by
  obtain ⟨hn, -, -⟩ := built_of_finish hb h
  have S := hn.sound
  have hclusters := Builder.clusters_of_finish h
  have hsize : n.clusters.size = b.seeds.size := by
    have := congrArg List.length (Builder.map_id_of_finish h)
    rwa [List.length_map, List.length_range, Array.length_toList] at this
  have hdof : n.dof = Population.dofOf b.seeds.toList := by
    obtain ⟨p, hp, rfl⟩ := Builder.finish_eq_ok h
    obtain ⟨tree, -, rfl⟩ := Population.ofSeeds_eq_ok hp
    rfl
  have hids : n.clusters.toList.map (·.id) = List.range n.clusters.size := by
    rw [hsize, Builder.map_id_of_finish h]
  have hwide := fun c hc a => hn.exists_slot_iff (c := c) hc a
  exact {
    ids := hids
    groupedLast := fun i j c d hi hj hc hd => by
      rw [← Array.getElem?_toList] at hi hj
      obtain ⟨hilt, rfl⟩ := List.getElem?_eq_some_iff.mp hi
      obtain ⟨hjlt, rfl⟩ := List.getElem?_eq_some_iff.mp hj
      rcases lt_trichotomy i j with hlt | rfl | hgt
      · exact hlt
      · rw [hc] at hd
        cases hd
      · have := List.pairwise_iff_getElem.mp (hn.pairwise_grouped h) j i hjlt hilt hgt hd
        rw [hc] at this
        cases this
    owner := S.existsUnique_owner
    bounded := fun c hc k slot hk => S.slot_lt hc hk
    concentrations := by
      simp only [Cluster.concentrationColumns_eq]
      rw [← hids]
      exact (List.map_eq_flatMap ..).symm
    moments := by
      refine ⟨?_, ?_⟩
      · rw [hdof, Population.dofOf_eq, hsize, Array.length_toList]
        exact Nat.le_add_right _ _
      · rw [hsize, hdof, hclusters, List.toList_toArray, Population.momentColumns_clustersOf,
          Array.length_toList]
    ascending := fun c _ => c.pairwise_slots
    wide := hwide
    basis := fun c hc k => by
      rw [Moment.mem_indices]
      refine Fin.cases ?_ (fun a => ?_) k
      · exact iff_of_true ⟨c.id, Cluster.mem_slots.mpr rfl⟩ rfl
      · rw [hwide c hc a]
        exact decide_eq_true_iff.symm
    half := fun hα c hc a => Moment.halfWidth_pos_iff hα (Builder.fits_width_of_finish h hc a)
    column := fun c _ b slot => Cluster.slot?_eq_some
    grouped := fun c hc => by
      rw [← beq_iff_eq, ← Cluster.isGrouped, S.grouped c hc, Bool.not_eq_true',
        Region.isUnit_eq_false_iff (hn.nonempty c hc)]
      exact exists_congr fun a => (hwide c hc a).symm }

end Network

namespace Chain

/-- The four slots of the chain: three concentrations and one moment of the grouped cluster. -/
theorem exactLayout : ∃ n, builder.finish = .ok n ∧ n.dof = 4 ∧ n.ExactLayout ∧
    Scalar.SeparatesWidths ℚ := by
  obtain ⟨n, h, -, hdof, -⟩ := finish_ok
  exact ⟨n, h, hdof, Network.exactLayout_of_finish reachable h, Scalar.separatesWidths_exact⟩

end Chain
end ClusterDynamics
