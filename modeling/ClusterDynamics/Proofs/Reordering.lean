import ClusterDynamics.Proofs.Reversal
import ClusterDynamics.Proofs.SlotLayout
import ClusterDynamics.Proofs.Touched

/-! Networks of the same seeds. The order in which seeds are added decides how clusters are numbered and
    where their moments lie, and nothing else: each cluster has a twin that grows from the same seed, whose
    slots belong to the same basis functions, and twins react, emit and are emitted alike. -/

namespace ClusterDynamics

variable {α : Type}

namespace Network

/-- Clusters of two networks that grow from one seed. -/
structure Twins (n n' : Network α) (c c' : Cluster α) : Prop where
  mem : c ∈ n.clusters
  mem' : c' ∈ n'.clusters
  seed_eq : c.seed = c'.seed

/-- Slot `s` of one network and slot `s'` of the other belong to the same basis function of the same region. -/
def Corresponds (n n' : Network α) (s s' : Nat) : Prop :=
  ∃ c ∈ n.clusters, ∃ c' ∈ n'.clusters, c.region = c'.region ∧
    ∃ j : BasisIndex, (j, s) ∈ c.slots ∧ (j, s') ∈ c'.slots

/-- Finished networks of one material whose clusters grow from the same seeds. -/
structure Reordered [Scalar α] (n n' : Network α) : Prop where
  built : n.Built
  built' : n'.Built
  material_eq : n.material = n'.material
  monomers : n.material.monomers.Nodup
  dof_eq : n.dof = n'.dof
  exists_twin : ∀ c ∈ n.clusters, ∃ c' ∈ n'.clusters, c.seed = c'.seed
  exists_twin' : ∀ c' ∈ n'.clusters, ∃ c ∈ n.clusters, c.seed = c'.seed

section
variable {n n' : Network α} {c c' : Cluster α} (h : n.Twins n' c c')
include h

namespace Twins

theorem symm : n'.Twins n c' c := ⟨h.mem', h.mem, h.seed_eq.symm⟩

theorem region_eq : c.region = c'.region := congrArg ClusterSeed.region h.seed_eq

theorem composition_eq : c.composition = c'.composition := congrArg ClusterSeed.composition h.seed_eq

theorem properties_eq : c.properties = c'.properties := congrArg ClusterSeed.properties h.seed_eq

theorem isMobile_eq [Scalar α] : c.isMobile = c'.isMobile := by
  unfold Cluster.isMobile
  rw [h.properties_eq]

theorem makes_iff {a a' : Cluster α} (ha : n.Twins n' a a') {x : Point} :
    a.Makes c x ↔ a'.Makes c' x := by
  unfold Cluster.Makes
  rw [ha.region_eq, h.region_eq]

end Twins
end

theorem Corresponds.symm {n n' : Network α} {s s' : Nat} (h : n.Corresponds n' s s') :
    n'.Corresponds n s' s := by
  obtain ⟨c, hc, c', hc', hregion, j, hs, hs'⟩ := h
  exact ⟨c', hc', c, hc, hregion.symm, j, hs', hs⟩

section
variable [Scalar α] {n n' : Network α} {c c' d d' : Cluster α}

theorem Built.slotsOf_of_single (hn : n.Built) (hc : c ∈ n.clusters) (h : c.isGrouped = false) :
    slotsOf c = [c.id] := by
  have hnone : c.momentColumns = [] := by
    refine List.eq_nil_iff_forall_not_mem.mpr fun t ht => ?_
    obtain ⟨⟨k, s⟩, hmem, rfl⟩ := List.mem_map.mp ht
    obtain ⟨hmem, hk⟩ := List.mem_filter.mp hmem
    have hk : k ≠ 0 := by
      rintro rfl
      cases hk
    obtain ⟨a, rfl⟩ := Fin.exists_succ_eq.mpr hk
    have hwide := (hn.exists_slot_iff hc a).mp ⟨s, hmem⟩
    rw [Region.isUnit_iff.mp (hn.sound.isUnit hc h) a] at hwide
    exact absurd hwide (lt_irrefl 1)
  rw [Cluster.slotsOf_eq, hnone]

namespace Reordered
variable (R : n.Reordered n')
include R

theorem symm : n'.Reordered n where
  built := R.built'
  built' := R.built
  material_eq := R.material_eq.symm
  monomers := R.material_eq ▸ R.monomers
  dof_eq := R.dof_eq.symm
  exists_twin c' hc' := by
    obtain ⟨c, hc, h⟩ := R.exists_twin' c' hc'
    exact ⟨c, hc, h.symm⟩
  exists_twin' c hc := by
    obtain ⟨c', hc', h⟩ := R.exists_twin c hc
    exact ⟨c', hc', h.symm⟩

theorem twin (hc : c ∈ n.clusters) : ∃ c', n.Twins n' c c' := by
  obtain ⟨c', hc', h⟩ := R.exists_twin c hc
  exact ⟨c', hc, hc', h⟩

theorem twins_of_region (hc : c ∈ n.clusters) (hc' : c' ∈ n'.clusters) (h : c.region = c'.region) :
    n.Twins n' c c' := by
  obtain ⟨d, ht⟩ := R.twin hc
  obtain rfl := R.built'.eq_of_region ht.mem' hc' (ht.region_eq.symm.trans h)
  exact ht

theorem eq_iff (hc : n.Twins n' c c') (hd : n.Twins n' d d') : c = d ↔ c' = d' := by
  constructor
  · rintro rfl
    exact R.built'.eq_of_region hc.mem' hd.mem' (hc.region_eq.symm.trans hd.region_eq)
  · rintro rfl
    exact R.built.eq_of_region hc.mem hd.mem (hc.region_eq.trans hd.region_eq.symm)

theorem id_eq_iff (hc : n.Twins n' c c') (hd : n.Twins n' d d') : c.id = d.id ↔ c'.id = d'.id := by
  have hleft : c.id = d.id ↔ c = d := ⟨R.built.sound.eq_of_id hc.mem hd.mem, congrArg Cluster.id⟩
  have hright : c'.id = d'.id ↔ c' = d' := ⟨R.built'.sound.eq_of_id hc.mem' hd.mem', congrArg Cluster.id⟩
  rw [hleft, hright, R.eq_iff hc hd]

theorem isGrouped_eq (h : n.Twins n' c c') : c.isGrouped = c'.isGrouped := by
  rw [R.built.sound.grouped c h.mem, R.built'.sound.grouped c' h.mem', h.region_eq]

theorem owns_eq (x : Point) : n.owns x = n'.owns x := by
  rw [Bool.eq_iff_iff, Population.owns_iff, Population.owns_iff]
  constructor
  · rintro ⟨c, hc, hx⟩
    obtain ⟨c', h⟩ := R.twin hc
    exact ⟨c', h.mem', h.region_eq ▸ hx⟩
  · rintro ⟨c', hc', hx⟩
    obtain ⟨c, h⟩ := R.symm.twin hc'
    exact ⟨c, h.mem', h.region_eq ▸ hx⟩

/-! ### Slots -/

theorem exists_slot (h : n.Twins n' c c') {j : BasisIndex} {s : Nat} (hs : (j, s) ∈ c.slots) :
    ∃ s', (j, s') ∈ c'.slots := by
  cases j using Fin.cases with
  | zero => exact ⟨c'.id, Cluster.mem_slots.mpr rfl⟩
  | succ a =>
    have hwide := (R.built.exists_slot_iff h.mem a).mp ⟨s, hs⟩
    exact (R.built'.exists_slot_iff h.mem' a).mpr (h.region_eq ▸ hwide)

/-- A slot of a cluster corresponds to the slot that the cluster's twin has for the same basis function. -/
theorem corresponds_iff (h : n.Twins n' c c') {j : BasisIndex} {s : Nat} (hs : (j, s) ∈ c.slots) {s' : Nat} :
    n.Corresponds n' s s' ↔ (j, s') ∈ c'.slots := by
  constructor
  · rintro ⟨d, hd, d', hd', hregion, i, hi, hi'⟩
    -- The slot has one owner, so the region that it is matched by is that of `c`.
    obtain ⟨rfl, rfl⟩ := R.built.sound.owner_unique h.mem hd hs hi
    rwa [(R.eq_iff h (R.twins_of_region hd hd' hregion)).mp rfl]
  · intro hs'
    exact ⟨c, h.mem, c', h.mem', h.region_eq, j, hs, hs'⟩

theorem existsUnique_corresponds {s : Nat} (hs : s < n.dof) : ∃! s', n.Corresponds n' s s' := by
  obtain ⟨c, hc, hslot⟩ := exists_mem_slotsOf R.built.sound hs
  obtain ⟨j, hj⟩ := mem_slotsOf.mp hslot
  obtain ⟨c', h⟩ := R.twin hc
  obtain ⟨s', hs'⟩ := R.exists_slot h hj
  refine ⟨s', (R.corresponds_iff h hj).mpr hs', fun t ht => ?_⟩
  have ht := Cluster.mem_slots.mp ((R.corresponds_iff h hj).mp ht)
  exact Option.some.inj (ht.symm.trans (Cluster.mem_slots.mp hs'))

theorem lt_of_corresponds {s s' : Nat} (h : n.Corresponds n' s s') : s < n.dof ∧ s' < n'.dof := by
  obtain ⟨c, hc, c', hc', -, j, hs, hs'⟩ := h
  exact ⟨R.built.sound.slot_lt hc hs, R.built'.sound.slot_lt hc' hs'⟩

theorem corresponds_inj {s s' t t' : Nat} (hs : n.Corresponds n' s s') (ht : n.Corresponds n' t t') :
    s = t ↔ s' = t' := by
  constructor
  · rintro rfl
    exact (R.existsUnique_corresponds (R.lt_of_corresponds hs).1).unique hs ht
  · rintro rfl
    exact (R.symm.existsUnique_corresponds (R.lt_of_corresponds hs).2).unique hs.symm ht.symm

theorem corresponds_id (h : n.Twins n' c c') : n.Corresponds n' c.id c'.id :=
  (R.corresponds_iff h (j := 0) (Cluster.mem_slots.mpr rfl)).mpr (Cluster.mem_slots.mpr rfl)

theorem mem_slotsOf_iff (h : n.Twins n' c c') {s s' : Nat} (hs : n.Corresponds n' s s') :
    s ∈ slotsOf c ↔ s' ∈ slotsOf c' := by
  rw [mem_slotsOf, mem_slotsOf]
  constructor
  · rintro ⟨j, hj⟩
    exact ⟨j, (R.corresponds_iff h hj).mp hs⟩
  · rintro ⟨j, hj⟩
    exact ⟨j, (R.symm.corresponds_iff h.symm hj).mp hs.symm⟩

/-! ### Reactions -/

theorem reactive {a a' : Cluster α} (ha : n.Twins n' a a') (hc : n.Twins n' c c') (h : n.Reactive a c) :
    n'.Reactive a' c' where
  mobile := ha.isMobile_eq ▸ hc.isMobile_eq ▸ h.mobile
  single := R.isGrouped_eq ha ▸ R.isGrouped_eq hc ▸ h.single
  product := by
    obtain ⟨x, hx, hkept⟩ := h.product
    exact ⟨x, (hc.makes_iff ha).mp hx, R.owns_eq x ▸ hkept⟩

theorem exists_combines {a a' : Cluster α} (ha : n.Twins n' a a') (hc : n.Twins n' c c')
    (h : ∃ i, n.Combines i a.id c.id) : ∃ i, n'.Combines i a'.id c'.id := by
  obtain ⟨i, hi⟩ := h
  exact R.built'.exists_combines ha.mem' hc.mem'
    (R.reactive ha hc (R.built.reactive_of_combines ha.mem hc.mem hi))

theorem reversible {P P' M M' : Cluster α} (hP : n.Twins n' P P') (hM : n.Twins n' M M')
    (hc : n.Twins n' c c') (h : n.Reversible P M c) : n'.Reversible P' M' c' where
  single := R.isGrouped_eq hM ▸ h.single
  listed := R.material_eq ▸ hM.composition_eq ▸ h.listed
  other := fun hid => h.other ((R.id_eq_iff hM hP).mpr hid)
  emits := by
    rw [← R.material_eq, ← hP.composition_eq, ← hM.composition_eq]
    exact h.emits
  meets := by
    rw [← R.material_eq, ← hM.composition_eq, ← hP.region_eq, ← hc.region_eq]
    exact h.meets
  production := R.exists_combines hM hc h.production

end Reordered
end

/-! ### Orders of seeds -/

/-- Builders that hold the same seeds in any order finish as networks of the same seeds. -/
theorem reordered_of_finish [Analytic α] {source params : NetworkParams α} {m : Material α}
    (hchoice : source.chooseMaterial = .ok m) {b b' : Builder α} (hb : b.Reachable params m)
    (hb' : b'.Reachable params m) (hperm : b.seeds.toList.Perm b'.seeds.toList) {n n' : Network α}
    (hn : b.finish = .ok n) (hn' : b'.finish = .ok n') : n.Reordered n' := by
  obtain ⟨hbuilt, -, hm⟩ := built_of_finish hb hn
  obtain ⟨hbuilt', -, hm'⟩ := built_of_finish hb' hn'
  have hseeds : (n.clusters.toList.map Cluster.seed).Perm (n'.clusters.toList.map Cluster.seed) := by
    rw [Builder.map_seed_of_finish hn, Builder.map_seed_of_finish hn']
    exact (Population.numbering_perm _).trans (hperm.trans (Population.numbering_perm _).symm)
  have hmem : ∀ {k : Network α} {s : ClusterSeed α},
      s ∈ k.clusters.toList.map Cluster.seed ↔ ∃ c ∈ k.clusters, c.seed = s := by
    intro k s
    simp only [List.mem_map, Array.mem_toList_iff]
  refine ⟨hbuilt, hbuilt', hm.trans hm'.symm, nodup_monomers (hm ▸ hchoice), ?_, fun c hc => ?_,
    fun c' hc' => ?_⟩
  · obtain ⟨p, hp, rfl⟩ := Builder.finish_eq_ok hn
    obtain ⟨p', hp', rfl⟩ := Builder.finish_eq_ok hn'
    obtain ⟨tree, -, rfl⟩ := Population.ofSeeds_eq_ok hp
    obtain ⟨tree', -, rfl⟩ := Population.ofSeeds_eq_ok hp'
    show Population.dofOf b.seeds.toList = Population.dofOf b'.seeds.toList
    rw [Population.dofOf_eq, Population.dofOf_eq, hperm.length_eq, (hperm.map _).sum_eq]
  · obtain ⟨c', hc', h⟩ := hmem.mp (hseeds.mem_iff.mp (hmem.mpr ⟨c, hc, rfl⟩))
    exact ⟨c', hc', h.symm⟩
  · exact hmem.mp (hseeds.mem_iff.mpr (hmem.mpr ⟨c', hc', rfl⟩))

end Network
end ClusterDynamics
