import ClusterDynamics.Proofs.Equilibrium
import ClusterDynamics.Proofs.SnapshotFile

/-! The identity of clusters. A cluster is identified by its composition when its region holds a point, is
    flat beyond the axes of the material, and has the point of the composition in its rounded centre; a
    search for the composition then finds the cluster. Seeds come from the generator, from `add` and from
    records. The generator makes identified clusters only. For a single composition the checks of `add`
    say the same, but for a group they only ask that the composition has some place. -/

namespace ClusterDynamics

variable {α : Type}

/-! ### Places -/

namespace PhaseSpace

variable {space : PhaseSpace} {s : Species} {a : Nat} {sign : Int}

theorem lt_of_locateFrom : ∀ {l : List Axis} {i : Nat}, locateFrom s i l = some (a, sign) →
    a < i + l.length
  | [], _, h => by simp [locateFrom] at h
  | x :: rest, i, h => by
    rw [List.length_cons]
    rw [locateFrom] at h
    cases hx : x.sign? s with
    | none =>
      rw [hx] at h
      have := lt_of_locateFrom h
      omega
    | some t =>
      rw [hx] at h
      cases h
      omega

/-- The point is zero beyond the axes. -/
def Within (space : PhaseSpace) (p : Point) : Prop := ∀ a : Direction, space.dim ≤ a.val → p.get a = 0

/-- No composition has a place beyond the axes. -/
theorem within_toPoint {c : Composition} {p : Point} (h : space.toPoint c = .ok p) : space.Within p := by
  refine toPoint_induction (P := space.Within) (fun a _ => Point.get_origin a) (fun q e i sign hlocate hq b hb => ?_) h
  have hlt := lt_of_locateFrom hlocate
  rw [Nat.zero_add] at hlt
  rw [get_setIfInBounds, if_neg (by unfold dim at hb; omega)]
  exact hq b hb

end PhaseSpace

namespace Region

/-- The region has the one value zero on every axis beyond those of the space. -/
def Flat (space : PhaseSpace) (r : Region) : Prop :=
  ∀ a : Direction, space.dim ≤ a.val → r.lo.get a = 0 ∧ r.hi.get a = 1

variable {space : PhaseSpace} {r : Region}

/-- A region is flat when its two outermost points lie within the space. -/
theorem flat_of_within (hne : r.isEmpty = false)
    (h : ∀ x, r.contains x = true → space.Within x) : r.Flat space := by
  intro a ha
  have hlt := isEmpty_eq_false.mp hne
  let top : Point := Vector.ofFn fun b => r.hi.get b - 1
  have hlo := contains_lo hne
  have htop : r.contains top = true := contains_iff.mpr fun b => by
    have := hlt b
    rw [get_ofFn]
    omega
  have h1 := h _ hlo a ha
  have h2 := h _ htop a ha
  rw [get_ofFn] at h2
  omega

theorem anchor_eq_representative (r : Region) : r.anchor = r.representative := by
  unfold anchor
  split_ifs with hunit
  · exact (representative_of_isUnit hunit).symm
  · rfl

theorem contains_representative (h : r.isEmpty = false) : r.contains r.representative = true :=
  r.anchor_eq_representative ▸ contains_anchor h

end Region

/-! ### Identified clusters -/

/-- The composition is that of the rounded centre of the region, which holds a point and is flat beyond the
    axes of the space. -/
structure Cluster.Identified (space : PhaseSpace) (c : Cluster α) : Prop where
  nonempty : c.region.isEmpty = false
  flat : c.region.Flat space
  centred : space.toPoint c.composition = .ok c.region.representative

namespace Network

variable [Scalar α] {n : Network α} {c : Cluster α}

/-- What the composition of a cluster tells about it, whichever way its seed was made. -/
structure Located (n : Network α) (c : Cluster α) (x : Point) : Prop where
  nonempty : c.region.isEmpty = false
  place : n.material.space.toPoint c.composition = .ok x
  /-- A cluster on a single point is identified. -/
  single : c.isGrouped = false → c.Identified n.material.space
  identified_iff : c.Identified n.material.space ↔
    c.region.Flat n.material.space ∧ x = c.region.representative
  /-- A search for the composition finds the cluster when the place lies in the region. -/
  owner_iff : n.findOwner? c.composition = some c ↔ c.region.contains x = true
  owner : c.Identified n.material.space → n.findOwner? c.composition = some c

theorem Built.identified_of_isUnit (hn : n.Built) (hc : c ∈ n.clusters) (hunit : c.region.isUnit = true) :
    c.Identified n.material.space := by
  have hplace := hn.placed c hc hunit
  refine ⟨hn.nonempty c hc, ?_, ?_⟩
  · refine Region.flat_of_within (hn.nonempty c hc) fun x hx => ?_
    rw [(Region.contains_of_isUnit hunit).mp hx]
    exact PhaseSpace.within_toPoint hplace
  · rw [Region.representative_of_isUnit hunit]
    exact hplace

/-- The composition of every seed that a builder holds has a place. -/
theorem exists_toPoint {params : NetworkParams α} {material : Material α} {b : Builder α}
    (hb : b.Reachable params material) (h : b.finish = .ok n) (hc : c ∈ n.clusters) :
    ∃ x, n.material.space.toPoint c.composition = .ok x := by
  obtain ⟨-, -, hmaterial⟩ := built_of_finish hb h
  rw [Builder.clusters_of_finish h] at hc
  obtain ⟨s, hs, i, free, rfl⟩ := Population.seed_of_mem hc
  obtain ⟨x, hx, -⟩ := (hb.holds.placed s (Array.mem_toList_iff.mp hs)).located
  exact ⟨x, hmaterial ▸ hx⟩

theorem exists_located {params : NetworkParams α} {material : Material α} {b : Builder α}
    (hb : b.Reachable params material) (h : b.finish = .ok n) (hc : c ∈ n.clusters) :
    ∃ x, n.Located c x := by
  obtain ⟨hn, -, -⟩ := built_of_finish hb h
  obtain ⟨x, hx⟩ := exists_toPoint hb h hc
  have howner : n.findOwner? c.composition = some c ↔ c.region.contains x = true := by
    have hfind : n.findOwner? c.composition = n.findPoint? x := by rw [findOwner?, hx]
    rw [hfind, findPoint?_of_finish h]
    exact and_iff_right hc
  have hiff : c.Identified n.material.space ↔
      c.region.Flat n.material.space ∧ x = c.region.representative :=
    ⟨fun hid => ⟨hid.flat, Except.ok.inj (hx.symm.trans hid.centred)⟩,
      fun ⟨hflat, hcentre⟩ => ⟨hn.nonempty c hc, hflat, hcentre ▸ hx⟩⟩
  refine ⟨x, hn.nonempty c hc, hx, fun hsingle => ?_, hiff, howner, fun hid => howner.mpr ?_⟩
  · refine hn.identified_of_isUnit hc ?_
    rw [hn.sound.grouped c hc] at hsingle
    simpa using hsingle
  · rw [(hiff.mp hid).2]
    exact Region.contains_representative hid.nonempty

end Network

/-! ### Records -/

/-- The region of a record is flat. -/
theorem ClusterRecord.flat_of_seed {space : PhaseSpace} {r : ClusterRecord α} {s : ClusterSeed α}
    (h : r.seed space.dim = .ok s) : s.region.Flat space := by
  obtain ⟨region, hregion, h⟩ := bind_eq_ok.mp h
  cases h
  unfold ClusterRecord.region at hregion
  split_ifs at hregion with hlen
  cases hregion
  rw [not_or, not_not, not_not] at hlen
  intro a ha
  simp only [get_ofFn]
  rw [List.getElem?_eq_none (by omega), List.getElem?_eq_none (by omega)]
  exact ⟨rfl, rfl⟩

namespace NetworkSnapshot

variable [Analytic α] {s : NetworkSnapshot α} {n : Network α}

theorem reachable_of_addRecords {params : NetworkParams α} {material : Material α} {dim : Nat} :
    ∀ {records : List (ClusterRecord α)} {b b' : Builder α}, b.Reachable params material →
      addRecords dim records b = .ok b' → b'.Reachable params material
  | [], b, b', hb, h => by
    cases h
    exact hb
  | r :: rest, b, b', hb, h => by
    obtain ⟨seed, -, h⟩ := bind_eq_ok.mp h
    obtain ⟨b₁, hadd, h⟩ := bind_eq_ok.mp h
    exact reachable_of_addRecords (hb.add hadd) h

/-- A restored network is finished by a builder that has taken the seeds of the records. -/
theorem exists_builder (h : s.restore = .ok n) :
    ∃ b : Builder α, b.Reachable s.params n.material ∧ b.finish = .ok n := by
  obtain ⟨empty, builder, hempty, hadd, hfinish, -, -⟩ := restore_eq_ok h
  have hstart : empty.Reachable s.params empty.material := by
    rw [(Builder.ofParams_eq_ok hempty).2]
    exact .start
  have hreach := reachable_of_addRecords hstart hadd
  rw [← (Network.built_of_finish hreach hfinish).2.2] at hreach
  exact ⟨builder, hreach, hfinish⟩

theorem flat_of_restore (h : s.restore = .ok n) {c : Cluster α} (hc : c ∈ n.clusters) :
    c.region.Flat n.material.space := by
  obtain ⟨-, seeds, hseeds, hclusters, -⟩ := exists_seeds h
  have hmem : c.seed ∈ seeds := by
    rw [← (Population.numbering_perm seeds).mem_iff, ← hclusters]
    exact List.mem_map_of_mem (Array.mem_toList_iff.mpr hc)
  have hok : Except.ok c.seed ∈ s.ordered.map (·.seed n.material.space.dim) :=
    hseeds ▸ List.mem_map_of_mem hmem
  obtain ⟨r, -, hr⟩ := List.mem_map.mp hok
  exact ClusterRecord.flat_of_seed hr

end NetworkSnapshot

/-! ### The generator -/

/-- Clusters of generated networks are identified: their regions hold admissible points only, and the
    axes name all of these whose counts are words. -/
theorem Network.identified_of_ofParams [Analytic α] {params : NetworkParams α} {n : Network α}
    (h : Network.ofParams params = .ok n) (hcounts : Countable params.admits) {c : Cluster α}
    (hc : c ∈ n.clusters) : c.Identified n.material.space := by
  obtain ⟨hn, hchoice, p, G⟩ := generated_of_ofParams h
  have hne := hn.nonempty c hc
  have hadmits : ∀ x, c.region.contains x = true → params.admits x = true := fun x hx =>
    (Material.selects_of_chooseMaterial hchoice).mp (G.selects hc) x hx
  have hplace : ∀ x, c.region.contains x = true →
      n.material.space.toPoint (n.material.space.toComposition x) = .ok x := fun x hx =>
    Material.placed_of_chooseMaterial hchoice (hadmits x hx) (hcounts x (hadmits x hx))
  refine ⟨hne, Region.flat_of_within hne fun x hx => PhaseSpace.within_toPoint (hplace x hx), ?_⟩
  rw [(G.of_mem_clusters hc).2.1, Region.anchor_eq_representative]
  exact hplace _ (Region.contains_representative hne)

/-- What is known of the identity of clusters, by the way in which the network came about. Whatever a
    builder has taken, its clusters hold points, have compositions with places, and are identified where
    they stand for single compositions. A group passes `add` wherever the place of its composition may be,
    and is identified exactly when the region is flat and the place is its centre. Records have flat
    regions, and the generator makes identified clusters only. -/
theorem Network.identified_by_origin [Analytic α] :
    (∀ {params : NetworkParams α} {material : Material α} {b : Builder α} {n : Network α},
      b.Reachable params material → b.finish = .ok n → ∀ c ∈ n.clusters, ∃ x, n.Located c x) ∧
    (∀ {b : Builder α} {s : ClusterSeed α}, s.region.isUnit = false →
      (b.check s = .ok () ↔ (s.region.isEmptyFits = true ∧ s.region.isUnitFits = true) ∧
        s.region.isEmpty = false ∧ ∃ x, b.material.space.toPoint s.composition = .ok x)) ∧
    (∀ {s : NetworkSnapshot α} {n : Network α}, s.restore = .ok n → ∀ c ∈ n.clusters,
      ∃ x, n.Located c x ∧ (c.Identified n.material.space ↔ x = c.region.representative)) ∧
    (∀ {params : NetworkParams α} {n : Network α}, Network.ofParams params = .ok n →
      Countable params.admits → ∀ c ∈ n.clusters, c.Identified n.material.space) := by
  refine ⟨fun hb h c hc => exists_located hb h hc, fun {b s} hgroup => ?_, fun {s n} h c hc => ?_,
    fun h hcounts c hc => identified_of_ofParams h hcounts hc⟩
  · have hnever : ∀ {P : Prop}, s.region.isUnit = true → P := fun hunit => by
      rw [hgroup] at hunit
      cases hunit
    rw [Builder.check_eq_ok_iff]
    constructor
    · rintro ⟨hfits, hplaced, -⟩
      obtain ⟨x, hx, -⟩ := hplaced.located
      exact ⟨hfits, hplaced.nonempty, x, hx⟩
    · rintro ⟨hfits, hne, x, hx⟩
      exact ⟨hfits, ⟨hne, x, hx, hnever⟩, hnever⟩
  · obtain ⟨b, hb, hfinish⟩ := NetworkSnapshot.exists_builder h
    obtain ⟨x, hx⟩ := exists_located hb hfinish hc
    exact ⟨x, hx, hx.identified_iff.trans (and_iff_right (NetworkSnapshot.flat_of_restore h hc))⟩

/-! ### A group away from its composition -/

namespace Astray
open scoped Pair

/-- The cluster of two and three atoms is given the composition of a single one. -/
def builder : Builder ℚ :=
  ((Builder.withMaterial GroupFirst.params (Xenon.material GroupFirst.params)).addAll
    [GroupFirst.seed 2 3 1]).1

theorem reachable : builder.Reachable GroupFirst.params (Xenon.material GroupFirst.params) :=
  Builder.Reachable.start.addAll

/-- The snapshot of one group of two to three atoms. -/
def snapshot : NetworkSnapshot ℚ where
  params := GroupFirst.params
  dof := 2
  clusters := [⟨0, .grouped, [2], [4], .single .xenon 1, 14, none, 0, 1⟩]

/-- The group is the only cluster. -/
def OnlyGroup (n : Network ℚ) : Prop :=
  n.material.space = Xenon.space ∧ n.clusters.size = 1 ∧ ∀ c ∈ n.clusters.toList,
    c.region = Region.ofInclusive [(2, 3)] ∧ c.composition = .single .xenon 1

instance : DecidablePred OnlyGroup := fun n => by unfold OnlyGroup; infer_instance

theorem finish_ok : ∃ n, builder.finish = .ok n ∧ OnlyGroup n := exists_eq_ok (by decide +kernel)

theorem ordered_snapshot : snapshot.ordered = snapshot.clusters :=
  List.mergeSort_of_pairwise (by decide)

theorem restore_ok : ∃ n, snapshot.restore = .ok n ∧ OnlyGroup n := by
  unfold NetworkSnapshot.restore
  rw [ordered_snapshot]
  exact exists_eq_ok (by decide +kernel)

theorem OnlyGroup.exists_mem {n : Network ℚ} (hn : OnlyGroup n) : ∃ c, c ∈ n.clusters := by
  have hpos : 0 < n.clusters.size := by
    rw [hn.2.1]
    exact Nat.one_pos
  exact ⟨n.clusters[0], Array.getElem_mem _⟩

theorem OnlyGroup.astray {n : Network ℚ} (hn : OnlyGroup n) {c : Cluster ℚ} (hc : c ∈ n.clusters)
    {x : Point} (h : n.Located c x) : x ≠ c.region.representative ∧ n.findOwner? c.composition ≠ some c := by
  obtain ⟨hspace, -, hall⟩ := hn
  obtain ⟨hregion, hcomp⟩ := hall c (Array.mem_toList_iff.mpr hc)
  have hplace := h.place
  rw [hspace, hcomp] at hplace
  obtain rfl : Xenon.point 1 = x := Except.ok.inj hplace
  refine ⟨?_, fun howner => ?_⟩
  · rw [hregion]
    decide
  · rw [h.owner_iff, hregion] at howner
    revert howner
    decide

/-- Added by hand or restored from a record, the group passes every check. It is not identified, and its
    composition does not lead back to it. All clusters of a generated network are identified. -/
theorem not_identified :
    (Builder.withMaterial GroupFirst.params (Xenon.material GroupFirst.params)).check
      (GroupFirst.seed 2 3 1) = .ok () ∧
    (∃ n, builder.finish = .ok n ∧ ∃ c ∈ n.clusters,
      ¬c.Identified n.material.space ∧ n.findOwner? c.composition ≠ some c) ∧
    (∃ n, snapshot.restore = .ok n ∧ ∃ c ∈ n.clusters,
      ¬c.Identified n.material.space ∧ n.findOwner? c.composition ≠ some c) ∧
    (∃ n, Network.ofParams Bins.params = .ok n ∧ n.clusters.size = 5 ∧
      ∀ c ∈ n.clusters, c.Identified n.material.space) := by
  obtain ⟨hlocated, hchecks, hrestored, hgenerated⟩ := Network.identified_by_origin (α := ℚ)
  refine ⟨(hchecks (by decide)).mpr ⟨by decide, by decide, Xenon.point 1, by decide⟩, ?_, ?_, ?_⟩
  · obtain ⟨n, h, hn⟩ := finish_ok
    obtain ⟨c, hc⟩ := hn.exists_mem
    obtain ⟨x, hx⟩ := hlocated reachable h c hc
    obtain ⟨hcentre, howner⟩ := hn.astray hc hx
    exact ⟨n, h, c, hc, fun hid => hcentre (hx.identified_iff.mp hid).2, howner⟩
  · obtain ⟨n, h, hn⟩ := restore_ok
    obtain ⟨c, hc⟩ := hn.exists_mem
    obtain ⟨x, hx, hiff⟩ := hrestored h c hc
    obtain ⟨hcentre, howner⟩ := hn.astray hc hx
    exact ⟨n, h, c, hc, fun hid => hcentre (hiff.mp hid), howner⟩
  · obtain ⟨n, h, hsize, -⟩ := Bins.ofParams_ok
    exact ⟨n, h, hsize, hgenerated h Bins.countable_admits⟩

end Astray
end ClusterDynamics
