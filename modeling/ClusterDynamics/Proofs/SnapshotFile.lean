import ClusterDynamics.Proofs.FixedPoint
import ClusterDynamics.Proofs.Places
import ClusterDynamics.Proofs.RoundTrip

/-! Files of snapshots. The numbers of a network whose seeds come from its material are machine words,
    and its physics is finite apart from helium that no table lists. So the file of its snapshot is read
    back as the snapshot, unless such a cluster is among the clusters: then the file cannot be read. -/

namespace ClusterDynamics

variable {α : Type}

/-! ### Corners -/

/-- Up to their signs, the coordinates are counts. -/
def Point.Counts (p : Point) : Prop := ∀ a, (p.get a).natAbs < 4294967296

namespace PhaseSpace

variable {space : PhaseSpace} {s : Species} {a : Nat} {sign : Int}

theorem natAbs_sign_of_locateFrom : ∀ {l : List Axis} {i : Nat}, locateFrom s i l = some (a, sign) →
    sign.natAbs = 1
  | [], _, h => by simp [locateFrom] at h
  | x :: rest, i, h => by
    rw [locateFrom] at h
    cases hx : x.sign? s with
    | none =>
      rw [hx] at h
      exact natAbs_sign_of_locateFrom h
    | some t =>
      rw [hx] at h
      cases h
      unfold Axis.sign? at hx
      split_ifs at hx <;> cases hx <;> rfl

theorem counts_toPoint {c : Composition} {p : Point} (h : space.toPoint c = .ok p) : p.Counts := by
  refine toPoint_induction (P := Point.Counts) (fun a => by simp) (fun q e i sign hlocate hq a => ?_) h
  rw [get_setIfInBounds]
  split_ifs
  · rw [Int.natAbs_mul, natAbs_sign_of_locateFrom hlocate, one_mul, Int.natAbs_natCast]
    exact e.2.toNat_lt
  · exact hq a

end PhaseSpace

namespace Region

variable {r : Region}

/-- No axis of a region with points settles the question of emptiness, so all widths are looked at. -/
theorem fits_of_settledFits (hne : r.isEmpty = false) : ∀ {l : List Direction},
    r.settledFits (fun a => decide (r.width a ≤ 0)) l = true → ∀ a ∈ l, fits (r.width a) = true
  | [], _, a, ha => by cases ha
  | b :: rest, h, a, ha => by
    have hwide : ¬ r.width b ≤ 0 := by
      have hlt := isEmpty_eq_false.mp hne b
      rw [width]
      omega
    simp only [settledFits, hwide, decide_false, Bool.false_or, Bool.and_eq_true] at h
    rcases List.mem_cons.mp ha with rfl | ha
    · exact h.1
    · exact fits_of_settledFits hne h.2 a ha

/-- Width and middle of a region bound its corners. -/
theorem fits_of_middle {a : Direction} (hne : r.isEmpty = false) (hwidth : fits (r.width a) = true)
    (hmiddle : fits (r.lo.get a + r.hi.get a) = true) :
    fits (r.lo.get a) = true ∧ fits (r.hi.get a) = true := by
  have hlt := isEmpty_eq_false.mp hne a
  rw [fits_iff, width] at hwidth
  rw [fits_iff] at hmiddle ⊢
  rw [fits_iff]
  omega

end Region

/-- The corners of a region from which a material makes a seed are machine words, once the seed is
    accepted. -/
theorem Material.fits_of_seedFor [Scalar α] {m : Material α} {r : Region} {s : ClusterSeed α}
    (h : m.seedFor r = .ok s) (hs : s.Placed m.space) (hfits : r.isEmptyFits = true) (a : Direction) :
    fits (r.lo.get a) = true ∧ fits (r.hi.get a) = true := by
  obtain ⟨_, hanchor, -⟩ := bind_eq_ok.mp h
  have hanchor : r.anchorFits = true := require_eq_ok.mp hanchor
  obtain rfl : s.region = r := congrArg ClusterSeed.region (seedFor_eq_ok h)
  by_cases hunit : s.region.isUnit = true
  · -- A single point carries the composition's own coordinates.
    obtain ⟨x, hx, hlo⟩ := hs.located
    have hbound := PhaseSpace.counts_toPoint hx a
    have hwidth := Region.isUnit_iff.mp hunit a
    rw [hlo hunit] at hbound
    rw [Region.width] at hwidth
    rw [fits_iff, fits_iff]
    omega
  · rw [Region.anchorFits, Bool.and_eq_true, Bool.or_eq_true, or_iff_right hunit] at hanchor
    have hmiddle := List.all_eq_true.mp hanchor.2 a (mem_directions a)
    have hwidth := Region.fits_of_settledFits hs.nonempty hfits a (mem_directions a)
    exact Region.fits_of_middle hs.nonempty hwidth hmiddle

/-! ### Builders that take the material's own seeds -/

namespace Builder

/-- The builders that an empty one becomes by taking seeds that the material makes of regions, whichever
    they are, or all seeds of the generator. -/
inductive Derived [Scalar α] (params : NetworkParams α) (material : Material α) : Builder α → Prop
  | start : Derived params material (withMaterial params material)
  | add {b b' : Builder α} {r : Region} {s : ClusterSeed α} (hb : Derived params material b)
      (hs : material.seedFor r = .ok s) (h : b.add s = .ok b') : Derived params material b'
  | generate {b : Builder α} (hb : Derived params material b) : Derived params material b.generate.1

variable [Scalar α] {params : NetworkParams α} {material : Material α} {b : Builder α}

theorem Derived.reachable (hb : b.Derived params material) : b.Reachable params material := by
  induction hb with
  | start => exact .start
  | add _ _ h ih => exact ih.add h
  | generate _ ih => exact ih.generate

omit [Scalar α] in
theorem mem_addAll {seeds : List (ClusterSeed α)} :
    ∀ s ∈ (b.addAll seeds).1.seeds, s ∈ b.seeds ∨ s ∈ seeds := by
  refine addAll_preserves (P := fun b' => ∀ s ∈ b'.seeds, s ∈ b.seeds ∨ s ∈ seeds) ?_ fun s hs => .inl hs
  intro b' b'' t ht hb' h
  obtain ⟨rfl, -⟩ := add_eq_ok h
  intro s hs
  rcases Array.mem_push.mp hs with hs | rfl
  · exact hb' s hs
  · exact .inr ht

/-- Every seed is the one that the material makes of its region. -/
theorem Derived.seedFor (hb : b.Derived params material) :
    ∀ s ∈ b.seeds, material.seedFor s.region = .ok s := by
  have hown : ∀ {r : Region} {s : ClusterSeed α}, material.seedFor r = .ok s →
      material.seedFor s.region = .ok s := by
    intro r s hs
    obtain rfl : s.region = r := congrArg ClusterSeed.region (Material.seedFor_eq_ok hs)
    exact hs
  induction hb with
  | start => simp [withMaterial]
  | add _ hs h ih =>
    obtain ⟨rfl, -⟩ := add_eq_ok h
    intro t ht
    rcases Array.mem_push.mp ht with ht | rfl
    · exact ih t ht
    · exact hown hs
  | @generate b hb ih =>
    intro t ht
    rcases generate_fst b with h | ⟨seeds, p, hgenerate, h⟩
    · exact ih t (h ▸ ht)
    · rw [h] at ht
      rcases mem_addAll t ht with ht | ht
      · exact ih t ht
      · rw [hb.reachable.holds.material_eq] at hgenerate
        have hmem : (Except.ok t : Except (NetworkFault α) _) ∈ seeds.map Except.ok := List.mem_map_of_mem ht
        rw [← (Material.generate_eq_ok hgenerate).2] at hmem
        obtain ⟨r, -, hr⟩ := List.mem_map.mp hmem
        exact hown hr

end Builder

/-! ### Records -/

theorem NetworkParams.isFinite_of_validate [Scalar α] {p : NetworkParams α} (h : p.validate = .ok ()) :
    Scalar.isFinite p.sinkStrength = true ∧
      ∀ g, p.grouping = some g → Scalar.isFinite g.growth = true := by
  have hfinite : ∀ {x : α}, ¬ (!Scalar.isFinite x || decide (x < 0)) = true → Scalar.isFinite x = true := by
    intro x hx
    rw [Bool.or_eq_true, not_or] at hx
    simpa using hx.1
  unfold validate at h
  obtain ⟨hsink, h⟩ := check_bind_eq_ok.mp h
  refine ⟨hfinite hsink, ?_⟩
  intro g hg
  rw [hg] at h
  obtain ⟨-, h⟩ := check_bind_eq_ok.mp h
  obtain ⟨-, h⟩ := check_bind_eq_ok.mp h
  obtain ⟨-, h⟩ := check_bind_eq_ok.mp h
  split_ifs at h with hgrowth
  exact hfinite hgrowth

theorem ClusterRecord.words_ofCluster [Scalar α] {dim : Nat} {c : Cluster α} (hid : c.id < 18446744073709551616)
    (hcorners : ∀ a, fits (c.region.lo.get a) = true ∧ fits (c.region.hi.get a) = true) :
    (ofCluster dim c).Words := by
  have hpoint : ∀ p : Point, (∀ a, fits (p.get a) = true) → ∀ i ∈ p.toList.take dim, fits i = true := by
    intro p hp i hi
    obtain ⟨k, hk, rfl⟩ := List.mem_iff_getElem.mp (List.mem_of_mem_take hi)
    exact hp ⟨k, by simpa using hk⟩
  refine ⟨hid, hpoint _ fun a => (hcorners a).1, hpoint _ fun a => (hcorners a).2, ?_⟩
  intro e he
  exact (Option.filter_eq_some_iff.mp he).2

/-- The record of a cluster that its material has made is finite unless its helium is in no table. -/
theorem ClusterRecord.finite_ofCluster_iff [Analytic α] [LawfulRounding α] {params : NetworkParams α}
    {m : Material α} (hchoice : params.chooseMaterial = .ok m) {dim : Nat} {c : Cluster α}
    (hc : m.seedFor c.region = .ok c.seed) :
    (ofCluster dim c).Finite ↔ params.material.beyondTable c.composition = false := by
  have hseed := Material.seedFor_eq_ok hc
  have hcomposition : c.composition = m.space.toComposition c.region.anchor :=
    congrArg ClusterSeed.composition hseed
  have hproperties : c.properties = m.seedProperties c.region c.composition :=
    hcomposition ▸ congrArg ClusterSeed.properties hseed
  obtain ⟨hdiffusion, hradius, henergy⟩ := NetworkParams.isFinite_of_chooseMaterial hchoice c.composition
  have hrecord : c.properties.formationEnergy = m.formationEnergy c.composition ∧
      c.properties.reactionRadius = m.reactionRadius c.composition ∧
      Scalar.isFinite c.properties.diffusionFactor = true := by
    rw [hproperties, Material.seedProperties]
    split_ifs
    · exact ⟨rfl, rfl, hdiffusion⟩
    · exact ⟨rfl, rfl, LawfulRounding.zero.finite⟩
  constructor
  · intro h
    have hformation := h.formation
    rw [ofCluster, hrecord.1, henergy] at hformation
    simpa using hformation
  · intro h
    refine ⟨?_, hrecord.2.2, ?_⟩
    · rw [ofCluster, hrecord.1, henergy, h]
      rfl
    · rw [ofCluster, hrecord.2.1]
      exact hradius

/-! ### Networks -/

namespace Network

/-- What the clusters of a network have from the seeds that it is finished from. -/
theorem seedFor_of_finish [Scalar α] {params : NetworkParams α} {m : Material α} {b : Builder α}
    {n : Network α} (hb : b.Derived params m) (hfinish : b.finish = .ok n) {c : Cluster α} (hc : c ∈ n.clusters) :
    m.seedFor c.region = .ok c.seed ∧ c.id < n.dof ∧
      ∀ a, fits (c.region.lo.get a) = true ∧ fits (c.region.hi.get a) = true := by
  have hclusters := Builder.clusters_of_finish hfinish
  rw [hclusters] at hc
  have hid : c.id < b.seeds.toList.length := by
    have hmem : c.id ∈ (Population.clustersOf b.seeds.toList).map (·.id) :=
      List.mem_map_of_mem (List.mem_toArray.mp hc)
    rw [Population.map_id_clustersOf] at hmem
    exact List.mem_range.mp hmem
  have hdof : b.seeds.toList.length ≤ n.dof := by
    obtain ⟨p, hp, rfl⟩ := Builder.finish_eq_ok hfinish
    obtain ⟨tree, -, rfl⟩ := Population.ofSeeds_eq_ok hp
    exact (Population.dofOf_eq b.seeds.toList) ▸ Nat.le_add_right _ _
  obtain ⟨s, hs, i, free, rfl⟩ := Population.seed_of_mem hc
  have hs : s ∈ b.seeds := Array.mem_toList_iff.mp hs
  have hmade := hb.seedFor s hs
  refine ⟨hmade, hid.trans_le hdof, ?_⟩
  -- Only an accepted seed has been found to have points, and a unit region to sit where it belongs.
  have haccepted := hb.reachable.accepted
  have hplaced := haccepted.placed s hs
  rw [hb.reachable.holds.material_eq] at hplaced
  exact Material.fits_of_seedFor hmade hplaced (haccepted.fits s hs).1

variable [Analytic α] [LawfulRounding α] [ScalarText α] [LawfulText α]

/-- The file of a network's snapshot gives the snapshot back, unless the network has helium beyond the
    table: no snapshot is read from that file. The slots are counted in machine words. -/
theorem reread_snapshot {params : NetworkParams α} {m : Material α} {b : Builder α} {n : Network α}
    (hchoice : params.chooseMaterial = .ok m) (hb : b.Derived params m) (hfinish : b.finish = .ok n)
    (hdof : n.dof < 18446744073709551616) :
    NetworkSnapshot.ofText? n.snapshot.fileText =
      if n.clusters.any fun c => params.material.beyondTable c.composition then none else some n.snapshot := by
  obtain ⟨-, hparams, -⟩ := Network.built_of_finish hb.reachable hfinish
  have hvalid := NetworkParams.isFinite_of_validate (NetworkParams.chooseMaterial_eq_ok hchoice).1
  rw [← hparams] at hvalid
  split_ifs with htable
  · obtain ⟨c, hc, hbeyond⟩ := Array.any_eq_true'.mp htable
    have hrecord : ClusterRecord.ofCluster n.material.space.dim c ∈ n.snapshot.clusters :=
      List.mem_map_of_mem (Array.mem_toList_iff.mpr hc)
    refine NetworkSnapshot.ofText?_fileText_eq_none hrecord ?_
    rw [ClusterRecord.finite_ofCluster_iff hchoice (seedFor_of_finish hb hfinish hc).1, hbeyond]
    simp
  · refine NetworkSnapshot.ofText?_fileText ⟨?_, ?_, hdof, ?_⟩ ?_
    · exact hvalid.1
    · exact hvalid.2
    · intro r hr
      obtain ⟨c, hc, rfl⟩ := List.mem_map.mp hr
      obtain ⟨-, hid, hcorners⟩ := seedFor_of_finish hb hfinish (Array.mem_toList_iff.mp hc)
      exact ClusterRecord.words_ofCluster (hid.trans hdof) hcorners
    · intro r hr
      obtain ⟨c, hc, rfl⟩ := List.mem_map.mp hr
      have hc := Array.mem_toList_iff.mp hc
      rw [ClusterRecord.finite_ofCluster_iff hchoice (seedFor_of_finish hb hfinish hc).1]
      by_contra hbeyond
      exact htable (Array.any_eq_true'.mpr ⟨c, hc, by simpa using hbeyond⟩)

end Network

/-! ### The end of the table -/

namespace PureHelium

/-- The standard parameters, whose largest helium cluster is the last one of the table. -/
def params : NetworkParams FixedPoint := .standard

/-- A network of one cluster of helium, made from the region of its size. -/
def network (size : Int) : Except (NetworkFault FixedPoint) (Network FixedPoint) := do
  let m := Tungsten.material params
  let s ← m.seedFor (Region.ofInclusive [(size, size)])
  let b ← (Builder.withMaterial params m).add s
  b.finish

theorem exists_derived {size : Int} {n : Network FixedPoint} (h : network size = .ok n) :
    ∃ b : Builder FixedPoint, b.Derived params (Tungsten.material params) ∧ b.finish = .ok n := by
  obtain ⟨s, hs, h⟩ := bind_eq_ok.mp h
  obtain ⟨b, hb, h⟩ := bind_eq_ok.mp h
  exact ⟨b, .add .start hs hb, h⟩

theorem eight_ok : ∃ n, network 8 = .ok n ∧ n.dof = 1 ∧
    (n.clusters.any fun c => params.material.beyondTable c.composition) = false :=
  exists_eq_ok (by decide +kernel)

theorem nine_ok : ∃ n, network 9 = .ok n ∧ n.dof = 1 ∧
    (n.clusters.any fun c => params.material.beyondTable c.composition) = true :=
  exists_eq_ok (by decide +kernel)

/-- The file with eight helium atoms is read back, the one with nine is not. -/
theorem reread_eight_nine :
    (∃ n, network 8 = .ok n ∧ NetworkSnapshot.ofText? n.snapshot.fileText = some n.snapshot) ∧
      ∃ n, network 9 = .ok n ∧
        (NetworkSnapshot.ofText? n.snapshot.fileText : Option (NetworkSnapshot FixedPoint)) = none := by
  constructor
  · obtain ⟨n, hn, hdof, htable⟩ := eight_ok
    obtain ⟨b, hb, hfinish⟩ := exists_derived hn
    refine ⟨n, hn, ?_⟩
    rw [Network.reread_snapshot (by rfl) hb hfinish (by rw [hdof]; decide), htable]
    rfl
  · obtain ⟨n, hn, hdof, htable⟩ := nine_ok
    obtain ⟨b, hb, hfinish⟩ := exists_derived hn
    refine ⟨n, hn, ?_⟩
    rw [Network.reread_snapshot (by rfl) hb hfinish (by rw [hdof]; decide), htable]
    rfl

end PureHelium
end ClusterDynamics
