import ClusterDynamics.Proofs.Bisection
import ClusterDynamics.Proofs.BinWidths
import ClusterDynamics.Proofs.SeedPlace
import ClusterDynamics.Proofs.SmallRegions

/-! Machine words in the generator. The maxima of the accepted parameters are 32-bit words and a bubble holds
    at most four helium atoms per vacancy and five more, so corners, widths and centres of whatever the
    generator looks at are far from the largest word. What it multiplies and adds up is bounded by the volume of
    the bounds, and a total by the size of the largest bubble. Neither of the two is checked before the
    construction begins: they are conditions on the maxima, without which words do not suffice. -/

namespace ClusterDynamics

variable {α : Type}

theorem fits_of_le {k n : Int} (hk : 0 ≤ k) (hkn : k ≤ n) (hn : fits n = true) : fits k = true := by
  rw [fits_iff] at hn ⊢
  omega

/-! ### Regions that are looked at -/

/-- The generator looks at the bounds and at the children of every region that it cuts. -/
inductive PartitionRule.Visited (rule : PartitionRule) : Region → Prop
  | bounds : rule.Visited rule.bounds
  | child {r c : Region} : rule.Visited r → rule.intersects r = true →
      1 < (r.bisect (rule.refine r)).length → c ∈ r.bisect (rule.refine r) → rule.Visited c

section
variable {rule : PartitionRule} {r : Region}

theorem PartitionRule.Visited.within (h : rule.Visited r) : r.Within rule.bounds := by
  induction h with
  | bounds => exact .refl _
  | child _ _ _ hc ih => exact (Region.within_of_mem_bisect hc).trans ih

theorem PartitionRule.Visited.isEmpty (h : rule.Visited r) (hbounds : rule.bounds.isEmpty = false) :
    r.isEmpty = false := by
  induction h with
  | bounds => exact hbounds
  | child _ _ _ hc ih => exact Region.isEmpty_of_mem_bisect ih hc

namespace Partition

/-- The cells of a partition are among the regions that are looked at. -/
theorem visited_of_mem_cells (h : rule.Visited r) {c : Cell} (hc : c ∈ (ofRegion rule r).cells) :
    rule.Visited c.region := by
  fun_induction ofRegion rule r with
  | case1 r hmeet =>
    rw [List.mem_singleton.mp hc]
    exact h
  | case2 r hmeet hcut ih =>
    obtain ⟨q, hq, hc⟩ := List.mem_flatMap.mp hc
    obtain ⟨d, -, rfl⟩ := List.mem_map.mp hq
    exact ih d (.child h (by simpa using hmeet) hcut d.property) hc
  | case3 r hmeet hcut =>
    rw [List.mem_singleton.mp hc]
    exact h

/-- The recursion finds the partition when the counts and volumes of what it looks at are words. -/
theorem ofRegion?_eq (hcounts : ∀ r, rule.Visited r → rule.countFits r = true)
    (hvolumes : ∀ r, rule.Visited r → rule.intersects r = true → r.volumeFits = true) (h : rule.Visited r) :
    ofRegion? rule r = some (ofRegion rule r) := by
  fun_induction ofRegion? rule r with
  | case1 r hfit =>
    rw [hcounts r h] at hfit
    cases hfit
  | case2 r hfit hmeet => rw [ofRegion, if_pos hmeet]
  | case3 r hfit hmeet hvolume =>
    rw [hvolumes r h (by simpa using hmeet)] at hvolume
    cases hvolume
  | case4 r hfit hmeet hvolume hcut ih =>
    rw [ofRegion, if_neg hmeet, dif_pos hcut]
    refine Option.map_eq_some_iff.mpr ⟨_, mapM_eq_some.mpr ?_, rfl⟩
    rw [List.map_map]
    exact List.map_congr_left fun c _ => ih c (.child h (by simpa using hmeet) hcut c.property)
  | case5 r hfit hmeet hvolume hcut => rw [ofRegion, if_neg hmeet, dif_neg hcut]

end Partition
end

/-! ### What the metals need of their maxima -/

namespace DefectSpace

variable {d : DefectSpace}

/-- The box around all admissible compositions has fewer than `2 ^ 63` points. -/
def boxFits (d : DefectSpace) : Bool :=
  decide ((max (d.heliumCap d.maxVacancy) d.maxHelium + 1) * (d.maxVacancy + d.maxInterstitial + 1) <
    9223372036854775808)

/-- The largest bubble has fewer than `2 ^ 32` defects. -/
def bubblesFit (d : DefectSpace) : Bool := decide (d.heliumCap d.maxVacancy + d.maxVacancy < 4294967296)

theorem volume_bounds (hh : 0 ≤ d.maxHelium) (hi : 0 ≤ d.maxInterstitial) (hv : 0 ≤ d.maxVacancy) :
    d.bounds.volume =
      (max (d.heliumCap d.maxVacancy) d.maxHelium + 1) * (d.maxVacancy + d.maxInterstitial + 1) := by
  have hhelium : d.bounds.extent heliumAxis = max (d.heliumCap d.maxVacancy) d.maxHelium + 1 := by
    show max (max (d.heliumCap d.maxVacancy) d.maxHelium + 1 - 0) 0 = _
    omega
  have hdefects : d.bounds.extent defectAxis = d.maxVacancy + d.maxInterstitial + 1 := by
    show max (d.maxVacancy + 1 - -d.maxInterstitial) 0 = _
    omega
  have hflat : d.bounds.extent Direction.third = 1 ∧ d.bounds.extent Direction.fourth = 1 := ⟨rfl, rfl⟩
  rw [Region.volume, show Direction.first = heliumAxis from rfl, show Direction.second = defectAxis from rfl,
    hhelium, hdefects, hflat.1, hflat.2, Int.mul_one, Int.mul_one]

theorem countAdmissible_mem (hi : 0 ≤ d.maxInterstitial) (hv : 0 ≤ d.maxVacancy) (r : Region) :
    0 ≤ d.countAdmissible r ∧ d.countAdmissible r ≤ r.volume := by
  rw [← card_isAdmissible hi hv, ← Region.card_lattice]
  exact ⟨Int.natCast_nonneg _, Int.ofNat_le.mpr (Finset.card_filter_le _ _)⟩

theorem natAbs_get_point_lt {h x : Int} {n : Nat} (hh : h.natAbs < n) (hx : x.natAbs < n) (a : Direction) :
    ((point h x).get a).natAbs < n := by
  match a with
  | 0 => exact hh
  | 1 => exact hx
  | 2 | 3 => exact Nat.zero_lt_of_lt hh

theorem total_toComposition {h x : Int} (hh : 0 ≤ h) (hfit : h.natAbs < 4294967296) (hxfit : x.natAbs < 4294967296) :
    (space.toComposition (point h x)).total = h.natAbs + x.natAbs := by
  have hhelium := UInt32.toNat_ofNat_of_lt' hfit
  have hdefects := UInt32.toNat_ofNat_of_lt' hxfit
  have hzero : (0 : UInt32).toNat = 0 := rfl
  rw [toComposition_point hh]
  split_ifs <;>
    simp only [Composition.total, Composition.set, Composition.single, Composition.empty, hhelium, hdefects, hzero] <;>
    omega

end DefectSpace

/-- The space of defects of the metals. -/
def NetworkParams.defects? (p : NetworkParams α) : Option DefectSpace :=
  match p.material with
  | .tungsten => some (Tungsten.defects p)
  | .iron => some (Iron.defects p)
  | .xenon => none

/-- The box around the defects of a metal has fewer than `2 ^ 63` points; a gas has no such box. -/
def NetworkParams.boxFits (p : NetworkParams α) : Bool := p.defects?.all DefectSpace.boxFits

/-- The largest bubble of a metal has fewer than `2 ^ 32` defects; a gas has no bubbles. -/
def NetworkParams.bubblesFit (p : NetworkParams α) : Bool := p.defects?.all DefectSpace.bubblesFit

/-- The bounds of the configured material are computed with words. -/
def NetworkParams.boundsFit (p : NetworkParams α) : Bool :=
  match p.defects? with
  | some d => d.boundsFit
  | none => Region.ofInclusiveFits [(1, p.maxXenon.toNat)]

/-! ### Small bounds -/

/-- The bounds are small, and a region whose volume is a word is counted with words. -/
structure Material.Confined (m : Material α) : Prop where
  compact : m.rule.bounds.compact = true
  isEmpty : m.rule.bounds.isEmpty = false
  countFits : ∀ r, r.compact = true → fits r.volume = true → m.rule.countFits r = true

/-- Helium is limited by `4 n + 5` at most, and the totals of both kinds are those of the composition. -/
structure Material.IsSizedMetal [Analytic α] (p : NetworkParams α) (m : Material α) (d : DefectSpace) : Prop
    extends m.IsMetal p d where
  intercept_le : d.intercept ≤ 5
  emissionFits_eq : ∀ c, m.emissionFits c = c.totalFits
  motionFits_of_total : ∀ c : Composition, c.totalFits = true → m.motionFits c = true

section
variable [Analytic α] {p : NetworkParams α} {m : Material α} {d : DefectSpace}

theorem Tungsten.isSizedMetal (p : NetworkParams α) : (Tungsten.material p).IsSizedMetal p (Tungsten.defects p) where
  toIsMetal := Tungsten.isMetal p
  intercept_le := le_refl (5 : Int)
  emissionFits_eq _ := rfl
  motionFits_of_total _ h := h

theorem Iron.isSizedMetal (p : NetworkParams α) : (Iron.material p).IsSizedMetal p (Iron.defects p) where
  toIsMetal := Iron.isMetal p
  intercept_le := Int.le_of_lt (by decide : (0 : Int) < 5)
  emissionFits_eq _ := rfl
  motionFits_of_total _ _ := rfl

namespace Material.IsSizedMetal

variable (hm : m.IsSizedMetal p d)
include hm

theorem maxima_lt : d.maxHelium < 4294967296 ∧ d.maxVacancy < 4294967296 ∧ d.maxInterstitial < 4294967296 := by
  rw [hm.maxHelium_eq, hm.maxVacancy_eq, hm.maxInterstitial_eq]
  have hhelium := p.maxHelium.toNat_lt
  have hvacancy := p.maxVacancy.toNat_lt
  have hinterstitial := p.maxInterstitial.toNat_lt
  omega

/-- Up to the most vacancies, the helium limit is far from the largest word. -/
theorem heliumCap_mem {x : Int} (hpos : 0 ≤ x) (hx : x ≤ d.maxVacancy) :
    0 ≤ d.heliumCap x ∧ d.heliumCap x ≤ 17179869189 ∧ d.heliumCapFits x = true := by
  obtain ⟨hh, hv, -⟩ := hm.maxima_lt
  have hslope := hm.slope_eq
  have hintercept := hm.intercept_nonneg
  have hintercept' := hm.intercept_le
  have hnonneg := hm.nonneg.1
  simp only [DefectSpace.heliumCap, DefectSpace.heliumCapFits, hslope, Bool.or_eq_true, Bool.and_eq_true,
    decide_eq_true_eq, fits_iff]
  split_ifs <;> omega

theorem boundsFit : d.boundsFit = true := by
  obtain ⟨hh, hv, -⟩ := hm.maxima_lt
  obtain ⟨hnonneg, -, hv0, -⟩ := hm.nonneg
  obtain ⟨-, hcap, hfits⟩ := hm.heliumCap_mem hv0 (le_refl _)
  simp only [DefectSpace.boundsFit, hfits, Bool.true_and, Region.ofInclusiveFits, maxAxes, List.take_succ_cons,
    List.take_nil, List.all_cons, List.all_nil, Bool.and_true, Bool.and_eq_true, fits_iff]
  omega

theorem confined : m.Confined := by
  obtain ⟨hh, hv, hi⟩ := hm.maxima_lt
  obtain ⟨hh0, hi0, hv0, -⟩ := hm.nonneg
  obtain ⟨hcap0, hcap, -⟩ := hm.heliumCap_mem hv0 (le_refl _)
  have hbounds : m.rule.bounds = Region.ofInclusive
      [(0, max (d.heliumCap d.maxVacancy) d.maxHelium), (-d.maxInterstitial, d.maxVacancy)] := by
    rw [hm.rule_eq]
    rfl
  obtain ⟨hcompact, hne⟩ : m.rule.bounds.compact = true ∧ m.rule.bounds.isEmpty = false := by
    rw [hbounds]
    refine Region.compact_ofInclusive ?_
    simp only [List.mem_cons, List.not_mem_nil, or_false, forall_eq_or_imp, forall_eq]
    omega
  refine ⟨hcompact, hne, fun r hr hvolume => ?_⟩
  obtain ⟨hcount0, hcount⟩ := DefectSpace.countAdmissible_mem hi0 hv0 r
  have hcolumns : ((d.columns r).all fun x => decide (x ≤ 0) || d.heliumCapFits x) = true := by
    refine List.all_eq_true.mpr fun x hx => ?_
    rw [Bool.or_eq_true, decide_eq_true_eq]
    rcases le_or_gt x 0 with hneg | hpos
    · exact .inl hneg
    · exact .inr (hm.heliumCap_mem hpos.le (DefectSpace.mem_columns.mp hx).2.2).2.2
  rw [hm.rule_eq]
  show d.countFits r = true
  rw [DefectSpace.countFits, Region.isEmptyFits, Region.settledFits_of_compact hr, hcolumns,
    fits_of_le hcount0 hcount hvolume]
  simp

/-- The closed condition on the volume is the volume of the bounds. -/
theorem fits_volume_iff : fits m.rule.bounds.volume = true ↔ d.boxFits = true := by
  obtain ⟨hh, hi, hv, -⟩ := hm.nonneg
  have hvolume : m.rule.bounds.volume =
      (max (d.heliumCap d.maxVacancy) d.maxHelium + 1) * (d.maxVacancy + d.maxInterstitial + 1) := by
    rw [hm.rule_eq]
    exact DefectSpace.volume_bounds hh hi hv
  have hnonneg := m.rule.bounds.volume_nonneg
  rw [DefectSpace.boxFits, ← hvolume, decide_eq_true_eq, fits_iff]
  omega

end Material.IsSizedMetal

theorem Xenon.confined_material (p : NetworkParams α) (h : p.maxXenon ≠ 0) : (Xenon.material p).Confined ∧
    fits (Xenon.material p).rule.bounds.volume = true := by
  have hpos : 0 < p.maxXenon.toNat := Nat.pos_of_ne_zero fun hzero => h (UInt32.toNat_inj.mp hzero)
  have hmax := p.maxXenon.toNat_lt
  obtain ⟨hcompact, hne⟩ : (Xenon.material p).rule.bounds.compact = true ∧
      (Xenon.material p).rule.bounds.isEmpty = false := by
    refine Region.compact_ofInclusive ?_
    simp only [List.mem_cons, List.not_mem_nil, or_false, forall_eq]
    omega
  refine ⟨⟨hcompact, hne, fun r hr _ => Region.settledFits_of_compact hr _⟩, ?_⟩
  have hextent : (Xenon.material p).rule.bounds.extent Direction.first = p.maxXenon.toNat := by
    show max ((p.maxXenon.toNat : Int) + 1 - 1) 0 = _
    omega
  have hflat : (Xenon.material p).rule.bounds.extent Direction.second = 1 ∧
      (Xenon.material p).rule.bounds.extent Direction.third = 1 ∧
        (Xenon.material p).rule.bounds.extent Direction.fourth = 1 := ⟨rfl, rfl, rfl⟩
  rw [Region.volume, hextent, hflat.1, hflat.2.1, hflat.2.2, fits_iff]
  omega

end

/-! ### Words in the generator -/

/-- The bounds and whatever is cut out of them have corners, widths and centres far from the largest word. -/
structure Material.GeometryInWords (p : NetworkParams α) (m : Material α) : Prop where
  bounds : p.boundsFit = true
  corners : ∀ r, m.rule.Visited r → r.compact = true
  widths : ∀ r, m.rule.Visited r → r.widthsFit = true
  centers : ∀ r, m.rule.Visited r → r.representativeFits = true

/-- What is counted, multiplied and added up on the way to the clusters stays within words. -/
structure Material.StaysInWords (m : Material α) : Prop where
  counts : ∀ r, m.rule.Visited r → m.rule.countFits r = true
  volumes : ∀ r, m.rule.Visited r → m.rule.intersects r = true → r.volumeFits = true
  /-- The dropped compositions are added up region by region. -/
  dropped : ∀ l, l <+: (Partition.ofRegion m.rule m.rule.bounds).regions .dropped →
    fits (l.map Region.volume).sum = true
  /-- No coordinate is cut off when a point of a cluster becomes a composition. -/
  coordinates : ∀ r ∈ (Partition.ofRegion m.rule m.rule.bounds).regions .admitted, ∀ x,
    r.contains x = true → ∀ a : Direction, (x.get a).natAbs < 4294967296
  /-- Mobility and emission look at the totals of clusters. -/
  totals : ∀ r ∈ (Partition.ofRegion m.rule m.rule.bounds).regions .admitted, ∀ x, r.contains x = true →
    m.motionFits (m.space.toComposition x) = true ∧ m.emissionFits (m.space.toComposition x) = true

/-- Every admissible composition can be counted. -/
structure Material.Sized (m : Material α) (admits : Point → Bool) : Prop where
  coordinates : ∀ x, admits x = true → ∀ a : Direction, (x.get a).natAbs < 4294967296
  totals : ∀ x, admits x = true →
    m.motionFits (m.space.toComposition x) = true ∧ m.emissionFits (m.space.toComposition x) = true

namespace Material

variable {m : Material α}

theorem Confined.compact_of_visited (C : m.Confined) {r : Region} (hr : m.rule.Visited r) : r.compact = true :=
  Region.compact_of_within hr.within (hr.isEmpty C.isEmpty) C.compact

theorem Confined.geometry (C : m.Confined) {p : NetworkParams α} (hbounds : p.boundsFit = true) :
    m.GeometryInWords p where
  bounds := hbounds
  corners _ hr := C.compact_of_visited hr
  widths _ hr := Region.widthsFit_of_compact (C.compact_of_visited hr)
  centers _ hr := Region.representativeFits_of_compact (C.compact_of_visited hr)

/-- When the bounds have a word as their volume and every admissible composition can be counted, words suffice. -/
theorem Confined.staysInWords (C : m.Confined) {admits : Point → Bool} (hsized : m.Sized admits)
    (hvolume : fits m.rule.bounds.volume = true)
    (hadmits : ∀ r, m.rule.selects r = true ↔ ∀ x, r.contains x = true → admits x = true) :
    m.StaysInWords := by
  have hfits : ∀ r, m.rule.Visited r → fits r.volume = true := fun r hr =>
    fits_of_le r.volume_nonneg (Region.volume_le_of_within hr.within) hvolume
  have hadmitted : ∀ r ∈ (Partition.ofRegion m.rule m.rule.bounds).regions .admitted, ∀ x,
      r.contains x = true → admits x = true := fun r hr => by
    have S := (Partition.exhausts_ofRegion _ _).settled _ (Partition.mem_regions.mp hr)
    exact (hadmits r).mp ((S.admitted_iff fun h => nomatch h).mp rfl)
  refine ⟨fun r hr => ?_, fun r hr _ => ?_, fun l hl => ?_, fun r hr x hx => ?_, fun r hr x hx => ?_⟩
  · exact C.countFits r (C.compact_of_visited hr) (hfits r hr)
  · exact Region.volumeFits_of_compact (C.compact_of_visited hr) (hr.isEmpty C.isEmpty) (hfits r hr)
  · have hwithin : ∀ r ∈ l, r.Within m.rule.bounds := fun r hr =>
      (Partition.exhausts_ofRegion _ _).within _ (Partition.mem_regions.mp (hl.subset hr))
    have hapart : l.Pairwise Region.Apart :=
      ((Partition.tiles_ofRegion m.rule m.rule.bounds).regions .dropped).sublist hl.sublist
    have hnonneg : 0 ≤ (l.map Region.volume).sum := List.sum_nonneg fun n hn => by
      obtain ⟨r, -, rfl⟩ := List.mem_map.mp hn
      exact r.volume_nonneg
    exact fits_of_le hnonneg (Region.sum_volume_le hwithin hapart) hvolume
  · exact hsized.coordinates x (hadmitted r hr x hx)
  · exact hsized.totals x (hadmitted r hr x hx)

theorem StaysInWords.partition (W : m.StaysInWords) :
    Partition.ofRegion? m.rule m.rule.bounds = some (.ofRegion m.rule m.rule.bounds) :=
  Partition.ofRegion?_eq W.counts W.volumes .bounds

/-- Within words, the generator finds its seeds. -/
theorem StaysInWords.exists_generate [Scalar α] (W : m.StaysInWords) (C : m.Confined) (hspace : m.space.Valid) :
    ∃ seeds, m.generate = .ok (seeds, .ofRegion m.rule m.rule.bounds) := by
  let q := Partition.ofRegion m.rule m.rule.bounds
  have hpartition : m.partition = .ok q := by
    rw [Material.partition, W.partition]
  have hseeds : (q.regions .admitted).mapM m.seedFor = .ok ((q.regions .admitted).map m.seedOf) := by
    refine mapM_eq_ok.mpr ?_
    rw [List.map_map]
    refine List.map_congr_left fun r hr => ?_
    have hvisited : m.rule.Visited r :=
      Partition.visited_of_mem_cells .bounds (Partition.mem_regions.mp hr)
    have hmotion := (W.totals r hr r.anchor (Region.contains_anchor (hvisited.isEmpty C.isEmpty))).1
    rw [seedFor_eq hspace, seedFits, Region.anchorFits_of_compact (C.compact_of_visited hvisited), hmotion,
      Bool.or_true]
    rfl
  refine ⟨(q.regions .admitted).map m.seedOf, ?_⟩
  rw [generate, hpartition]
  show ((q.regions .admitted).mapM m.seedFor >>= fun seeds => pure (seeds, q)) = _
  rw [hseeds]
  rfl

/-! ### Which maxima leave the words -/

variable [Analytic α] {p : NetworkParams α} {d : DefectSpace}

namespace IsSizedMetal

variable (hm : m.IsSizedMetal p d)
include hm

/-- No admissible composition has more defects than the largest bubble or the largest pure cluster. -/
theorem sized (h : d.bubblesFit = true) : m.Sized d.isAdmissible := by
  obtain ⟨hh, hv, hi⟩ := hm.maxima_lt
  obtain ⟨-, hi0, hv0, hs⟩ := hm.nonneg
  have hlt : ∀ k x, d.isAdmissible (DefectSpace.point k x) = true →
      0 ≤ k ∧ k.natAbs + x.natAbs < 4294967296 := fun k x hx => by
    obtain ⟨hk, hx, hcolumn⟩ := (DefectSpace.isAdmissible_point hi0 hv0).mp hx
    rw [DefectSpace.bubblesFit, decide_eq_true_eq] at h
    rw [DefectSpace.column] at hcolumn
    split_ifs at hcolumn with hzero hneg
    · omega
    · dsimp only at hcolumn
      omega
    · have hcap := DefectSpace.heliumCap_le hs (by omega) hx.2
      dsimp only at hcolumn
      omega
  refine ⟨fun x hx => ?_, fun x hx => ?_⟩
  · have hpoint := DefectSpace.eq_point_of_isAdmissible hx
    rw [hpoint] at hx ⊢
    obtain ⟨hk, hsize⟩ := hlt _ _ hx
    exact DefectSpace.natAbs_get_point_lt (by omega) (by omega)
  · obtain ⟨k, y, rfl⟩ : ∃ k y, x = DefectSpace.point k y := ⟨_, _, DefectSpace.eq_point_of_isAdmissible hx⟩
    obtain ⟨hk, hsize⟩ := hlt k y hx
    have htotal : (m.space.toComposition (DefectSpace.point k y)).totalFits = true := by
      rw [hm.space_eq, Composition.totalFits, DefectSpace.total_toComposition hk (by omega) (by omega)]
      exact decide_eq_true hsize
    exact ⟨hm.motionFits_of_total _ htotal, (hm.emissionFits_eq _).trans htotal⟩

/-- The volume of the bounds is the first number that the generator computes, unless nothing is admissible. -/
theorem boxFits_of_staysInWords (W : m.StaysInWords) : d.boxFits = true := by
  obtain ⟨hh, hi, hv, -⟩ := hm.nonneg
  cases hmeet : m.rule.intersects m.rule.bounds with
  | true =>
    refine hm.fits_volume_iff.mp ?_
    have hvolume := W.volumes _ .bounds hmeet
    simp only [Region.volumeFits, Bool.and_eq_true] at hvolume
    exact hvolume.2
  | false =>
    have hnone : ∀ k x, d.isAdmissible (DefectSpace.point k x) = false := fun k x => by
      refine Bool.eq_false_iff.mpr fun hx => ?_
      have hin := DefectSpace.contains_bounds hh hi hv hm.nonneg.2.2.2 hx
      rw [hm.rule_eq] at hmeet
      exact Bool.eq_false_iff.mp hmeet ((DefectSpace.intersects_iff hi hv).mpr ⟨_, hin, hx⟩)
    -- Then there is no pure cluster of one defect either, so all maxima are zero.
    have hhelium : d.maxHelium = 0 := by
      by_contra hpos
      refine Bool.eq_false_iff.mp (hnone 1 0) ((DefectSpace.isAdmissible_point hi hv).mpr ?_)
      rw [DefectSpace.column, if_pos rfl]
      dsimp only
      omega
    have hinterstitial : d.maxInterstitial = 0 := by
      by_contra hpos
      refine Bool.eq_false_iff.mp (hnone 0 (-1)) ((DefectSpace.isAdmissible_point hi hv).mpr ?_)
      rw [DefectSpace.column, if_neg (by decide), if_pos (by decide)]
      dsimp only
      omega
    have hvacancy : d.maxVacancy = 0 := by
      by_contra hpos
      refine Bool.eq_false_iff.mp (hnone 0 1) ((DefectSpace.isAdmissible_point hi hv).mpr ?_)
      have hcap := (hm.heliumCap_mem (by decide : (0 : Int) ≤ 1) (by omega)).1
      rw [DefectSpace.column, if_neg (by decide), if_neg (by decide)]
      dsimp only
      omega
    rw [DefectSpace.boxFits, DefectSpace.heliumCap, hhelium, hinterstitial, hvacancy]
    rfl

/-- Where nothing is dropped, the largest bubble lies in a cluster. -/
theorem bubblesFit_of_staysInWords (W : m.StaysInWords) (hmin : ∀ g, p.grouping = some g → g.minWidth = 1) :
    d.bubblesFit = true := by
  obtain ⟨hh, hv, -⟩ := hm.maxima_lt
  obtain ⟨hh0, hi0, hv0, -⟩ := hm.nonneg
  rw [DefectSpace.bubblesFit, decide_eq_true_eq]
  rcases hv0.eq_or_lt with hzero | hpos
  · rw [← hzero, DefectSpace.heliumCap]
    split_ifs <;> omega
  · obtain ⟨hcap, -⟩ := hm.heliumCap_mem hv0 (le_refl _)
    have hadmits : d.isAdmissible (DefectSpace.point (d.heliumCap d.maxVacancy) d.maxVacancy) = true := by
      refine (DefectSpace.isAdmissible_point hi0 hv0).mpr ?_
      rw [DefectSpace.column, if_neg (by omega), if_neg (by omega)]
      dsimp only
      omega
    obtain ⟨r, hr, hx⟩ := (hm.tracks_rule hmin).exists_mem_admitted W.partition hadmits
    have hhelium : (d.heliumCap d.maxVacancy).natAbs < 4294967296 := W.coordinates r hr _ hx DefectSpace.heliumAxis
    have htotal := (W.totals r hr _ hx).2
    rw [hm.emissionFits_eq, hm.space_eq, Composition.totalFits,
      DefectSpace.total_toComposition hcap hhelium (by omega), decide_eq_true_eq] at htotal
    omega

end IsSizedMetal

theorem sized_xenon (p : NetworkParams α) : (Xenon.material p).Sized (Xenon.isAdmissible p.maxXenon.toNat) := by
  refine ⟨fun x hx a => ?_, fun _ _ => ⟨rfl, rfl⟩⟩
  obtain ⟨k, hk, rfl⟩ := Xenon.isAdmissible_iff.mp hx
  have hmax := p.maxXenon.toNat_lt
  match a with
  | 0 =>
    show k.natAbs < 4294967296
    omega
  | 1 | 2 | 3 => exact Nat.zero_lt_succ _

/-- The configured material is a metal or xenon. -/
theorem isSizedMetal_or_xenon (h : p.chooseMaterial = .ok m) :
    (∃ d, p.defects? = some d ∧ m.IsSizedMetal p d) ∨
      p.defects? = none ∧ p.maxXenon ≠ 0 ∧ m = Xenon.material p := by
  have hbuild := (NetworkParams.chooseMaterial_eq_ok h).2
  obtain ⟨hkind, rfl⟩ | ⟨hkind, rfl⟩ | ⟨hkind, rfl⟩ := NetworkParams.material_of_chooseMaterial h <;>
    rw [NetworkParams.defects?, hkind]
  · exact .inl ⟨_, rfl, Tungsten.isSizedMetal p⟩
  · exact .inl ⟨_, rfl, Iron.isSizedMetal p⟩
  · refine .inr ⟨rfl, fun hzero => ?_, rfl⟩
    rw [hkind, MaterialKind.build, if_pos hzero] at hbuild
    cases hbuild

/-- Corners, widths and centres are words for all accepted parameters. For xenon nothing else leaves the words
    either. For the metals nothing does when the bounds have fewer than `2 ^ 63` points and the largest bubble
    has fewer than `2 ^ 32` defects; then the generator finds its seeds. Both conditions are needed, the second
    one where no bubble is dropped. -/
theorem words_of_chooseMaterial (h : p.chooseMaterial = .ok m) :
    m.GeometryInWords p ∧ (p.material = .xenon → m.StaysInWords) ∧
      (p.boxFits = true → p.bubblesFit = true → m.StaysInWords) ∧
      (m.StaysInWords → p.boxFits = true ∧
        ((∀ g, p.grouping = some g → g.minWidth = 1) → p.bubblesFit = true) ∧
        ∃ seeds, m.generate = .ok (seeds, .ofRegion m.rule m.rule.bounds)) := by
  have hspace := valid_of_chooseMaterial h
  obtain ⟨d, hdefects, hm⟩ | ⟨hdefects, hpos, rfl⟩ := isSizedMetal_or_xenon h
  · have hbounds : p.boundsFit = true := by
      rw [NetworkParams.boundsFit, hdefects]
      exact hm.boundsFit
    have hmetal : p.material ≠ .xenon := fun hkind => by
      rw [NetworkParams.defects?, hkind] at hdefects
      cases hdefects
    rw [NetworkParams.boxFits, NetworkParams.bubblesFit, hdefects, Option.all_some, Option.all_some]
    refine ⟨hm.confined.geometry hbounds, fun hkind => absurd hkind hmetal, fun hbox hbubbles => ?_, fun W =>
      ⟨hm.boxFits_of_staysInWords W, hm.bubblesFit_of_staysInWords W, W.exists_generate hm.confined hspace⟩⟩
    exact hm.confined.staysInWords (hm.sized hbubbles) (hm.fits_volume_iff.mpr hbox) fun _ => hm.selects_iff
  · obtain ⟨C, hvolume⟩ := Xenon.confined_material p hpos
    have hbounds : p.boundsFit = true := by
      have hmax := p.maxXenon.toNat_lt
      rw [NetworkParams.boundsFit, hdefects]
      simp only [Region.ofInclusiveFits, maxAxes, List.take_succ_cons, List.take_nil, List.all_cons, List.all_nil,
        Bool.and_true, fits_iff]
      omega
    have W : (Xenon.material p).StaysInWords := C.staysInWords (sized_xenon p) hvolume fun _ => Xenon.selects_iff
    rw [NetworkParams.boxFits, NetworkParams.bubblesFit, hdefects, Option.all_none]
    exact ⟨C.geometry hbounds, fun _ => W, fun _ _ => W, fun _ => ⟨rfl, fun _ => rfl, W.exists_generate C hspace⟩⟩

end Material

/-! ### The largest vacancy clusters of tungsten -/

namespace Swollen
open scoped Pair

/-- Tungsten with every tabulated helium cluster, without interstitials. -/
def params (maxVacancy : UInt32) : NetworkParams ℚ :=
  { NetworkParams.standard with maxVacancy := maxVacancy, maxInterstitial := 0 }

/-- Tungsten with vacancy clusters of up to a given size. -/
def material (maxVacancy : UInt32) : Material ℚ := Tungsten.material (params maxVacancy)

/-- Beside 858993458 vacancies there are at most 3435973837 helium atoms, and their sum is the largest 32-bit
    word. One vacancy more is accepted as well, but its largest bubble has too many defects to get a seed. -/
theorem staysInWords_largest :
    (material 858993458).StaysInWords ∧
      (∃ seeds, (material 858993458).generate =
        .ok (seeds, .ofRegion (material 858993458).rule (material 858993458).rule.bounds)) ∧
      (params 858993459).chooseMaterial = .ok (material 858993459) ∧ ¬(material 858993459).StaysInWords ∧
      (material 858993459).seedFor (.unit #v[3435973841, 858993459, 0, 0]) = .error .overflow := by
  obtain ⟨-, -, hstays, hrest⟩ := Material.words_of_chooseMaterial (p := params 858993458)
    (m := material 858993458) rfl
  obtain ⟨-, -, -, hrest'⟩ := Material.words_of_chooseMaterial (p := params 858993459)
    (m := material 858993459) rfl
  have W := hstays (by decide +kernel) (by decide +kernel)
  refine ⟨W, (hrest W).2.2, rfl, fun W' => ?_, ?_⟩
  · have hbubbles := (hrest' W').2.1 fun g hg => nomatch hg
    revert hbubbles
    decide +kernel
  · have hfits : (material 858993459).seedFits (.unit #v[3435973841, 858993459, 0, 0]) = false := by decide +kernel
    rw [Material.seedFor_eq DefectSpace.valid_space, hfits]
    rfl

end Swollen
end ClusterDynamics
