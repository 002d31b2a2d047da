import ClusterDynamics.Proofs.SignedPoints
import ClusterDynamics.Proofs.Tracking

/-! What the materials admit. The metals admit the points of their defect space and xenon the points of one
    to `maxXenon` atoms on its axis. On these points the axes read a composition off a point and find the
    point again, as long as the counts are words; the rule of each material tracks them, and its closed count
    of a region counts them. -/

namespace ClusterDynamics

variable {α : Type}

namespace Axis

theorem counted?_pos (a : Axis) {n : Int} (h : 0 < n) : a.counted? n = some a.positive := if_pos h

theorem counted?_zero (a : Axis) : a.counted? 0 = none := rfl

theorem counted?_neg (a : Axis) {n : Int} (h : n < 0) : a.counted? n = a.negative := by
  rw [counted?, if_neg (by omega), if_pos h]

end Axis

theorem toNat_of_not_pos {n : UInt32} (h : ¬0 < n) : n.toNat = 0 := by
  rw [UInt32.lt_iff_toNat_lt, show (0 : UInt32).toNat = 0 from rfl] at h
  omega

/-! ### Metals -/

namespace DefectSpace

variable {d : DefectSpace}

theorem width_bounds {a : Direction} (h : 2 ≤ a.val) : d.bounds.width a = 1 := by
  rw [bounds]
  exact Region.width_ofInclusive h

theorem tracks_rule [Analytic α] {schedule : Option (BinSchedule α)} (hh : 0 ≤ d.maxHelium)
    (hi : 0 ≤ d.maxInterstitial) (hv : 0 ≤ d.maxVacancy) (hs : 0 ≤ d.slope)
    (hmin : ∀ s, schedule = some s → s.minWidth = 1) : (d.rule schedule).Tracks d.isAdmissible where
  intersects_iff _ := intersects_iff hi hv
  selects_iff _ := selects_iff hi hv
  bounds _ hx := contains_bounds hh hi hv hs hx
  selects_of_uncut _ := PartitionRule.selects_of_uncut (fun _ => intersects_iff hi hv)
    (fun _ => selects_iff hi hv) hmin (fun _ => rfl) fun _ ha => by
      exact (width_bounds ha).le

theorem toComposition_point {h x : Int} (hh : 0 ≤ h) : space.toComposition (point h x) =
    (Composition.single .helium (UInt32.ofNat h.natAbs)).set
      (if x < 0 then .interstitial else .vacancy) (UInt32.ofNat x.natAbs) := by
  have hget : (point h x)[0]?.getD 0 = h ∧ (point h x)[1]?.getD 0 = x := ⟨rfl, rfl⟩
  simp only [PhaseSpace.toComposition, space, PhaseSpace.toCompositionFrom, Nat.zero_add, hget]
  rcases hh.eq_or_lt with rfl | hpos <;> rcases lt_trichotomy x 0 with hneg | rfl | hxpos
  · simp only [Axis.counted?_zero, Axis.counted?_neg _ hneg, if_pos hneg]
    rfl
  · rfl
  · simp only [Axis.counted?_zero, Axis.counted?_pos _ hxpos, if_neg hxpos.not_gt]
    rfl
  · simp only [Axis.counted?_pos _ hpos, Axis.counted?_neg _ hneg, if_pos hneg]
    rfl
  · simp only [Axis.counted?_pos _ hpos, Axis.counted?_zero]
    rfl
  · simp only [Axis.counted?_pos _ hpos, Axis.counted?_pos _ hxpos, if_neg hxpos.not_gt]
    rfl

theorem valid_space : space.Valid :=
  (PhaseSpace.ofAxes_eq_ok_iff.mp (rfl : PhaseSpace.ofAxes space.axes = .ok space)).2

theorem expresses_point {h x : Int} (hh : 0 ≤ h) (hfit : ∀ a : Direction, ((point h x).get a).natAbs < 4294967296) :
    space.Expresses (point h x) := by
  refine ⟨fun a ha => ?_, fun a y hy hplain => ?_, fun a => Nat.le_of_lt_succ (hfit a)⟩
  · match a with
    | 2 | 3 => rfl
  · match a with
    | 0 => exact hh
    | 1 =>
      cases hy
      cases hplain

end DefectSpace

/-! ### Xenon -/

namespace Xenon

variable {maxXenon : Int} {r : Region}

/-- The point of `k` atoms. -/
def point (k : Int) : Point := #v[k, 0, 0, 0]

/-- The point holds between one and `maxXenon` atoms and lies on the xenon axis. -/
def isAdmissible (maxXenon : Int) (p : Point) : Bool :=
  decide (1 ≤ p.get Direction.first) && decide (p.get Direction.first ≤ maxXenon) &&
    [Direction.second, Direction.third, Direction.fourth].all fun a => decide (p.get a = 0)

theorem isAdmissible_iff {p : Point} : isAdmissible maxXenon p = true ↔
    ∃ k, (1 ≤ k ∧ k ≤ maxXenon) ∧ p = point k := by
  simp only [isAdmissible, Bool.and_eq_true, decide_eq_true_eq, List.all_cons, List.all_nil, and_true]
  constructor
  · rintro ⟨hk, h1, h2, h3⟩
    refine ⟨_, hk, Point.ext_get fun a => ?_⟩
    match a with
    | 0 => rfl
    | 1 => exact h1
    | 2 => exact h2
    | 3 => exact h3
  · rintro ⟨k, hk, rfl⟩
    exact ⟨hk, rfl, rfl, rfl⟩

theorem offAxis_eq_false : offAxis r = false ↔
    (r.lo.get Direction.second ≤ 0 ∧ 0 < r.hi.get Direction.second) ∧
      (r.lo.get Direction.third ≤ 0 ∧ 0 < r.hi.get Direction.third) ∧
        r.lo.get Direction.fourth ≤ 0 ∧ 0 < r.hi.get Direction.fourth := by
  simp [offAxis]

theorem contains_point {k : Int} : r.contains (point k) = true ↔
    offAxis r = false ∧ r.lo.get Direction.first ≤ k ∧ k < r.hi.get Direction.first := by
  rw [offAxis_eq_false, Region.contains_iff]
  constructor
  · intro h
    exact ⟨⟨h Direction.second, h Direction.third, h Direction.fourth⟩, h Direction.first⟩
  · rintro ⟨⟨h1, h2, h3⟩, h0⟩ a
    match a with
    | 0 => exact h0
    | 1 => exact h1
    | 2 => exact h2
    | 3 => exact h3

/-- The points by their number of atoms. -/
def alongXenon : Int ↪ Point := ⟨point, fun _ _ h => congrArg (Vector.get · Direction.first) h⟩

/-- The closed count is the number of admissible points. -/
theorem card_isAdmissible (maxXenon : Int) (r : Region) :
    ((r.lattice.filter fun p => isAdmissible maxXenon p = true).card : Int) = countAdmissible maxXenon r := by
  unfold countAdmissible
  split_ifs with hnone
  · have hempty : r.lattice.filter (fun p => isAdmissible maxXenon p = true) = ∅ := by
      refine Finset.filter_eq_empty_iff.mpr fun p hp hadm => ?_
      obtain ⟨k, -, rfl⟩ := isAdmissible_iff.mp hadm
      rcases Bool.or_eq_true_iff.mp hnone with h | h
      · rw [Region.lattice_nonempty.mp ⟨_, hp⟩] at h
        cases h
      · rw [(contains_point.mp (Region.mem_lattice.mp hp)).1] at h
        cases h
    rw [hempty]
    rfl
  · rw [Bool.or_eq_true, not_or, Bool.not_eq_true, Bool.not_eq_true] at hnone
    have hset : r.lattice.filter (fun p => isAdmissible maxXenon p = true) =
        (Finset.Ico (max (r.lo.get Direction.first) 1)
          (min (r.hi.get Direction.first) (maxXenon + 1))).map alongXenon := by
      ext p
      simp only [Finset.mem_filter, Finset.mem_map, Region.mem_lattice, Finset.mem_Ico, isAdmissible_iff]
      constructor
      · rintro ⟨hp, k, hk, rfl⟩
        have := (contains_point.mp hp).2
        exact ⟨k, by omega, rfl⟩
      · rintro ⟨k, hk, rfl⟩
        exact ⟨contains_point.mpr ⟨hnone.2, by omega⟩, k, by omega, rfl⟩
    rw [hset, Finset.card_map, Int.card_Ico]
    omega

theorem width_bounds [Analytic α] {schedule : Option (BinSchedule α)} {a : Direction} (h : 1 ≤ a.val) :
    (rule maxXenon schedule).bounds.width a = 1 := by
  rw [rule]
  exact Region.width_ofInclusive h

theorem intersects_iff [Analytic α] {schedule : Option (BinSchedule α)} :
    (rule maxXenon schedule).intersects r = true ↔
      ∃ x, r.contains x = true ∧ isAdmissible maxXenon x = true := by
  rw [← Region.count_pos_iff (card_isAdmissible maxXenon r)]
  exact decide_eq_true_iff

theorem selects_iff [Analytic α] {schedule : Option (BinSchedule α)} :
    (rule maxXenon schedule).selects r = true ↔
      ∀ x, r.contains x = true → isAdmissible maxXenon x = true := by
  rw [← Region.count_eq_volume_iff (card_isAdmissible maxXenon r)]
  exact decide_eq_true_iff

theorem tracks_rule [Analytic α] {schedule : Option (BinSchedule α)}
    (hmin : ∀ s, schedule = some s → s.minWidth = 1) :
    (rule maxXenon schedule).Tracks (isAdmissible maxXenon) := by
  refine ⟨fun _ => intersects_iff, fun _ => selects_iff, fun x hx => ?_,
    fun r => PartitionRule.selects_of_uncut (fun _ => intersects_iff) (fun _ => selects_iff) hmin
      (fun _ => rfl) fun _ ha => (width_bounds ha).le⟩
  obtain ⟨k, hk, rfl⟩ := isAdmissible_iff.mp hx
  exact contains_point.mpr ⟨rfl, hk.1, Int.lt_add_one_of_le hk.2⟩

theorem toComposition_point {k : Int} (hk : 1 ≤ k) :
    space.toComposition (point k) = .single .xenon (UInt32.ofNat k.natAbs) := by
  have hget : (point k)[0]?.getD 0 = k := rfl
  simp only [PhaseSpace.toComposition, space, PhaseSpace.toCompositionFrom, hget,
    Axis.counted?_pos _ (show 0 < k by omega)]
  rfl

theorem valid_space : space.Valid :=
  (PhaseSpace.ofAxes_eq_ok_iff.mp (rfl : PhaseSpace.ofAxes space.axes = .ok space)).2

theorem expresses_point {k : Int} (hk : 1 ≤ k) (hfit : ∀ a : Direction, ((point k).get a).natAbs < 4294967296) :
    space.Expresses (point k) := by
  refine ⟨fun a ha => ?_, fun a y hy _ => ?_, fun a => Nat.le_of_lt_succ (hfit a)⟩
  · match a with
    | 1 | 2 | 3 => rfl
  · match a with
    | 0 => exact Int.le_of_lt hk

end Xenon

/-! ### Closed counts -/

/-- The closed count of a material and its two tests of a region say the same as its test of a point. -/
structure CountsPoints (admits : Point → Bool) (count : Region → Int) (intersects selects : Region → Bool) :
    Prop where
  finite : ∀ r : Region, {p | r.contains p = true ∧ admits p = true}.Finite
  count_eq : ∀ r : Region, count r = {p | r.contains p = true ∧ admits p = true}.ncard
  intersects_iff : ∀ r : Region, intersects r = true ↔ ∃ p, r.contains p = true ∧ admits p = true
  selects_iff : ∀ r : Region, selects r = true ↔ ∀ p, r.contains p = true → admits p = true

/-- A count over the lattice of a region settles both tests. -/
theorem CountsPoints.of_card {admits : Point → Bool} {count : Region → Int}
    (h : ∀ r : Region, ((r.lattice.filter fun p => admits p = true).card : Int) = count r) :
    CountsPoints admits count (fun r => decide (0 < count r)) fun r => decide (count r = r.volume) := by
  have hset : ∀ r : Region, {p | r.contains p = true ∧ admits p = true} =
      ↑(r.lattice.filter fun p => admits p = true) := by
    intro r
    ext p
    rw [Finset.mem_coe, Finset.mem_filter, Region.mem_lattice, Set.mem_ofPred_eq]
  refine ⟨fun r => ?_, fun r => ?_, fun r => ?_, fun r => ?_⟩
  · rw [hset]
    exact Finset.finite_toSet _
  · rw [hset, Set.ncard_coe_finset, h]
  · rw [decide_eq_true_iff]
    exact Region.count_pos_iff (h r)
  · rw [decide_eq_true_iff]
    exact Region.count_eq_volume_iff (h r)

/-- Counting the admissible points of a region without visiting them is exact, for the metals at every helium
    limit and for xenon; and the bounds of a metal whose limit does not fall leave no admissible point out. -/
theorem DefectSpace.countsPoints (d : DefectSpace) (hh : 0 ≤ d.maxHelium) (hv : 0 ≤ d.maxVacancy)
    (hi : 0 ≤ d.maxInterstitial) :
    CountsPoints d.isAdmissible d.countAdmissible d.intersects d.selects ∧
      (0 ≤ d.slope → ∀ p, d.isAdmissible p = true → d.bounds.contains p = true) ∧
      ∀ {α : Type} [Analytic α] (maxXenon : Int) (schedule : Option (BinSchedule α)),
        CountsPoints (Xenon.isAdmissible maxXenon) (Xenon.countAdmissible maxXenon)
          (Xenon.rule maxXenon schedule).intersects (Xenon.rule maxXenon schedule).selects := by
  refine ⟨.of_card (card_isAdmissible hi hv), fun hs p hp => contains_bounds hh hi hv hs hp, ?_⟩
  intro α _ maxXenon schedule
  exact .of_card (Xenon.card_isAdmissible maxXenon)

/-- A limit that falls with the vacancies, and a box across all three kinds of columns with two values on the
    last axis: twelve of its points are admissible, one of them outside the bounds. Where the limit rises, the
    largest bubble lies within the bounds. -/
theorem DefectSpace.countsPoints_falling :
    let falling : DefectSpace := ⟨2, 3, 1, -3, 8⟩
    let rising : DefectSpace := ⟨8, 2, 1, 4, 5⟩
    let r : Region := ⟨#v[0, -2, 0, 0], #v[6, 5, 1, 2]⟩
    {p | r.contains p = true ∧ falling.isAdmissible p = true}.ncard = 12 ∧
      (∃ p, r.contains p = true ∧ falling.isAdmissible p = true ∧ falling.bounds.contains p = false) ∧
      (¬∀ p, r.contains p = true → falling.isAdmissible p = true) ∧
      rising.isAdmissible (point 13 2) = true ∧ rising.bounds.contains (point 13 2) = true := by
  intro falling rising r
  obtain ⟨h, -, -⟩ := DefectSpace.countsPoints falling (by decide) (by decide) (by decide)
  obtain ⟨-, hbounds, -⟩ := DefectSpace.countsPoints rising (by decide) (by decide) (by decide)
  have hadm : rising.isAdmissible (point 13 2) = true := by decide
  refine ⟨Nat.cast_injective (R := ℤ) ((h.count_eq r).symm.trans (by decide)), ⟨point 5 1, by decide⟩, ?_, hadm,
    hbounds (by decide) _ hadm⟩
  rw [← h.selects_iff]
  decide

/-! ### Configured materials -/

/-- The points that the configured material admits. -/
def NetworkParams.admits (p : NetworkParams α) (x : Point) : Bool :=
  match p.material with
  | .tungsten => (Tungsten.defects p).isAdmissible x
  | .iron => (Iron.defects p).isAdmissible x
  | .xenon => Xenon.isAdmissible p.maxXenon.toNat x

section
variable {p : NetworkParams α}

theorem NetworkParams.admits_tungsten (h : p.material = .tungsten) :
    p.admits = (Tungsten.defects p).isAdmissible := by
  funext x
  rw [admits, h]

theorem NetworkParams.admits_iron (h : p.material = .iron) : p.admits = (Iron.defects p).isAdmissible := by
  funext x
  rw [admits, h]

theorem NetworkParams.admits_xenon (h : p.material = .xenon) :
    p.admits = Xenon.isAdmissible p.maxXenon.toNat := by
  funext x
  rw [admits, h]

end

/-- The rule of the material tracks the admissible points, and its axes name those whose counts are words. -/
structure Material.Tracks (m : Material α) (admits : Point → Bool) : Prop where
  rule : m.rule.Tracks admits
  placed : ∀ x, admits x = true → (∀ a : Direction, (x.get a).natAbs < 4294967296) →
    m.space.toPoint (m.space.toComposition x) = .ok x

namespace Material

variable [Analytic α] {p : NetworkParams α} {m : Material α}

theorem IsMetal.placed {d : DefectSpace} (hm : m.IsMetal p d) {x : Point} (hx : d.isAdmissible x = true)
    (hfit : ∀ a : Direction, (x.get a).natAbs < 4294967296) :
    m.space.toPoint (m.space.toComposition x) = .ok x := by
  obtain ⟨-, hi, hv, -⟩ := hm.nonneg
  have he := DefectSpace.eq_point_of_isAdmissible hx
  rw [he] at hx
  have hhelium := ((DefectSpace.isAdmissible_point hi hv).mp hx).1
  rw [he] at hfit
  rw [hm.space_eq, he]
  exact PhaseSpace.toPoint_of_expresses DefectSpace.valid_space (DefectSpace.expresses_point hhelium hfit)

theorem IsMetal.selects_iff {d : DefectSpace} (hm : m.IsMetal p d) {r : Region} :
    m.rule.selects r = true ↔ ∀ x, r.contains x = true → d.isAdmissible x = true := by
  rw [hm.rule_eq]
  exact DefectSpace.selects_iff hm.nonneg.2.1 hm.nonneg.2.2.1

theorem IsMetal.tracks_rule {d : DefectSpace} (hm : m.IsMetal p d)
    (hmin : ∀ g, p.grouping = some g → g.minWidth = 1) : m.rule.Tracks d.isAdmissible := by
  obtain ⟨hh, hi, hv, hs⟩ := hm.nonneg
  refine hm.rule_eq ▸ DefectSpace.tracks_rule hh hi hv hs fun s hs => ?_
  obtain ⟨g, hg, rfl⟩ := Option.map_eq_some_iff.mp hs
  rw [BinSchedule.ofGrouping, hmin g hg]
  rfl

theorem valid_of_chooseMaterial (h : p.chooseMaterial = .ok m) : m.space.Valid := by
  obtain ⟨-, rfl⟩ | ⟨-, rfl⟩ | ⟨-, rfl⟩ := NetworkParams.material_of_chooseMaterial h
  · exact DefectSpace.valid_space
  · exact DefectSpace.valid_space
  · exact Xenon.valid_space

/-- The axes of every configured material name the admissible points whose counts are words. -/
theorem placed_of_chooseMaterial (h : p.chooseMaterial = .ok m) {x : Point} (hx : p.admits x = true)
    (hfit : ∀ a : Direction, (x.get a).natAbs < 4294967296) :
    m.space.toPoint (m.space.toComposition x) = .ok x := by
  obtain ⟨hkind, rfl⟩ | ⟨hkind, rfl⟩ | ⟨hkind, rfl⟩ := NetworkParams.material_of_chooseMaterial h
  · rw [NetworkParams.admits_tungsten hkind] at hx
    exact (Tungsten.isMetal p).placed hx hfit
  · rw [NetworkParams.admits_iron hkind] at hx
    exact (Iron.isMetal p).placed hx hfit
  · rw [NetworkParams.admits_xenon hkind] at hx
    obtain ⟨k, hk, rfl⟩ := Xenon.isAdmissible_iff.mp hx
    exact PhaseSpace.toPoint_of_expresses Xenon.valid_space (Xenon.expresses_point hk.1 hfit)

/-- A region that a configured material selects holds admissible points only. -/
theorem selects_of_chooseMaterial (h : p.chooseMaterial = .ok m) {r : Region} :
    m.rule.selects r = true ↔ ∀ x, r.contains x = true → p.admits x = true := by
  obtain ⟨hkind, rfl⟩ | ⟨hkind, rfl⟩ | ⟨hkind, rfl⟩ := NetworkParams.material_of_chooseMaterial h
  · rw [NetworkParams.admits_tungsten hkind]
    exact (Tungsten.isMetal p).selects_iff
  · rw [NetworkParams.admits_iron hkind]
    exact (Iron.isMetal p).selects_iff
  · rw [NetworkParams.admits_xenon hkind]
    exact Xenon.selects_iff

/-- Every configured material tracks what it admits. -/
theorem tracks_of_chooseMaterial (h : p.chooseMaterial = .ok m)
    (hmin : ∀ g, p.grouping = some g → g.minWidth = 1) : m.Tracks p.admits := by
  refine ⟨?_, fun x => placed_of_chooseMaterial h⟩
  obtain ⟨hkind, rfl⟩ | ⟨hkind, rfl⟩ | ⟨hkind, rfl⟩ := NetworkParams.material_of_chooseMaterial h
  · rw [NetworkParams.admits_tungsten hkind]
    exact (Tungsten.isMetal p).tracks_rule hmin
  · rw [NetworkParams.admits_iron hkind]
    exact (Iron.isMetal p).tracks_rule hmin
  · rw [NetworkParams.admits_xenon hkind]
    refine Xenon.tracks_rule fun s hs => ?_
    obtain ⟨g, hg, rfl⟩ := Option.map_eq_some_iff.mp hs
    rw [BinSchedule.ofGrouping, hmin g hg]
    rfl

end Material
end ClusterDynamics
