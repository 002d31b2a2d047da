import ClusterDynamics.Material.DefectSpace
import ClusterDynamics.Proofs.Lattice

/-! The admissible compositions of the metals. The closed count of a region, column by column, is the
    number of its admissible points; so a region intersects the admissible set exactly when it holds an
    admissible point, and is selected exactly when it holds no other. -/

namespace ClusterDynamics

namespace Region

variable {r : Region} {admits : Point → Bool} {n : Int}

/-- A positive count of points with a property shows such a point. -/
theorem count_pos_iff (h : ((r.lattice.filter fun p => admits p = true).card : Int) = n) :
    0 < n ↔ ∃ p, r.contains p = true ∧ admits p = true := by
  rw [← h, Int.natCast_pos, Finset.card_pos]
  exact exists_congr fun p => by rw [Finset.mem_filter, mem_lattice]

/-- All points of a region have a property when they are as many as the region has. -/
theorem count_eq_volume_iff (h : ((r.lattice.filter fun p => admits p = true).card : Int) = n) :
    n = r.volume ↔ ∀ p, r.contains p = true → admits p = true := by
  rw [← h, ← card_lattice, Nat.cast_inj, Finset.card_filter_eq_iff]
  exact forall_congr' fun p => by rw [mem_lattice]

end Region

namespace DefectSpace

variable {d : DefectSpace} {r : Region}

/-- The point of `h` helium atoms at the defect coordinate `x`. -/
def point (h x : Int) : Point := #v[h, x, 0, 0]

theorem ext_point {p : Point} {h x : Int} : p = point h x ↔
    p.get heliumAxis = h ∧ p.get defectAxis = x ∧ p.get Direction.third = 0 ∧
      p.get Direction.fourth = 0 := by
  constructor
  · rintro rfl
    exact ⟨rfl, rfl, rfl, rfl⟩
  · rintro ⟨h0, h1, h2, h3⟩
    refine Point.ext_get fun a => ?_
    match a with
    | 0 => exact h0
    | 1 => exact h1
    | 2 => exact h2
    | 3 => exact h3

theorem add_point (h x k y : Int) : (point h x).add (point k y) = point (h + k) (x + y) := by
  refine Point.ext_get fun a => ?_
  rw [Point.get_add]
  match a with
  | 0 => rfl
  | 1 => rfl
  | 2 => rfl
  | 3 => rfl

theorem eq_point_of_isAdmissible {p : Point} (h : d.isAdmissible p = true) :
    p = point (p.get heliumAxis) (p.get defectAxis) := by
  unfold isAdmissible at h
  dsimp only at h
  split_ifs at h with hplane
  all_goals
    simp only [Bool.or_eq_true, decide_eq_true_eq, not_or, not_not] at hplane
    exact ext_point.mpr ⟨rfl, rfl, hplane.1.1, hplane.1.2⟩

/-- In the plane, a point is admissible when it lies in the column of its defect coordinate. -/
theorem isAdmissible_point (hi : 0 ≤ d.maxInterstitial) (hv : 0 ≤ d.maxVacancy) {h x : Int} :
    d.isAdmissible (point h x) = true ↔ 0 ≤ h ∧ (-d.maxInterstitial ≤ x ∧ x ≤ d.maxVacancy) ∧
      (d.column x).1 ≤ h ∧ h ≤ (d.column x).2 := by
  have hget : (point h x).get heliumAxis = h ∧ (point h x).get defectAxis = x ∧
      (point h x).get Direction.third = 0 ∧ (point h x).get Direction.fourth = 0 := ⟨rfl, rfl, rfl, rfl⟩
  unfold isAdmissible column
  simp only [hget, ne_eq, not_true_eq_false, decide_false, Bool.false_or, decide_eq_true_eq]
  by_cases hneg : h < 0
  · exact iff_of_false (by simp [hneg]) (by omega)
  · rw [if_neg hneg]
    split_ifs <;> simp only [Bool.and_eq_true, decide_eq_true_eq] <;> omega

/-! ### Counting -/

theorem mem_columns {x : Int} : x ∈ d.columns r ↔
    (r.lo.get defectAxis ≤ x ∧ -d.maxInterstitial ≤ x) ∧ x < r.hi.get defectAxis ∧ x ≤ d.maxVacancy := by
  simp only [columns, List.mem_map, List.mem_range]
  constructor
  · rintro ⟨i, hi, rfl⟩
    omega
  · intro h
    exact ⟨(x - max (r.lo.get defectAxis) (-d.maxInterstitial)).toNat, by omega, by omega⟩

theorem nodup_columns (d : DefectSpace) (r : Region) : (d.columns r).Nodup :=
  List.nodup_range.map fun i j h => by omega

theorem offPlane_eq_false : offPlane r = false ↔
    (r.lo.get Direction.third ≤ 0 ∧ 0 < r.hi.get Direction.third) ∧
      r.lo.get Direction.fourth ≤ 0 ∧ 0 < r.hi.get Direction.fourth := by
  simp [offPlane]

theorem foldl_add_eq_sum (f : Int → Int) : ∀ (l : List Int) (n : Int),
    l.foldl (fun n x => n + f x) n = n + (l.map f).sum
  | [], n => by simp
  | x :: l, n => by
    rw [List.foldl_cons, foldl_add_eq_sum f l, List.map_cons, List.sum_cons, Int.add_assoc]

theorem contains_point (hplane : offPlane r = false) {h x : Int} :
    r.contains (point h x) = true ↔
      (r.lo.get heliumAxis ≤ h ∧ h < r.hi.get heliumAxis) ∧
        r.lo.get defectAxis ≤ x ∧ x < r.hi.get defectAxis := by
  obtain ⟨h2, h3⟩ := offPlane_eq_false.mp hplane
  rw [Region.contains_iff]
  constructor
  · exact fun hp => ⟨hp heliumAxis, hp defectAxis⟩
  · rintro ⟨h0, h1⟩ a
    match a with
    | 0 => exact h0
    | 1 => exact h1
    | 2 => exact h2
    | 3 => exact h3

/-- The points at one defect coordinate, by their helium. -/
def alongHelium (x : Int) : Int ↪ Point := ⟨fun h => point h x, fun _ _ h => (ext_point.mp h).1⟩

/-- The admissible points of a region at one defect coordinate are a stretch of helium amounts. -/
theorem card_column (hi : 0 ≤ d.maxInterstitial) (hv : 0 ≤ d.maxVacancy) (hplane : offPlane r = false)
    {x : Int} (hx : x ∈ d.columns r) :
    (((r.lattice.filter fun p => d.isAdmissible p = true).filter fun p =>
      p.get defectAxis = x).card : Int) = d.columnCount r x := by
  have hx := mem_columns.mp hx
  have hset : (r.lattice.filter fun p => d.isAdmissible p = true).filter (fun p => p.get defectAxis = x) =
      (Finset.Icc (max (d.column x).1 (max (r.lo.get heliumAxis) 0))
        (min (d.column x).2 (r.hi.get heliumAxis - 1))).map (alongHelium x) := by
    ext p
    simp only [Finset.mem_filter, Finset.mem_map, Region.mem_lattice, Finset.mem_Icc]
    constructor
    · rintro ⟨⟨hp, hadm⟩, rfl⟩
      have he := eq_point_of_isAdmissible hadm
      rw [he] at hp hadm
      have h1 := (contains_point hplane).mp hp
      have h2 := (isAdmissible_point hi hv).mp hadm
      exact ⟨p.get heliumAxis, by omega, he.symm⟩
    · rintro ⟨h, hh, rfl⟩
      exact ⟨⟨(contains_point hplane).mpr (by omega), (isAdmissible_point hi hv).mpr (by omega)⟩, rfl⟩
  rw [hset, Finset.card_map, Int.card_Icc, columnCount]
  split_ifs <;> omega

/-- The closed count is the number of admissible points. -/
theorem card_isAdmissible (hi : 0 ≤ d.maxInterstitial) (hv : 0 ≤ d.maxVacancy) (r : Region) :
    ((r.lattice.filter fun p => d.isAdmissible p = true).card : Int) = d.countAdmissible r := by
  unfold countAdmissible
  by_cases hempty : r.isEmpty = true
  · have hnone : r.lattice = ∅ := by
      rw [← Finset.not_nonempty_iff_eq_empty, Region.lattice_nonempty, hempty]
      exact Bool.true_eq_false_eq_False
    simp [hempty, hnone]
  cases hplane : offPlane r with
  | true =>
    have hnone : r.lattice.filter (fun p => d.isAdmissible p = true) = ∅ := by
      refine Finset.filter_eq_empty_iff.mpr fun p hp hadm => ?_
      have hp := Region.contains_iff.mp (Region.mem_lattice.mp hp)
      obtain ⟨-, -, h2, h3⟩ := ext_point.mp (eq_point_of_isAdmissible hadm)
      have hin := offPlane_eq_false.mpr ⟨h2 ▸ hp Direction.third, h3 ▸ hp Direction.fourth⟩
      exact absurd (hplane.symm.trans hin) (by decide)
    simp [hnone]
  | false =>
    rw [if_neg (by simp [hempty]), foldl_add_eq_sum, Int.zero_add,
      ← List.sum_toFinset _ (nodup_columns d r),
      Finset.card_eq_sum_card_fiberwise (f := fun p => p.get defectAxis) (t := (d.columns r).toFinset),
      Nat.cast_sum]
    · exact Finset.sum_congr rfl fun x hx => card_column hi hv hplane (List.mem_toFinset.mp hx)
    · intro p hp
      obtain ⟨hp, hadm⟩ := Finset.mem_filter.mp hp
      have h1 := Region.contains_iff.mp (Region.mem_lattice.mp hp) defectAxis
      rw [eq_point_of_isAdmissible hadm] at hadm
      have h2 := (isAdmissible_point hi hv).mp hadm
      exact Finset.mem_coe.mpr (List.mem_toFinset.mpr (mem_columns.mpr ⟨⟨h1.1, h2.2.1.1⟩, h1.2, h2.2.1.2⟩))

/-! ### Regions -/

/-- A region intersects the admissible set when it holds an admissible point. -/
theorem intersects_iff (hi : 0 ≤ d.maxInterstitial) (hv : 0 ≤ d.maxVacancy) :
    d.intersects r = true ↔ ∃ p, r.contains p = true ∧ d.isAdmissible p = true := by
  rw [intersects, decide_eq_true_eq]
  exact Region.count_pos_iff (card_isAdmissible hi hv r)

/-- A region is selected when it holds admissible points only. -/
theorem selects_iff (hi : 0 ≤ d.maxInterstitial) (hv : 0 ≤ d.maxVacancy) :
    d.selects r = true ↔ ∀ p, r.contains p = true → d.isAdmissible p = true := by
  rw [selects, decide_eq_true_eq]
  exact Region.count_eq_volume_iff (card_isAdmissible hi hv r)

theorem heliumCap_le (hs : 0 ≤ d.slope) {x y : Int} (hx : 0 < x) (hxy : x ≤ y) :
    d.heliumCap x ≤ d.heliumCap y := by
  have hmul := Int.mul_le_mul_of_nonneg_left hxy hs
  unfold heliumCap
  split_ifs <;> omega

/-- The bounds hold every admissible point. -/
theorem contains_bounds (hh : 0 ≤ d.maxHelium) (hi : 0 ≤ d.maxInterstitial) (hv : 0 ≤ d.maxVacancy)
    (hs : 0 ≤ d.slope) {p : Point} (h : d.isAdmissible p = true) : d.bounds.contains p = true := by
  obtain ⟨m, x, rfl⟩ : ∃ m x, p = point m x := ⟨_, _, eq_point_of_isAdmissible h⟩
  obtain ⟨h0, hx, hc⟩ := (isAdmissible_point hi hv).mp h
  have hmax : m ≤ max (d.heliumCap d.maxVacancy) d.maxHelium := by
    unfold column at hc
    split_ifs at hc with hzero hneg
    · exact le_max_of_le_right hc.2
    · exact le_max_of_le_right (hc.2.trans hh)
    · exact le_max_of_le_left (hc.2.trans (heliumCap_le hs (by omega) hx.2))
  have hplane : offPlane d.bounds = false := by
    have hthird : d.bounds.lo.get Direction.third = 0 ∧ d.bounds.hi.get Direction.third = 1 := ⟨rfl, rfl⟩
    have hfourth : d.bounds.lo.get Direction.fourth = 0 ∧ d.bounds.hi.get Direction.fourth = 1 :=
      ⟨rfl, rfl⟩
    exact offPlane_eq_false.mpr (by omega)
  exact (contains_point hplane).mpr ⟨⟨h0, Int.lt_add_one_of_le hmax⟩, hx.1, Int.lt_add_one_of_le hx.2⟩

end DefectSpace
end ClusterDynamics
