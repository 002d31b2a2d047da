import ClusterDynamics.Proofs.ExactScalar
import ClusterDynamics.Region.Range

/-! The finite set of the points of a region. Sums over it are what every closed form of the library
    stands for: they split along the axes, move with the region, and fall into the sums over disjoint
    parts. Points are ordered by their first coordinate that differs. -/

namespace ClusterDynamics

/-! ### Points as a group -/

namespace Point

theorem add_neg_add (p s : Point) : (p.add s.neg).add s = p := ext_get fun a => by simp

theorem add_add_neg (p s : Point) : (p.add s).add s.neg = p := ext_get fun a => by simp

@[simp] theorem neg_neg (p : Point) : p.neg.neg = p := ext_get fun a => by simp

@[simp] theorem add_origin (p : Point) : p.add origin = p := ext_get fun a => by simp

theorem neg_add (s : Point) : s.neg.add s = origin := ext_get fun a => by simp

theorem add_comm (p s : Point) : p.add s = s.add p := ext_get fun a => by simp [Int.add_comm]

theorem add_right_cancel {p q s : Point} (h : p.add s = q.add s) : p = q := by
  rw [← add_add_neg p s, h, add_add_neg]

theorem add_eq_origin {p s : Point} : p.add s = origin ↔ p = s.neg := by
  constructor
  · intro h
    exact add_right_cancel (h.trans (neg_add s).symm)
  · rintro rfl
    exact neg_add s

/-- The point with the given coordinates, as an injection. -/
def ofCoordinates : (Direction → Int) ↪ Point :=
  ⟨Vector.ofFn, fun f g h => funext fun a => by rw [← get_ofFn f a, h, get_ofFn]⟩

theorem ofCoordinates_get (p : Point) : ofCoordinates p.get = p := ext_get fun a => get_ofFn _ a

/-! ### Points in order -/

/-- Lexicographic order: on the first axis along which the points differ, `p` lies below `q`. -/
def Before (p q : Point) : Prop :=
  ∃ a : Direction, (∀ b, b < a → p.get b = q.get b) ∧ p.get a < q.get a

theorem Before.irrefl (p : Point) : ¬p.Before p := fun ⟨_, _, h⟩ => lt_irrefl _ h

theorem Before.trans {p q s : Point} (h : p.Before q) (h' : q.Before s) : p.Before s := by
  obtain ⟨a, hpq, ha⟩ := h
  obtain ⟨b, hqs, hb⟩ := h'
  rcases lt_trichotomy a b with hab | rfl | hba
  · exact ⟨a, fun c hc => (hpq c hc).trans (hqs c (hc.trans hab)), hqs a hab ▸ ha⟩
  · exact ⟨a, fun c hc => (hpq c hc).trans (hqs c hc), ha.trans hb⟩
  · exact ⟨b, fun c hc => (hpq c (hc.trans hba)).trans (hqs c hc), hpq b hba ▸ hb⟩

end Point

namespace Region

/-- Both corners are made of words. -/
def InWords (r : Region) : Prop := ∀ a : Direction, fits (r.lo.get a) = true ∧ fits (r.hi.get a) = true

instance (r : Region) : Decidable r.InWords :=
  inferInstanceAs (Decidable (∀ a : Direction, fits (r.lo.get a) = true ∧ fits (r.hi.get a) = true))

noncomputable def lattice (r : Region) : Finset Point :=
  (Fintype.piFinset fun a => Finset.Ico (r.lo.get a) (r.hi.get a)).map Point.ofCoordinates

theorem mem_lattice {r : Region} {p : Point} : p ∈ r.lattice ↔ r.contains p = true := by
  rw [contains_iff, lattice, Finset.mem_map]
  constructor
  · rintro ⟨f, hf, rfl⟩ a
    have := Finset.mem_Ico.mp (Fintype.mem_piFinset.mp hf a)
    rw [show (Point.ofCoordinates f).get a = f a from get_ofFn f a]
    exact this
  · intro h
    exact ⟨p.get, Fintype.mem_piFinset.mpr fun a => Finset.mem_Ico.mpr (h a), p.ofCoordinates_get⟩

/-- The sum over a region of a product of functions of one coordinate each is the product of the sums
    along the axes. -/
theorem sum_lattice_prod {K : Type} [CommSemiring K] (r : Region) (f : Direction → Int → K) :
    ∑ x ∈ r.lattice, ∏ a, f a (x.get a) =
      ∏ a, ∑ t ∈ Finset.Ico (r.lo.get a) (r.hi.get a), f a t := by
  rw [lattice, Finset.sum_map, Finset.prod_univ_sum]
  refine Finset.sum_congr rfl fun g _ => Finset.prod_congr rfl fun a _ => ?_
  rw [show (Point.ofCoordinates g).get a = g a from get_ofFn g a]

/-! ### Moving -/

theorem contains_shifted {r : Region} {s p : Point} :
    (r.shifted s).contains p = true ↔ r.contains (p.add s.neg) = true := by
  simp only [contains_iff, shifted, Point.get_add, Point.get_neg]
  exact forall_congr' fun a => ⟨fun h => by omega, fun h => by omega⟩

theorem contains_shifted_neg {r : Region} {s p : Point} :
    (r.shifted s.neg).contains p = true ↔ r.contains (p.add s) = true := by
  rw [contains_shifted, Point.neg_neg]

/-! ### Overlap -/

theorem contains_meet {r s : Region} {p : Point} :
    (r.meet s).contains p = true ↔ r.contains p = true ∧ s.contains p = true := by
  simp only [contains_iff, meet, get_ofFn, ← forall_and]
  exact forall_congr' fun a => ⟨fun h => by omega, fun h => by omega⟩

theorem lattice_meet (r s : Region) : (r.meet s).lattice = r.lattice ∩ s.lattice := by
  ext p
  simp only [Finset.mem_inter, mem_lattice, contains_meet]

/-- Two boxes intersect exactly when they have a point in common. -/
theorem intersects_iff_exists {r s : Region} :
    r.intersects s = true ↔ ∃ p, r.contains p = true ∧ s.contains p = true := by
  rw [intersects_iff]
  constructor
  · intro h
    refine ⟨(r.meet s).lo, contains_meet.mp (contains_iff.mpr fun a => ?_)⟩
    have := h a
    simp only [meet, get_ofFn]
    omega
  · rintro ⟨p, hr, hs⟩ a
    have h1 := contains_iff.mp hr a
    have h2 := contains_iff.mp hs a
    omega

theorem intersection?_eq_some {r s q : Region} :
    r.intersection? s = some q ↔ r.intersects s = true ∧ r.meet s = q := by
  unfold intersection?
  split_ifs with h <;> simp [h]

theorem intersection?_eq_none {r s : Region} :
    r.intersection? s = none ↔ r.intersects s = false := by
  unfold intersection?
  split_ifs with h <;> simp [h]

/-- The box of the common points, whether or not there are any. -/
theorem lattice_of_intersection? {r s q : Region} (h : r.intersection? s = some q) :
    q.lattice = r.lattice ∩ s.lattice := by
  rw [← (intersection?_eq_some.mp h).2, lattice_meet]

theorem lattice_disjoint {r s : Region} :
    Disjoint r.lattice s.lattice ↔ r.intersects s = false := by
  rw [Finset.disjoint_left, ← Bool.not_eq_true, intersects_iff_exists, not_exists]
  simp only [mem_lattice, not_and]

/-! ### Size -/

theorem isEmpty_eq_false {r : Region} :
    r.isEmpty = false ↔ ∀ a : Direction, r.lo.get a < r.hi.get a := by
  rw [← Bool.not_eq_true, isEmpty_iff, not_exists]
  exact forall_congr' fun a => by rw [width]; omega

theorem contains_lo {r : Region} (h : r.isEmpty = false) : r.contains r.lo = true :=
  contains_iff.mpr fun a => ⟨le_refl _, isEmpty_eq_false.mp h a⟩

theorem isEmpty_of_contains {r : Region} {p : Point} (h : r.contains p = true) : r.isEmpty = false := by
  refine isEmpty_eq_false.mpr fun a => ?_
  have := contains_iff.mp h a
  omega

theorem lattice_nonempty {r : Region} : r.lattice.Nonempty ↔ r.isEmpty = false := by
  constructor
  · rintro ⟨p, hp⟩
    exact isEmpty_of_contains (mem_lattice.mp hp)
  · intro h
    exact ⟨r.lo, mem_lattice.mpr (contains_lo h)⟩

theorem volume_eq_prod (r : Region) : r.volume = ∏ a, r.extent a := by
  rw [volume, Fin.prod_univ_four]

/-- The volume of a region is the number of its points. -/
theorem card_lattice (r : Region) : (r.lattice.card : Int) = r.volume := by
  rw [lattice, Finset.card_map, Fintype.card_piFinset, volume_eq_prod, Nat.cast_prod]
  refine Finset.prod_congr rfl fun a _ => ?_
  rw [Int.card_Ico, extent, width, Int.toNat_eq_max]

theorem volume_nonneg (r : Region) : 0 ≤ r.volume := by
  rw [← card_lattice]
  exact Int.natCast_nonneg _

/-- A unit region holds its lower corner and nothing else. -/
theorem lattice_of_isUnit {r : Region} (h : r.isUnit = true) : r.lattice = {r.lo} := by
  have hw := isUnit_iff.mp h
  ext p
  rw [Finset.mem_singleton, mem_lattice, contains_iff]
  constructor
  · intro hp
    refine Point.ext_get fun a => ?_
    have h1 := hp a
    have h2 := hw a
    rw [width] at h2
    omega
  · rintro rfl a
    have h2 := hw a
    rw [width] at h2
    omega

theorem contains_of_isUnit {r : Region} (h : r.isUnit = true) {p : Point} :
    r.contains p = true ↔ p = r.lo := by
  rw [← mem_lattice, lattice_of_isUnit h, Finset.mem_singleton]

theorem isUnit_unit (p : Point) : (unit p).isUnit = true :=
  isUnit_iff.mpr fun a => by simp only [width, unit, get_ofFn]; omega

theorem lattice_unit (p : Point) : (unit p).lattice = {p} := lattice_of_isUnit (isUnit_unit p)

end Region
end ClusterDynamics
