import ClusterDynamics.Region.Points
import ClusterDynamics.Proofs.Lattice

/-! Walking a region. A step moves from a point to the next one in lexicographic order, and the walk ends at
    the last place: it stands at every point of the region once, as often as the volume says. The step is
    that of an odometer, whose last wheel runs fastest. No wheel leaves the words, because a wheel is only
    turned while it shows a coordinate below its upper bound. -/

namespace ClusterDynamics

namespace Point

/-- The point with another coordinate on one axis. -/
def withCoordinate (p : Point) (a : Direction) (x : Int) : Point :=
  Vector.ofFn fun b => if b = a then x else p.get b

theorem get_withCoordinate (p : Point) (a : Direction) (x : Int) (b : Direction) :
    (p.withCoordinate a x).get b = if b = a then x else p.get b := get_ofFn _ b

theorem withCoordinate_get (p : Point) (a : Direction) : p.withCoordinate a (p.get a) = p := by
  refine ext_get fun b => ?_
  rw [get_withCoordinate]
  split_ifs with hb
  · rw [hb]
  · rfl

end Point

namespace Region

variable {r : Region} {p q : Point} {a : Direction}

/-! ### Places -/

/-- The place of a point in lexicographic order. -/
def rank (r : Region) (p : Point) : Int :=
  directions.foldl (fun n a => n * r.width a + (p.get a - r.lo.get a)) 0

theorem rank_lo (r : Region) : r.rank r.lo = 0 := by
  simp [rank, directions]

theorem extent_of_contains (hp : r.contains p = true) (a : Direction) : r.extent a = r.width a := by
  have hin := contains_iff.mp hp a
  rw [extent, width]
  omega

/-- The places of the points lie below the volume. -/
theorem rank_lt (hp : r.contains p = true) : r.rank p < r.volume := by
  have hdigit : ∀ {n k : Int} (a : Direction), n < k →
      n * r.width a + (p.get a - r.lo.get a) < k * r.width a := fun {n k} a h => by
    have hin := contains_iff.mp hp a
    have hwidth : p.get a - r.lo.get a < r.width a := by rw [width]; omega
    have hpos : 0 ≤ r.width a := by rw [width]; omega
    nlinarith
  have hfirst : p.get Direction.first - r.lo.get Direction.first < r.width Direction.first := by
    simpa using hdigit Direction.first (Int.zero_lt_one)
  simp only [rank, directions, List.foldl_cons, List.foldl_nil, zero_mul, zero_add, volume,
    extent_of_contains hp]
  exact hdigit _ (hdigit _ (hdigit _ hfirst))

theorem volume_of_isEmpty (h : r.isEmpty = true) : r.volume = 0 := by
  rw [← card_lattice, Nat.cast_eq_zero, Finset.card_eq_zero, ← Finset.not_nonempty_iff_eq_empty,
    lattice_nonempty, h]
  exact Bool.noConfusion

/-! ### Steps -/

theorem hasRoom_eq_false (hp : r.contains p = true) (h : r.hasRoom p a = false) :
    p.get a - r.lo.get a = r.width a - 1 := by
  have hlt : ¬p.get a + 1 < r.hi.get a := of_decide_eq_false h
  have hin := contains_iff.mp hp a
  rw [width]
  omega

theorem contains_grow (hp : r.contains p = true) (h : r.hasRoom p a = true) :
    r.contains (r.grow p a) = true := by
  have hlt : p.get a + 1 < r.hi.get a := of_decide_eq_true h
  refine contains_iff.mpr fun b => ?_
  have hin := contains_iff.mp hp b
  rw [grow, get_ofFn]
  split_ifs with hb he
  · exact hin
  · subst he
    omega
  · omega

theorem before_grow (r : Region) (p : Point) (a : Direction) : p.Before (r.grow p a) := by
  refine ⟨a, fun b hb => ?_, ?_⟩
  · rw [grow, get_ofFn, if_pos hb]
  · rw [grow, get_ofFn, if_neg (lt_irrefl a), if_pos rfl]
    exact Int.lt_succ _

/-- Growing the last axis that has room moves to the next place. -/
theorem rank_grow (hp : r.contains p = true) (hfull : ∀ b, a < b → r.hasRoom p b = false) :
    r.rank (r.grow p a) = r.rank p + 1 := by
  have hlast : ∀ b, a < b → p.get b - r.lo.get b = r.width b - 1 := fun b hb =>
    hasRoom_eq_false hp (hfull b hb)
  have hgrow : ∀ b, (r.grow p a).get b - r.lo.get b =
      if b < a then p.get b - r.lo.get b
      else if b = a then p.get b - r.lo.get b + 1 else 0 := fun b => by
    rw [grow, get_ofFn]
    split_ifs <;> ring
  simp only [rank, directions, List.foldl_cons, List.foldl_nil, hgrow, Direction.first,
    Direction.second, Direction.third, Direction.fourth]
  -- digits before the axis stay, its own digit grows, those behind it fall from full to zero
  have haxes : ∀ b : Direction, b = 0 ∨ b = 1 ∨ b = 2 ∨ b = 3 := by decide
  obtain rfl | rfl | rfl | rfl := haxes a
  · simp [hlast 1 (by decide), hlast 2 (by decide), hlast 3 (by decide)]
    ring
  · simp [hlast 2 (by decide), hlast 3 (by decide)]
    ring
  · simp [hlast 3 (by decide)]
    ring
  · simp
    ring

/-- A point without room on any axis is in the last place. -/
theorem rank_last (hp : r.contains p = true) (hfull : ∀ a, r.hasRoom p a = false) :
    r.rank p + 1 = r.volume := by
  have hlast := fun a => hasRoom_eq_false hp (hfull a)
  simp only [rank, directions, List.foldl_cons, List.foldl_nil, hlast, volume, extent_of_contains hp]
  ring

/-- A step grows the last axis that has room; without one the walk ends. -/
theorem next?_eq (r : Region) (p : Point) :
    (∃ a, r.hasRoom p a = true ∧ (∀ b, a < b → r.hasRoom p b = false) ∧ r.next? p = some (r.grow p a)) ∨
      ((∀ a, r.hasRoom p a = false) ∧ r.next? p = none) := by
  cases hf : directions.reverse.find? (r.hasRoom p) with
  | none =>
    refine .inr ⟨fun a => ?_, by rw [next?, hf, Option.map_none]⟩
    exact Bool.not_eq_true _ ▸ List.find?_eq_none.mp hf a (List.mem_reverse.mpr (mem_directions a))
  | some a =>
    obtain ⟨hroom, later, earlier, hsplit, hlater⟩ := List.find?_eq_some_iff_append.mp hf
    refine .inl ⟨a, hroom, fun b hb => ?_, by rw [next?, hf, Option.map_some]⟩
    have hsorted : (later ++ a :: earlier).Pairwise (· > ·) := hsplit ▸ by decide
    have hmem : b ∈ later ++ a :: earlier := hsplit ▸ List.mem_reverse.mpr (mem_directions b)
    rcases List.mem_append.mp hmem with hb' | hb'
    · simpa using hlater b hb'
    · rcases List.mem_cons.mp hb' with rfl | hb'
      · exact absurd hb (lt_irrefl _)
      · have := List.rel_of_pairwise_cons (List.pairwise_append.mp hsorted).2.1 hb'
        exact absurd hb (not_lt_of_gt this)

/-- A step leads to a later point of the region, in the next place. -/
theorem of_next?_eq_some (hp : r.contains p = true) (h : r.next? p = some q) :
    r.contains q = true ∧ r.rank q = r.rank p + 1 ∧ p.Before q := by
  obtain ⟨a, hroom, hfull, hnext⟩ | ⟨-, hnone⟩ := r.next?_eq p
  · cases hnext.symm.trans h
    exact ⟨contains_grow hp hroom, rank_grow hp hfull, before_grow r p a⟩
  · cases hnone.symm.trans h

theorem of_next?_eq_none (hp : r.contains p = true) (h : r.next? p = none) : r.rank p + 1 = r.volume := by
  obtain ⟨a, -, -, hnext⟩ | ⟨hfull, -⟩ := r.next?_eq p
  · cases hnext.symm.trans h
  · exact rank_last hp hfull

/-! ### The course of a walk -/

/-- Where the walk stands after a number of steps; `none` when it has ended. -/
def standing (r : Region) : Nat → Option Point
  | 0 => r.first?
  | i + 1 => (r.standing i).bind r.next?

/-- After `i` steps the walk stands in place `i`. -/
theorem of_standing {i : Nat} (h : r.standing i = some p) : r.contains p = true ∧ r.rank p = i := by
  induction i generalizing p with
  | zero =>
    rw [standing, first?] at h
    split_ifs at h with hempty
    cases h
    exact ⟨contains_lo (Bool.eq_false_iff.mpr hempty), rank_lo r⟩
  | succ i ih =>
    obtain ⟨q, hq, hnext⟩ := Option.bind_eq_some_iff.mp h
    obtain ⟨hin, hrank⟩ := ih hq
    obtain ⟨hp, hsucc, -⟩ := of_next?_eq_some hin hnext
    exact ⟨hp, by rw [hsucc, hrank, Nat.cast_succ]⟩

/-- The walk ends after as many points as the volume says. -/
theorem standing_eq_none (r : Region) (i : Nat) : r.standing i = none ↔ r.volume ≤ i := by
  constructor
  · intro h
    induction i with
    | zero =>
      rw [standing, first?] at h
      split_ifs at h with hempty
      exact (volume_of_isEmpty hempty).le
    | succ i ih =>
      cases hi : r.standing i with
      | none => exact (ih hi).trans (by omega)
      | some p =>
        obtain ⟨hp, hrank⟩ := of_standing hi
        rw [standing, hi, Option.bind_some] at h
        have := of_next?_eq_none hp h
        omega
  · intro hvol
    refine Option.eq_none_iff_forall_ne_some.mpr fun p hp => ?_
    obtain ⟨hin, hrank⟩ := of_standing hp
    have := rank_lt hin
    omega

theorem getElem?_walk (r : Region) (n i j : Nat) :
    (r.walk n (r.standing i))[j]? = if j < n then r.standing (i + j) else none := by
  induction n generalizing i j with
  | zero => rfl
  | succ n ih =>
    cases hi : r.standing i with
    | none =>
      have hvol := (standing_eq_none r i).mp hi
      rw [(standing_eq_none r (i + j)).mpr (by omega), ite_self]
      rfl
    | some p =>
      cases j with
      | zero => rw [walk, List.getElem?_cons_zero, if_pos n.succ_pos, Nat.add_zero, hi]
      | succ j =>
        have hnext : r.next? p = r.standing (i + 1) := by rw [standing, hi, Option.bind_some]
        rw [walk, List.getElem?_cons_succ, hnext, ih, Nat.add_right_comm, Nat.add_assoc]
        simp only [Nat.add_lt_add_iff_right]

/-- The points come in the order in which the walk stands at them. -/
theorem getElem?_points (r : Region) (i : Nat) : r.points[i]? = r.standing i := by
  rw [points, firstPoints, ← standing, getElem?_walk, Nat.zero_add]
  split_ifs with hi
  · rfl
  · exact ((standing_eq_none r i).mpr (by omega)).symm

theorem length_points (r : Region) : (r.points.length : Int) = r.volume := by
  have hlength : ∀ i : Nat, r.points.length ≤ i ↔ r.volume ≤ i := fun i => by
    rw [← List.getElem?_eq_none_iff, getElem?_points, standing_eq_none]
  have hvol := r.volume_nonneg
  have h1 := (hlength r.points.length).mp le_rfl
  have h2 := (hlength r.volume.toNat).mpr (by omega)
  omega

theorem contains_of_mem_points (h : p ∈ r.points) : r.contains p = true := by
  obtain ⟨i, hi⟩ := List.mem_iff_getElem?.mp h
  rw [getElem?_points] at hi
  exact (of_standing hi).1

/-- The walk meets the points in lexicographic order. -/
theorem pairwise_points (r : Region) : r.points.Pairwise Point.Before := by
  have htrans : Trans Point.Before Point.Before Point.Before := ⟨Point.Before.trans⟩
  refine List.isChain_iff_pairwise.mp (List.isChain_iff_getElem.mpr fun i hi => ?_)
  have hthis : r.standing i = some r.points[i] := by
    rw [← getElem?_points, List.getElem?_eq_getElem]
  have hnext : r.standing (i + 1) = some r.points[i + 1] := by
    rw [← getElem?_points, List.getElem?_eq_getElem]
  rw [standing, hthis, Option.bind_some] at hnext
  exact (of_next?_eq_some (of_standing hthis).1 hnext).2.2

theorem nodup_points (r : Region) : r.points.Nodup :=
  (pairwise_points r).imp fun {p q} h => by
    rintro rfl
    exact Point.Before.irrefl p h

theorem toFinset_points (r : Region) : r.points.toFinset = r.lattice := by
  -- as many points as the region has, all of them in it
  refine Finset.eq_of_subset_of_card_le (fun p hp => ?_) ?_
  · exact mem_lattice.mpr (contains_of_mem_points (List.mem_toFinset.mp hp))
  · rw [List.toFinset_card_of_nodup (nodup_points r)]
    have := card_lattice r
    have := length_points r
    omega

theorem mem_points : p ∈ r.points ↔ r.contains p = true := by
  rw [← List.mem_toFinset, toFinset_points, mem_lattice]

/-- The sum over the visited points is the sum over the region. -/
theorem sum_points {M : Type} [AddCommMonoid M] (r : Region) (f : Point → M) :
    (r.points.map f).sum = ∑ x ∈ r.lattice, f x := by
  rw [← toFinset_points, List.sum_toFinset f (nodup_points r)]

/-! ### The odometer -/

/-- The step as an odometer makes it, with its last wheel first: a wheel is turned on, and when that leads
    beyond its last coordinate it goes back to its first one and the wheel before it is turned. There is no
    result when a coordinate leaves the words. -/
def turn? (r : Region) (p : Point) : List Direction → Option (Option Point)
  | [] => some none
  | a :: axes =>
    if fits (p.get a + 1) then
      if p.get a + 1 < r.hi.get a then some (some (p.withCoordinate a (p.get a + 1)))
      else r.turn? (p.withCoordinate a (r.lo.get a)) axes
    else none

/-- A coordinate below an upper bound can grow. -/
theorem fits_succ (hwords : r.InWords) (hp : r.contains p = true) (a : Direction) :
    fits (p.get a + 1) = true := by
  obtain ⟨hlo, hhi⟩ := hwords a
  have hin := contains_iff.mp hp a
  rw [fits_iff] at hlo hhi ⊢
  omega

/-- When the wheels behind the remaining ones are back at their first coordinates, turning the remaining ones
    makes the step. -/
theorem turn?_eq (hwords : r.InWords) (hp : r.contains p = true) {axes : List Direction}
    (hsorted : axes.Pairwise (· > ·)) (hbelow : ∀ a ∈ axes, ∀ b, b < a → b ∈ axes)
    (hq : ∀ b, q.get b = if b ∈ axes then p.get b else r.lo.get b) :
    r.turn? q axes = some ((axes.find? (r.hasRoom p)).map (r.grow p)) := by
  induction axes generalizing q with
  | nil => rfl
  | cons a axes ih =>
    obtain ⟨hfirst, hrest⟩ := List.pairwise_cons.mp hsorted
    have hmem : ∀ b, b ∈ axes ↔ b < a := fun b => by
      refine ⟨hfirst b, fun hb => ?_⟩
      rcases List.mem_cons.mp (hbelow a List.mem_cons_self b hb) with rfl | hb'
      · exact absurd hb (lt_irrefl b)
      · exact hb'
    have hqa : q.get a = p.get a := by rw [hq, if_pos List.mem_cons_self]
    -- Whatever the wheel shows next, those before it have not moved and those behind it are at their start.
    have hturned : ∀ x b, (q.withCoordinate a x).get b =
        if b < a then p.get b else if b = a then x else r.lo.get b := fun x b => by
      rw [Point.get_withCoordinate, hq]
      simp only [List.mem_cons, hmem]
      rcases lt_trichotomy b a with hb | rfl | hb
      · rw [if_neg hb.ne, if_pos (.inr hb), if_pos hb]
      · rw [if_pos rfl, if_neg (lt_irrefl b), if_pos rfl]
      · rw [if_neg hb.ne', if_neg (not_or.mpr ⟨hb.ne', hb.not_gt⟩), if_neg hb.not_gt, if_neg hb.ne']
    rw [turn?, hqa, if_pos (fits_succ hwords hp a), List.find?_cons]
    by_cases hroom : p.get a + 1 < r.hi.get a
    · rw [if_pos hroom, show r.hasRoom p a = true from decide_eq_true hroom, Option.map_some]
      refine congrArg (fun x => some (some x)) (Point.ext_get fun b => ?_)
      rw [hturned, grow, get_ofFn]
      refine if_congr Iff.rfl rfl ?_
      split_ifs with hb
      · rw [hb]
      · rfl
    · rw [if_neg hroom, show r.hasRoom p a = false from decide_eq_false hroom]
      refine ih hrest (fun c hc b hb => (hmem b).mpr (hb.trans ((hmem c).mp hc))) fun b => ?_
      rw [hturned, if_congr (hmem b) rfl rfl]
      refine if_congr Iff.rfl rfl ?_
      split_ifs with hb
      · rw [hb]
      · rfl

/-- From every point of a region the odometer makes the step of the walk. -/
theorem turn?_directions (hwords : r.InWords) (hp : r.contains p = true) :
    r.turn? p directions.reverse = some (r.next? p) :=
  turn?_eq hwords hp (by decide) (by decide) fun b => by
    rw [if_pos (List.mem_reverse.mpr (mem_directions b))]

/-! ### Enumeration -/

/-- The walk enumerates the points of the region. -/
structure Enumerated (r : Region) : Prop where
  mem_iff : ∀ p, p ∈ r.points ↔ r.contains p = true
  /-- The points ascend lexicographically, so that none comes twice. -/
  ascending : r.points.Pairwise Point.Before
  nodup : r.points.Nodup
  length : (r.points.length : Int) = r.volume
  /-- Step by step the walk stands at these points, and then it has ended. -/
  standing : ∀ i, r.standing i = r.points[i]?
  ended : ∀ i : Nat, r.standing i = none ↔ r.volume ≤ i
  empty : r.isEmpty = true → r.points = []
  /-- Every step can be made with words. -/
  steps : ∀ p ∈ r.points, r.turn? p directions.reverse = some (r.next? p)

/-- Every region whose corners are made of words is enumerated by its walk. -/
theorem enumerated_of_inWords (hwords : r.InWords) : r.Enumerated where
  mem_iff _ := mem_points
  ascending := pairwise_points r
  nodup := nodup_points r
  length := length_points r
  standing i := (getElem?_points r i).symm
  ended := standing_eq_none r
  empty hempty := by
    rw [← List.length_eq_zero_iff, ← Int.natCast_eq_zero, length_points, volume_of_isEmpty hempty]
  steps _ hp := turn?_directions hwords (contains_of_mem_points hp)

/-- A region that ends at the largest word is walked in four steps, the last of which sends both wheels back
    and ends the walk. -/
theorem enumerated_corner :
    let r : Region := ⟨#v[9223372036854775805, -1, 0, 0], #v[9223372036854775807, 1, 1, 1]⟩
    r.InWords ∧ r.volume = 4 ∧ r.points.length = 4 ∧ r.standing 4 = none ∧
      r.turn? #v[9223372036854775806, 0, 0, 0] directions.reverse = some none := by
  intro r
  have hwords : r.InWords := by decide
  have E := enumerated_of_inWords hwords
  have hvolume : r.volume = 4 := by decide
  have hlast : #v[9223372036854775806, 0, 0, 0] ∈ r.points := (E.mem_iff _).mpr (by decide)
  refine ⟨hwords, hvolume, by exact_mod_cast E.length.trans hvolume, (E.ended 4).mpr hvolume.le, ?_⟩
  rw [E.steps _ hlast]
  decide

end Region
end ClusterDynamics
