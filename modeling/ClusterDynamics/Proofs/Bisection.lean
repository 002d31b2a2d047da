import ClusterDynamics.Proofs.Tiling
import ClusterDynamics.Proofs.Traversal

/-! Halving a region. The children are what is left after cutting along one axis after the other, each time in
    the middle of the region and with words only. They cover the region without sharing a point, as many as
    two halves for each axis that is cut, and come in the order in which a walk meets their lower corners. -/

namespace ClusterDynamics
namespace Region

variable {r c : Region} {mask : AxisMask} {a : Direction}

/-! ### Axes that are cut -/

/-- The mask chooses the axis and it holds at least two values. -/
def isCut (r : Region) (mask : AxisMask) (a : Direction) : Bool := mask.get a && decide (2 ≤ r.width a)

/-- The axes that a bisection cuts, in order. -/
def cutAxes (r : Region) (mask : AxisMask) : List Direction := directions.filter (r.isCut mask)

/-- Where an axis that is cut falls into halves. -/
def middle (r : Region) (a : Direction) : Int := r.lo.get a + r.width a / 2

theorem isCut_iff : r.isCut mask a = true ↔ mask.get a = true ∧ 2 ≤ r.width a := by
  rw [isCut, Bool.and_eq_true, decide_eq_true_eq]

theorem mem_cutAxes : a ∈ r.cutAxes mask ↔ r.isCut mask a = true := by
  rw [cutAxes, List.mem_filter, and_iff_right (mem_directions a)]

theorem lt_middle (h : 2 ≤ r.width a) : r.lo.get a < r.middle a ∧ r.middle a < r.hi.get a := by
  have hwidth : r.hi.get a - r.lo.get a = r.width a := rfl
  rw [middle]
  omega

theorem halves_of_isCut (h : r.isCut mask a = true) :
    r.halves mask a = [(r.lo.get a, r.middle a), (r.middle a, r.hi.get a)] := halves_cut h

theorem halves_of_not_isCut (h : r.isCut mask a = false) :
    r.halves mask a = [(r.lo.get a, r.hi.get a)] := halves_whole (Bool.eq_false_iff.mp h)

/-- There are two halves for each axis that is cut. -/
theorem length_bisect_eq_pow (r : Region) (mask : AxisMask) :
    (r.bisect mask).length = 2 ^ (r.cutAxes mask).length := by
  have hhalves : ∀ a, (r.halves mask a).length = if r.isCut mask a then 2 else 1 := fun a => by
    split_ifs with h
    · rw [halves_of_isCut h]
      rfl
    · rw [halves_of_not_isCut (Bool.eq_false_iff.mpr h)]
      rfl
  have hpow : ∀ axes : List Direction, 2 ^ (axes.filter (r.isCut mask)).length =
      (axes.map fun a => (r.halves mask a).length).prod := fun axes => by
    induction axes with
    | nil => rfl
    | cons a axes ih =>
      rw [List.filter_cons, List.map_cons, List.prod_cons, ← ih, hhalves]
      split_ifs
      · rw [List.length_cons, Nat.pow_succ, Nat.mul_comm]
      · rw [Nat.one_mul]
  rw [cutAxes, hpow, length_bisect]
  simp only [directions, List.map_cons, List.map_nil, List.prod_cons, List.prod_nil, Nat.mul_one]

/-! ### One axis after the other -/

/-- One turn of the loop over the axes: every child of before falls in two in the middle of the region, if the
    mask chooses the axis and it is long enough. There is no result when a number leaves the words. -/
def cutAlong? (r : Region) (mask : AxisMask) (children : List Region) (a : Direction) :
    Option (List Region) :=
  if !mask.get a then some children
  else if !fits (r.width a) then none
  else if r.width a < 2 then some children
  else if !fits (r.middle a) then none
  else some (children.flatMap fun c =>
    [⟨c.lo, c.hi.withCoordinate a (r.middle a)⟩, ⟨c.lo.withCoordinate a (r.middle a), c.hi⟩])

/-- The box with the given range on one axis. -/
def withRange (c : Region) (a : Direction) (i : Int × Int) : Region :=
  ⟨c.lo.withCoordinate a i.1, c.hi.withCoordinate a i.2⟩

/-- Every child of before takes each of the halves. -/
def cutAlong (r : Region) (mask : AxisMask) (children : List Region) (a : Direction) : List Region :=
  children.flatMap fun c => (r.halves mask a).map (c.withRange a)

/-- The box still has the whole axis. -/
def Spans (r c : Region) (a : Direction) : Prop := c.lo.get a = r.lo.get a ∧ c.hi.get a = r.hi.get a

theorem spans_withRange (c : Region) {a b : Direction} (h : b ≠ a) (i : Int × Int) :
    c.Spans (c.withRange a i) b := by
  simp only [Spans, withRange, Point.get_withCoordinate, if_neg h, and_self]

/-- What becomes of a child that still has the whole axis. -/
theorem map_withRange (h : r.Spans c a) : (r.halves mask a).map (c.withRange a) =
    if r.isCut mask a then
      [⟨c.lo, c.hi.withCoordinate a (r.middle a)⟩, ⟨c.lo.withCoordinate a (r.middle a), c.hi⟩]
    else [c] := by
  have hlo : c.lo.withCoordinate a (r.lo.get a) = c.lo := by rw [← h.1, Point.withCoordinate_get]
  have hhi : c.hi.withCoordinate a (r.hi.get a) = c.hi := by rw [← h.2, Point.withCoordinate_get]
  split_ifs with hcut
  · rw [halves_of_isCut hcut]
    simp only [List.map_cons, List.map_nil, withRange, hlo, hhi]
  · rw [halves_of_not_isCut (Bool.eq_false_iff.mpr hcut)]
    simp only [List.map_cons, List.map_nil, withRange, hlo, hhi]

/-- A turn is made with words when the width of the axis is one. -/
theorem cutAlong?_eq (hwords : r.InWords) (hfits : r.bisectFits mask = true) {children : List Region}
    (hspans : ∀ c ∈ children, r.Spans c a) :
    r.cutAlong? mask children a = some (r.cutAlong mask children a) := by
  have hchildren : r.cutAlong mask children a = children.flatMap fun c =>
      if r.isCut mask a then
        [⟨c.lo, c.hi.withCoordinate a (r.middle a)⟩, ⟨c.lo.withCoordinate a (r.middle a), c.hi⟩]
      else [c] := List.flatMap_congr fun c hc => map_withRange (hspans c hc)
  have hchecked := List.all_eq_true.mp hfits a (mem_directions a)
  rw [hchildren, cutAlong?, isCut]
  cases hmask : mask.get a with
  | false => simp
  | true =>
    have hwidth : fits (r.width a) = true := by rwa [hmask, Bool.not_true, Bool.false_or] at hchecked
    by_cases hlong : r.width a < 2
    · have : ¬2 ≤ r.width a := not_le.mpr hlong
      simp [hwidth, hlong, this]
    · have hmiddle : fits (r.middle a) = true := by
        obtain ⟨hlo, hhi⟩ := hwords a
        have := lt_middle (not_lt.mp hlong)
        rw [fits_iff] at hlo hhi ⊢
        omega
      simp [hwidth, hlong, hmiddle, not_lt.mp hlong]

/-- The loop is made with words as far as it goes. -/
theorem foldlM_cutAlong? (hwords : r.InWords) (hfits : r.bisectFits mask = true) {axes : List Direction}
    (haxes : axes.Nodup) {children : List Region} (hspans : ∀ a ∈ axes, ∀ c ∈ children, r.Spans c a) :
    axes.foldlM (r.cutAlong? mask) children = some (axes.foldl (r.cutAlong mask) children) := by
  induction axes generalizing children with
  | nil => rfl
  | cons a axes ih =>
    obtain ⟨ha, hrest⟩ := List.nodup_cons.mp haxes
    rw [List.foldlM_cons, cutAlong?_eq hwords hfits (hspans a List.mem_cons_self), List.foldl_cons]
    refine ih hrest fun b hb d hd => ?_
    obtain ⟨c, hc, hd⟩ := List.mem_flatMap.mp hd
    obtain ⟨i, -, rfl⟩ := List.mem_map.mp hd
    have hne : b ≠ a := fun h => ha (h ▸ hb)
    -- The axes to come are still whole.
    obtain ⟨hlo, hhi⟩ := hspans b (List.mem_cons_of_mem a hb) c hc
    obtain ⟨hlo', hhi'⟩ := spans_withRange c hne i
    exact ⟨hlo'.trans hlo, hhi'.trans hhi⟩

/-- Cutting along all axes gives the boxes of all combinations of halves. -/
theorem foldl_cutAlong (r : Region) (mask : AxisMask) :
    directions.foldl (r.cutAlong mask) [r] = r.bisect mask := by
  have hbox : ∀ w x y, (((r.withRange Direction.first w).withRange Direction.second x).withRange
      Direction.third y).withRange Direction.fourth = ofRanges w x y := fun w x y => by
    funext z
    refine congrArg₂ Region.mk (Point.ext_get fun b => ?_) (Point.ext_get fun b => ?_) <;>
      fin_cases b <;> rfl
  simp only [directions, List.foldl_cons, List.foldl_nil, cutAlong, List.flatMap_singleton,
    List.flatMap_assoc, List.flatMap_map, bisect, hbox]

/-! ### Partition -/

/-- Every point of a region lies in exactly one of its children. -/
theorem existsUnique_mem_bisect (mask : AxisMask) {p : Point} (h : r.contains p = true) :
    ∃! c, c ∈ r.bisect mask ∧ c.contains p = true := by
  obtain ⟨c, hc, hp⟩ := exists_mem_bisect mask h
  refine ⟨c, ⟨hc, hp⟩, fun d ⟨hd, hdp⟩ => ?_⟩
  by_contra hne
  have hsymm : Std.Symm Apart := ⟨fun _ _ => Apart.symm⟩
  have hapart := apart_iff.mp ((pairwise_bisect r mask).forall hd hc hne) p hdp
  rw [hp] at hapart
  cases hapart

/-- An axis that is not cut stays as it is. -/
theorem spans_of_mem_bisect (hc : c ∈ r.bisect mask) (h : r.isCut mask a = false) : r.Spans c a := by
  have hrange := range_mem_halves hc a
  rw [halves_of_not_isCut h, List.mem_singleton, Prod.mk.injEq] at hrange
  exact hrange

/-- Of an axis that is cut a child has the one half or the other. -/
theorem half_of_mem_bisect (hc : c ∈ r.bisect mask) (h : r.isCut mask a = true) :
    (c.lo.get a = r.lo.get a ∧ c.hi.get a = r.middle a) ∨
      (c.lo.get a = r.middle a ∧ c.hi.get a = r.hi.get a) := by
  have hrange := range_mem_halves hc a
  rw [halves_of_isCut h, List.mem_pair, Prod.mk.injEq, Prod.mk.injEq] at hrange
  exact hrange

/-- Children of a region with points have points. -/
theorem isEmpty_of_mem_bisect (h : r.isEmpty = false) (hc : c ∈ r.bisect mask) : c.isEmpty = false := by
  refine isEmpty_eq_false.mpr fun a => ?_
  have hr := isEmpty_eq_false.mp h a
  cases hcut : r.isCut mask a with
  | false =>
    obtain ⟨hlo, hhi⟩ := spans_of_mem_bisect hc hcut
    omega
  | true =>
    have hmiddle := lt_middle (isCut_iff.mp hcut).2
    rcases half_of_mem_bisect hc hcut with ⟨hlo, hhi⟩ | ⟨hlo, hhi⟩ <;> omega

theorem bisect_of_not_isCut (h : ∀ a, r.isCut mask a = false) : r.bisect mask = [r] := by
  have hnone : r.cutAxes mask = [] := List.filter_eq_nil_iff.mpr fun a _ => Bool.eq_false_iff.mp (h a)
  have hlength := length_bisect_eq_pow r mask
  rw [hnone, List.length_nil, Nat.pow_zero] at hlength
  obtain ⟨c, hc⟩ := List.length_eq_one_iff.mp hlength
  have hspans := fun a => spans_of_mem_bisect (hc ▸ List.mem_singleton_self c) (h a)
  have heq : c = r := congrArg₂ Region.mk (Point.ext_get fun a => (hspans a).1)
    (Point.ext_get fun a => (hspans a).2)
  rw [hc, heq]

/-- The children of a region partition it. -/
structure Bisected (r : Region) (mask : AxisMask) : Prop where
  /-- Cutting along one axis after the other with words gives the children. -/
  loop : directions.foldlM (r.cutAlong? mask) [r] = some (r.bisect mask)
  length : (r.bisect mask).length = 2 ^ (r.cutAxes mask).length
  whole : r.cutAxes mask = [] → r.bisect mask = [r]
  /-- The lower corners of the children ascend lexicographically. -/
  ordered : (r.bisect mask).Pairwise fun c d => c.lo.Before d.lo
  existsUnique : ∀ p, r.contains p = true → ∃! c, c ∈ r.bisect mask ∧ c.contains p = true
  within : ∀ c ∈ r.bisect mask, ∀ p, c.contains p = true → r.contains p = true
  nonempty : r.isEmpty = false → ∀ c ∈ r.bisect mask, c.isEmpty = false
  kept : ∀ c ∈ r.bisect mask, ∀ a, mask.get a = false ∨ r.width a ≤ 1 →
    c.lo.get a = r.lo.get a ∧ c.hi.get a = r.hi.get a
  /-- The halves of an axis are equally wide, up to one value. -/
  halved : ∀ a, mask.get a = true → 2 ≤ r.width a → ∃ middle,
    |(middle - r.lo.get a) - (r.hi.get a - middle)| ≤ 1 ∧ ∀ c ∈ r.bisect mask,
      (c.lo.get a = r.lo.get a ∧ c.hi.get a = middle) ∨ (c.lo.get a = middle ∧ c.hi.get a = r.hi.get a)

/-- Every region is partitioned by its children, as long as the widths of the chosen axes are words. -/
theorem bisected_of_bisectFits (hwords : r.InWords) (hfits : r.bisectFits mask = true) : r.Bisected mask where
  loop := by
    rw [foldlM_cutAlong? hwords hfits (by decide) fun a _ c hc => ?_, foldl_cutAlong]
    rw [List.mem_singleton.mp hc]
    exact ⟨rfl, rfl⟩
  length := length_bisect_eq_pow r mask
  whole hnone := bisect_of_not_isCut fun a => by
    rw [← Bool.not_eq_true, ← mem_cutAxes, hnone]
    exact List.not_mem_nil
  ordered := (precedes_bisect r mask).imp fun ⟨a, hsame, hlt, _⟩ => ⟨a, hsame, hlt⟩
  existsUnique _ hp := existsUnique_mem_bisect mask hp
  within _ hc _ hp := (within_of_mem_bisect hc).contains hp
  nonempty h _ hc := isEmpty_of_mem_bisect h hc
  kept c hc a ha := spans_of_mem_bisect hc (Bool.eq_false_iff.mpr fun hcut => by
    obtain ⟨hmask, hwide⟩ := isCut_iff.mp hcut
    rcases ha with ha | ha
    · cases hmask.symm.trans ha
    · omega)
  halved a hmask hwide := by
    refine ⟨r.middle a, ?_, fun c hc => half_of_mem_bisect hc (isCut_iff.mpr ⟨hmask, hwide⟩)⟩
    have hwidth : r.hi.get a - r.lo.get a = r.width a := rfl
    rw [abs_le, middle]
    omega

/-- Seven values from -5 on, one value, five values and two: along the first and the third axis the region is
    cut, at -2 and at 0, and the fourth one is not chosen. -/
theorem bisected_odd :
    let r : Region := ⟨#v[-5, 9, -2, 0], #v[2, 10, 3, 2]⟩
    let mask : AxisMask := #v[true, true, true, false]
    r.InWords ∧ r.bisectFits mask = true ∧ (r.bisect mask).length = 4 ∧
      (∃! c, c ∈ r.bisect mask ∧ c.contains #v[-2, 9, -1, 1] = true) ∧
      ∀ c ∈ r.bisect mask, c.lo.get 1 = 9 ∧ c.hi.get 1 = 10 ∧ c.lo.get 3 = 0 ∧ c.hi.get 3 = 2 := by
  intro r mask
  have hwords : r.InWords := by decide
  have B : r.Bisected mask := bisected_of_bisectFits hwords (by decide)
  refine ⟨hwords, by decide, B.length.trans (by decide), B.existsUnique _ (by decide), fun c hc => ?_⟩
  obtain ⟨hlo, hhi⟩ := B.kept c hc 1 (.inr (by decide))
  obtain ⟨hlo', hhi'⟩ := B.kept c hc 3 (.inl (by decide))
  exact ⟨hlo, hhi, hlo', hhi'⟩

end Region
end ClusterDynamics
