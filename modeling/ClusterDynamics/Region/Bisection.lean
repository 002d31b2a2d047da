import ClusterDynamics.Region

/-! Halving a region along chosen axes. Each chosen axis that holds at least two values is cut in the
    middle, and the children are the boxes of all combinations of halves. -/

namespace ClusterDynamics
namespace Region

/-- The half-open ranges that one axis falls into: two halves when the axis is chosen and long
    enough, the whole axis otherwise. -/
def halves (r : Region) (mask : AxisMask) (a : Direction) : List (Int × Int) :=
  if mask.get a && decide (2 ≤ r.width a) then
    let middle := r.lo.get a + r.width a / 2
    [(r.lo.get a, middle), (middle, r.hi.get a)]
  else [(r.lo.get a, r.hi.get a)]

/-- The box with the given half-open range on each axis. -/
def ofRanges (w x y z : Int × Int) : Region :=
  ⟨#v[w.1, x.1, y.1, z.1], #v[w.2, x.2, y.2, z.2]⟩

/-- The children of a region, in lexicographic order of their lower corners; the region alone when no
    chosen axis can be cut. -/
def bisect (r : Region) (mask : AxisMask) : List Region :=
  (r.halves mask Direction.first).flatMap fun w =>
    (r.halves mask Direction.second).flatMap fun x =>
      (r.halves mask Direction.third).flatMap fun y =>
        (r.halves mask Direction.fourth).map fun z => ofRanges w x y z

/-- The sum of the extents, which every cut makes smaller. -/
def span (r : Region) : Nat :=
  (r.width Direction.first).toNat + (r.width Direction.second).toNat
    + (r.width Direction.third).toNat + (r.width Direction.fourth).toNat

theorem halves_cut {r : Region} {mask : AxisMask} {a : Direction}
    (h : mask.get a && decide (2 ≤ r.width a)) :
    r.halves mask a =
      [(r.lo.get a, r.lo.get a + r.width a / 2), (r.lo.get a + r.width a / 2, r.hi.get a)] := by
  rw [halves, if_pos h]

theorem halves_whole {r : Region} {mask : AxisMask} {a : Direction}
    (h : ¬(mask.get a && decide (2 ≤ r.width a))) : r.halves mask a = [(r.lo.get a, r.hi.get a)] := by
  rw [halves, if_neg h]

/-- A range of an axis is no longer than the axis, and shorter when there are two of them. -/
theorem halves_short {r : Region} {mask : AxisMask} {a : Direction} {i : Int × Int}
    (hi : i ∈ r.halves mask a) :
    (i.2 - i.1).toNat ≤ (r.width a).toNat ∧
      (1 < (r.halves mask a).length → (i.2 - i.1).toNat < (r.width a).toNat) := by
  by_cases h : mask.get a && decide (2 ≤ r.width a)
  · rw [halves_cut h] at hi ⊢
    have hw : r.hi.get a - r.lo.get a = r.width a := rfl
    simp only [Bool.and_eq_true, decide_eq_true_eq] at h
    simp only [List.mem_cons, List.not_mem_nil, or_false] at hi
    rcases hi with rfl | rfl
    · refine ⟨?_, fun _ => ?_⟩ <;> dsimp only <;> omega
    · refine ⟨?_, fun _ => ?_⟩ <;> dsimp only <;> omega
  · rw [halves_whole h] at hi ⊢
    simp only [List.mem_cons, List.not_mem_nil, or_false] at hi
    subst hi
    exact ⟨Nat.le_refl _, fun hlen => absurd hlen (Nat.lt_irrefl 1)⟩

theorem length_halves (r : Region) (mask : AxisMask) (a : Direction) :
    (r.halves mask a).length = 1 ∨ (r.halves mask a).length = 2 := by
  unfold halves
  split <;> simp

theorem length_bisect (r : Region) (mask : AxisMask) :
    (r.bisect mask).length =
      (r.halves mask Direction.first).length * ((r.halves mask Direction.second).length *
        ((r.halves mask Direction.third).length * (r.halves mask Direction.fourth).length)) := by
  simp only [bisect, List.length_flatMap, List.length_map, List.map_const', List.sum_replicate_nat]

theorem mem_bisect {r c : Region} {mask : AxisMask} :
    c ∈ r.bisect mask ↔
      ∃ w ∈ r.halves mask Direction.first, ∃ x ∈ r.halves mask Direction.second,
        ∃ y ∈ r.halves mask Direction.third, ∃ z ∈ r.halves mask Direction.fourth,
          ofRanges w x y z = c := by
  simp only [bisect, List.mem_flatMap, List.mem_map]

/-- When a region is really cut, every child spans less than the region. -/
theorem span_lt_of_mem_bisect {r c : Region} {mask : AxisMask} (hc : c ∈ r.bisect mask)
    (hlen : 1 < (r.bisect mask).length) : c.span < r.span := by
  obtain ⟨w, hw, x, hx, y, hy, z, hz, rfl⟩ := mem_bisect.mp hc
  rw [length_bisect] at hlen
  obtain ⟨w1, w2⟩ := halves_short hw
  obtain ⟨x1, x2⟩ := halves_short hx
  obtain ⟨y1, y2⟩ := halves_short hy
  obtain ⟨z1, z2⟩ := halves_short hz
  have e : (ofRanges w x y z).span =
      (w.2 - w.1).toNat + (x.2 - x.1).toNat + (y.2 - y.1).toNat + (z.2 - z.1).toNat := rfl
  rw [e, span]
  rcases length_halves r mask Direction.first with h0 | h0 <;>
    rcases length_halves r mask Direction.second with h1 | h1 <;>
    rcases length_halves r mask Direction.third with h2 | h2 <;>
    rcases length_halves r mask Direction.fourth with h3 | h3 <;>
    simp only [h0, h1, h2, h3] at hlen w2 x2 y2 z2 <;> omega

end Region
end ClusterDynamics
