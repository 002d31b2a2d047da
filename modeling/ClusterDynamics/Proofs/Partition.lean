import ClusterDynamics.Partition
import ClusterDynamics.Proofs.SpatialIndex

/-! What the partition of a region keeps. Cutting loses no point and adds none, so the cells of a
    partition cover the region and lie inside it, whatever the rule says. A cell that is not pruned
    is one that its rule does not want cut any further, and it is admitted exactly when the rule
    selects it. -/

namespace ClusterDynamics

theorem mapM_eq_some {β γ : Type} {f : β → Option γ} : ∀ {l : List β} {ys : List γ},
    l.mapM f = some ys ↔ l.map f = ys.map some
  | [], ys => by cases ys <;> simp
  | x :: l, ys => by
    rw [List.mapM_cons, List.map_cons]
    cases hx : f x with
    | none => cases ys <;> simp
    | some y =>
      cases ys with
      | nil => cases hl : l.mapM f <;> simp
      | cons z zs =>
        have ih : l.mapM f = some zs ↔ l.map f = zs.map some := mapM_eq_some
        simp only [Option.bind_eq_bind, Option.bind_some, Option.bind_eq_some_iff, Option.pure_def,
          Option.some.injEq, List.cons.injEq, List.map_cons, ← ih]
        constructor
        · rintro ⟨_, hzs, rfl, rfl⟩
          exact ⟨rfl, hzs⟩
        · rintro ⟨rfl, hzs⟩
          exact ⟨zs, hzs, rfl, rfl⟩

namespace Region

/-! ### Cutting -/

variable {r c : Region} {mask : AxisMask}

theorem halves_within {a : Direction} {i : Int × Int} (hi : i ∈ r.halves mask a) :
    r.lo.get a ≤ i.1 ∧ i.2 ≤ r.hi.get a := by
  unfold halves at hi
  split_ifs at hi with h
  · have hw : r.hi.get a - r.lo.get a = r.width a := rfl
    simp only [Bool.and_eq_true, decide_eq_true_eq] at h
    rcases List.mem_pair.mp hi with rfl | rfl <;> dsimp only <;> omega
  · rw [List.mem_singleton.mp hi]
    exact ⟨le_refl _, le_refl _⟩

theorem exists_mem_halves (r : Region) (mask : AxisMask) {a : Direction} {t : Int}
    (hlo : r.lo.get a ≤ t) (hhi : t < r.hi.get a) : ∃ i ∈ r.halves mask a, i.1 ≤ t ∧ t < i.2 := by
  unfold halves
  split_ifs
  · rcases lt_or_ge t (r.lo.get a + r.width a / 2) with h | h
    · exact ⟨_, List.mem_cons_self, hlo, h⟩
    · exact ⟨_, List.mem_cons_of_mem _ List.mem_cons_self, h, hhi⟩
  · exact ⟨_, List.mem_cons_self, hlo, hhi⟩

/-- A child has one of the halves of each axis. -/
theorem range_mem_halves (h : c ∈ r.bisect mask) (a : Direction) :
    (c.lo.get a, c.hi.get a) ∈ r.halves mask a := by
  obtain ⟨w, hw, x, hx, y, hy, z, hz, rfl⟩ := mem_bisect.mp h
  match a with
  | 0 => exact hw
  | 1 => exact hx
  | 2 => exact hy
  | 3 => exact hz

theorem within_of_mem_bisect (h : c ∈ r.bisect mask) : c.Within r := fun a =>
  halves_within (range_mem_halves h a)

/-- Every point of a region lies in one of its children. -/
theorem exists_mem_bisect (mask : AxisMask) {p : Point} (h : r.contains p = true) :
    ∃ c ∈ r.bisect mask, c.contains p = true := by
  have hp := contains_iff.mp h
  obtain ⟨w, hw, hpw⟩ := exists_mem_halves r mask (hp 0).1 (hp 0).2
  obtain ⟨x, hx, hpx⟩ := exists_mem_halves r mask (hp 1).1 (hp 1).2
  obtain ⟨y, hy, hpy⟩ := exists_mem_halves r mask (hp 2).1 (hp 2).2
  obtain ⟨z, hz, hpz⟩ := exists_mem_halves r mask (hp 3).1 (hp 3).2
  refine ⟨ofRanges w x y z, mem_bisect.mpr ⟨w, hw, x, hx, y, hy, z, hz, rfl⟩, ?_⟩
  refine contains_iff.mpr fun a => ?_
  match a with
  | 0 => exact hpw
  | 1 => exact hpx
  | 2 => exact hpy
  | 3 => exact hpz

/-- A region that is not really cut has at most one value on each chosen axis. -/
theorem width_le_one_of_bisect (h : ¬1 < (r.bisect mask).length) {a : Direction}
    (ha : mask.get a = true) : r.width a ≤ 1 := by
  by_contra hw
  have hcut : (r.halves mask a).length = 2 := by
    rw [halves_cut (by simp only [ha, Bool.true_and, decide_eq_true_eq]; omega)]
    rfl
  have hpos : ∀ b : Direction, 0 < (r.halves mask b).length := fun b => by
    rcases length_halves r mask b with hb | hb <;> omega
  have hone : (r.bisect mask).length = 1 := by
    have := Nat.mul_pos (hpos 0) (Nat.mul_pos (hpos 1) (Nat.mul_pos (hpos 2) (hpos 3)))
    rw [← length_bisect r mask] at this
    omega
  simp only [length_bisect, mul_eq_one] at hone
  obtain ⟨h0, h1, h2, h3⟩ := hone
  match a with
  | 0 => exact absurd (hcut.symm.trans h0) (by decide)
  | 1 => exact absurd (hcut.symm.trans h1) (by decide)
  | 2 => exact absurd (hcut.symm.trans h2) (by decide)
  | 3 => exact absurd (hcut.symm.trans h3) (by decide)

end Region

/-! ### Cells -/

variable {rule : PartitionRule}

/-- The rule stands by the fate of a cell. -/
structure Cell.Settled (rule : PartitionRule) (c : Cell) : Prop where
  pruned_iff : c.fate = .pruned ↔ rule.intersects c.region = false
  whole : c.fate ≠ .pruned → ¬1 < (c.region.bisect (rule.refine c.region)).length
  admitted_iff : c.fate ≠ .pruned → (c.fate = .admitted ↔ rule.selects c.region = true)

/-- The cells lie inside the region and cover it, and the rule stands by the fate of each. -/
structure Partition.Exhausts (rule : PartitionRule) (r : Region) (p : Partition) : Prop where
  within : ∀ c ∈ p.cells, c.region.Within r
  settled : ∀ c ∈ p.cells, c.Settled rule
  covers : ∀ x, r.contains x = true → ∃ c ∈ p.cells, c.region.contains x = true

namespace Partition

theorem exhausts_single {r : Region} {fate : Fate} (h : Cell.Settled rule ⟨r, fate⟩) :
    (single r fate).Exhausts rule r where
  within c hc := by
    rw [List.mem_singleton.mp hc]
    exact .refl r
  settled c hc := by
    rw [List.mem_singleton.mp hc]
    exact h
  covers _ hx := ⟨⟨r, fate⟩, List.mem_singleton_self _, hx⟩

theorem exhausts_join {r : Region} (mask : AxisMask) {parts : List Partition}
    (hpart : ∀ q ∈ parts, ∃ c ∈ r.bisect mask, q.Exhausts rule c)
    (hchild : ∀ c ∈ r.bisect mask, ∃ q ∈ parts, q.Exhausts rule c) :
    (join parts).Exhausts rule r where
  within cell hcell := by
    obtain ⟨q, hq, hcell⟩ := List.mem_flatMap.mp hcell
    obtain ⟨c, hc, E⟩ := hpart q hq
    exact (E.within cell hcell).trans (Region.within_of_mem_bisect hc)
  settled cell hcell := by
    obtain ⟨q, hq, hcell⟩ := List.mem_flatMap.mp hcell
    obtain ⟨c, -, E⟩ := hpart q hq
    exact E.settled cell hcell
  covers x hx := by
    obtain ⟨c, hc, hcx⟩ := Region.exists_mem_bisect mask hx
    obtain ⟨q, hq, E⟩ := hchild c hc
    obtain ⟨cell, hcell, hx⟩ := E.covers x hcx
    exact ⟨cell, List.mem_flatMap.mpr ⟨q, hq, hcell⟩, hx⟩

/-! ### Partitions in exact numbers -/

/-- The partition of a region, whatever numbers it takes to find it. -/
def ofRegion (rule : PartitionRule) (r : Region) : Partition :=
  if !rule.intersects r then single r .pruned
  else if _h : 1 < (r.bisect (rule.refine r)).length then
    join ((r.bisect (rule.refine r)).attach.map fun c => ofRegion rule c.val)
  else single r (if rule.selects r then .admitted else .dropped)
termination_by r.span
decreasing_by exact Region.span_lt_of_mem_bisect c.property (by assumption)

/-- What is found with machine words is what there is. -/
theorem eq_ofRegion (r : Region) : ∀ {p : Partition}, ofRegion? rule r = some p → p = ofRegion rule r := by
  fun_induction ofRegion? rule r with
  | case1 r hfit => exact fun h => nomatch h
  | case2 r hfit hmeet =>
    rintro p ⟨⟩
    rw [ofRegion, if_pos hmeet]
  | case3 r hfit hmeet hvolume => exact fun h => nomatch h
  | case4 r hfit hmeet hvolume hcut ih =>
    intro p h
    obtain ⟨parts, hparts, rfl⟩ := Option.map_eq_some_iff.mp h
    have hmap := mapM_eq_some.mp hparts
    rw [ofRegion, if_neg hmeet, dif_pos hcut]
    refine congrArg join (List.map_injective_iff.mpr (Option.some_injective _) ?_)
    rw [← hmap, List.map_map]
    refine List.map_congr_left fun c hc => ?_
    have hmem := List.mem_map_of_mem (f := fun c => ofRegion? rule c.val) hc
    rw [hmap] at hmem
    obtain ⟨q, -, hq⟩ := List.mem_map.mp hmem
    rw [← hq, Function.comp_apply, ih c hq.symm]
  | case5 r hfit hmeet hvolume hcut =>
    rintro p ⟨⟩
    rw [ofRegion, if_neg hmeet, dif_neg hcut]

/-- The partition of a region exhausts it. -/
theorem exhausts_ofRegion (rule : PartitionRule) (r : Region) : (ofRegion rule r).Exhausts rule r := by
  fun_induction ofRegion rule r with
  | case1 r hmeet =>
    have hmeet : rule.intersects r = false := by simpa using hmeet
    exact exhausts_single ⟨⟨fun _ => hmeet, fun _ => rfl⟩, fun h => absurd rfl h, fun h => absurd rfl h⟩
  | case2 r hmeet hcut ih =>
    refine exhausts_join (rule.refine r) (fun q hq => ?_) fun c hc => ?_
    · obtain ⟨c, -, rfl⟩ := List.mem_map.mp hq
      exact ⟨c.val, c.property, ih c⟩
    · exact ⟨_, List.mem_map_of_mem (List.mem_attach _ ⟨c, hc⟩), ih ⟨c, hc⟩⟩
  | case3 r hmeet hcut =>
    have hmeet : rule.intersects r = true := by simpa using hmeet
    refine exhausts_single ⟨?_, fun _ => hcut, fun _ => ?_⟩
    · rw [hmeet]
      split_ifs <;> simp
    · split_ifs with hselects <;> simp [hselects]

theorem exhausts_of_ofRegion? (r : Region) {p : Partition} (h : ofRegion? rule r = some p) :
    p.Exhausts rule r := by
  rw [eq_ofRegion r h]
  exact exhausts_ofRegion rule r

theorem mem_regions {p : Partition} {r : Region} {fate : Fate} :
    r ∈ p.regions fate ↔ ⟨r, fate⟩ ∈ p.cells := by
  simp only [regions, List.mem_map, List.mem_filter, beq_iff_eq]
  constructor
  · rintro ⟨c, ⟨hc, rfl⟩, rfl⟩
    exact hc
  · exact fun h => ⟨_, ⟨h, rfl⟩, rfl⟩

end Partition
end ClusterDynamics
