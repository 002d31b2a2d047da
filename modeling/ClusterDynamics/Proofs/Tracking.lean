import ClusterDynamics.Proofs.Metal
import ClusterDynamics.Proofs.Tiling

/-! Rules that track a set of points. Such a rule decides which regions hold any of the points and which hold
    no others. When bins may be cut down to single points, no region with an admissible point is left
    that also holds others; so the admitted cells of the partition own the admissible points and nothing
    else. -/

namespace ClusterDynamics

variable {α : Type}

/-! ### Cutting down to points -/

theorem BinSchedule.one_le_allowedWidth [Analytic α] (s : BinSchedule α) (x : Int) :
    1 ≤ s.allowedWidth x := by
  unfold allowedWidth
  split_ifs
  · exact le_refl 1
  · exact le_max_right _ _

/-- When bins may be as narrow as one, a region is only left whole if it is wholly admissible or has one
    value on each axis. -/
theorem Region.uncut_refineMask [Analytic α] {r : Region} {dim : Nat} {primary : Direction}
    {schedule : Option (BinSchedule α)} {full : Bool} (hmin : ∀ s, schedule = some s → s.minWidth = 1)
    (h : ¬1 < (r.bisect (r.refineMask dim primary schedule full)).length) :
    full = true ∨ ∀ a : Direction, a.val < dim → r.width a ≤ 1 := by
  unfold refineMask at h
  cases schedule with
  | none => exact .inr fun a ha => width_le_of_uncut (le_refl 1) h ha
  | some s =>
    dsimp only at h
    split_ifs at h with hbelow hbin
    · exact .inr fun a ha => width_le_of_uncut (le_refl 1) h ha
    · rcases Bool.or_eq_true_iff.mp hbin with hwide | hfull
      · -- An axis wider than its bin would have been cut.
        obtain ⟨a, -, ha⟩ := List.any_eq_true.mp hwide
        have hle := width_le_one_of_bisect h ha
        rw [widerThan, get_ofFn, Bool.and_eq_true, decide_eq_true_eq, decide_eq_true_eq] at ha
        have hallowed := s.one_le_allowedWidth (r.lo.get primary)
        omega
      · exact .inl hfull
    · rw [hmin s rfl] at h
      exact .inr fun a ha => width_le_of_uncut (le_refl 1) h ha

/-- Beyond the bounds that are given, a box has one value on each axis. -/
theorem Region.width_ofInclusive {bounds : List (Int × Int)} {a : Direction} (h : bounds.length ≤ a.val) :
    (ofInclusive bounds).width a = 1 := by
  simp [width, ofInclusive, List.getElem?_eq_none h]

theorem Region.get_representative (r : Region) (a : Direction) :
    r.representative.get a = (r.lo.get a + r.hi.get a) / 2 := by
  rw [representative, get_ofFn, Int.fdiv_eq_ediv_of_nonneg _ (by decide)]

/-- A region with a point holds its anchor. -/
theorem Region.contains_anchor {r : Region} (h : r.isEmpty = false) : r.contains r.anchor = true := by
  unfold anchor
  split_ifs with hunit
  · exact (contains_of_isUnit hunit).mpr rfl
  · refine contains_iff.mpr fun a => ?_
    have hlt := isEmpty_eq_false.mp h a
    rw [get_representative]
    omega

/-! ### Rules -/

/-- The rule decides which regions hold admissible points, and cuts until no region holds others besides. -/
structure PartitionRule.Tracks (rule : PartitionRule) (admits : Point → Bool) : Prop where
  intersects_iff : ∀ r, rule.intersects r = true ↔ ∃ x, r.contains x = true ∧ admits x = true
  selects_iff : ∀ r, rule.selects r = true ↔ ∀ x, r.contains x = true → admits x = true
  bounds : ∀ x, admits x = true → rule.bounds.contains x = true
  selects_of_uncut : ∀ r, r.Within rule.bounds → rule.intersects r = true →
    ¬1 < (r.bisect (rule.refine r)).length → rule.selects r = true

/-- A rule that cuts along its first axes, within bounds that are flat along the others. -/
theorem PartitionRule.selects_of_uncut [Analytic α] {rule : PartitionRule} {admits : Point → Bool}
    (hintersects : ∀ r, rule.intersects r = true ↔ ∃ x, r.contains x = true ∧ admits x = true)
    (hselects : ∀ r, rule.selects r = true ↔ ∀ x, r.contains x = true → admits x = true)
    {dim : Nat} {primary : Direction} {schedule : Option (BinSchedule α)}
    (hmin : ∀ s, schedule = some s → s.minWidth = 1)
    (hrefine : ∀ r, rule.refine r = r.refineMask dim primary schedule (rule.selects r))
    (hflat : ∀ a : Direction, dim ≤ a.val → rule.bounds.width a ≤ 1) {r : Region}
    (hwithin : r.Within rule.bounds) (hmeet : rule.intersects r = true)
    (huncut : ¬1 < (r.bisect (rule.refine r)).length) : rule.selects r = true := by
  rw [hrefine r] at huncut
  rcases Region.uncut_refineMask hmin huncut with hfull | hnarrow
  · exact hfull
  · obtain ⟨x, hx, hadmits⟩ := (hintersects r).mp hmeet
    have hempty := Region.isEmpty_of_contains hx
    have hunit : r.isUnit = true := by
      refine Region.isUnit_of_width_le_one hempty fun a => ?_
      by_cases ha : a.val < dim
      · exact hnarrow a ha
      · have hbound := hwithin a
        have hwidth := hflat a (by omega)
        rw [Region.width] at hwidth ⊢
        omega
    have hlo := (Region.contains_of_isUnit hunit).mp hx
    exact (hselects r).mpr fun y hy => by rwa [(Region.contains_of_isUnit hunit).mp hy, ← hlo]

namespace PartitionRule.Tracks

variable {rule : PartitionRule} {admits : Point → Bool} (T : rule.Tracks admits) {p : Partition}
  (hp : Partition.ofRegion? rule rule.bounds = some p)
include T hp

/-- A cell is pruned or admitted. -/
theorem fate_of_mem {c : Cell} (hc : c ∈ p.cells) : c.fate = .pruned ∨ c.fate = .admitted := by
  have E := Partition.exhausts_of_ofRegion? _ hp
  have S := E.settled c hc
  by_cases hfate : c.fate = .pruned
  · exact .inl hfate
  · have hmeet : rule.intersects c.region = true := by
      by_contra hmeet
      exact hfate (S.pruned_iff.mpr (by simpa using hmeet))
    exact .inr ((S.admitted_iff hfate).mpr
      (T.selects_of_uncut c.region (E.within c hc) hmeet (S.whole hfate)))

/-- Nothing is dropped. -/
theorem stats_droppedRegions : p.stats.droppedRegions = 0 := by
  refine List.length_eq_zero_iff.mpr (List.eq_nil_iff_forall_not_mem.mpr fun r hr => ?_)
  rcases T.fate_of_mem hp (Partition.mem_regions.mp hr) with h | h <;> cases h

theorem admits_of_mem {r : Region} (hr : r ∈ p.regions .admitted) {x : Point} (hx : r.contains x = true) :
    admits x = true := by
  have S := (Partition.exhausts_of_ofRegion? _ hp).settled _ (Partition.mem_regions.mp hr)
  exact (T.selects_iff r).mp ((S.admitted_iff (fun h => nomatch h)).mp rfl) x hx

/-- An admitted region holds a point. -/
theorem isEmpty_of_mem {r : Region} (hr : r ∈ p.regions .admitted) : r.isEmpty = false := by
  have S := (Partition.exhausts_of_ofRegion? _ hp).settled _ (Partition.mem_regions.mp hr)
  have hmeet : rule.intersects r = true := by
    by_contra hmeet
    cases S.pruned_iff.mpr (by simpa using hmeet)
  obtain ⟨x, hx, -⟩ := (T.intersects_iff r).mp hmeet
  exact Region.isEmpty_of_contains hx

theorem admits_anchor {r : Region} (hr : r ∈ p.regions .admitted) : admits r.anchor = true :=
  T.admits_of_mem hp hr (Region.contains_anchor (T.isEmpty_of_mem hp hr))

/-- Without an admissible point nothing is admitted. -/
theorem regions_admitted_eq_nil (hnone : ∀ x, admits x = false) : p.regions .admitted = [] :=
  List.eq_nil_iff_forall_not_mem.mpr fun r hr => by
    have hanchor := T.admits_anchor hp hr
    rw [hnone] at hanchor
    cases hanchor

/-- Every admissible point lies in an admitted region. -/
theorem exists_mem_admitted {x : Point} (hx : admits x = true) :
    ∃ r ∈ p.regions .admitted, r.contains x = true := by
  have E := Partition.exhausts_of_ofRegion? _ hp
  obtain ⟨c, hc, hcx⟩ := E.covers x (T.bounds x hx)
  rcases T.fate_of_mem hp hc with hfate | hfate
  · have hmeet := (E.settled c hc).pruned_iff.mp hfate
    rw [(T.intersects_iff c.region).mpr ⟨x, hcx, hx⟩] at hmeet
    cases hmeet
  · exact ⟨c.region, Partition.mem_regions.mpr (hfate ▸ hc), hcx⟩

end PartitionRule.Tracks

end ClusterDynamics
