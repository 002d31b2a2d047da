import ClusterDynamics.Proofs.Movers
import ClusterDynamics.Proofs.Visits

/-! Bins. A region that begins below the first bin ends up as single compositions. From there on no region is
    wider than its bin along a tracked axis, and what is dropped is no wider than the minimum width either and
    lies across the edge of the admissible compositions. -/

namespace ClusterDynamics

variable {α : Type} [Analytic α]

/-- The axis along which bins widen. -/
def MaterialKind.primaryAxis : MaterialKind → Direction
  | .tungsten | .iron => DefectSpace.defectAxis
  | .xenon => Direction.first

/-- The region has at most `limit` values along each of its first `dim` axes. -/
def Region.NoWider (r : Region) (dim : Nat) (limit : Int) : Prop := ∀ a : Direction, a.val < dim → r.width a ≤ limit

namespace Region

variable {r : Region} {dim : Nat} {primary : Direction} {s : BinSchedule α} {full : Bool}

theorem noWider_of_widerThan {limit : Int} (h : AxisMask.any (r.widerThan dim limit) = false) :
    r.NoWider dim limit := by
  intro a ha
  have hmask := List.any_eq_false.mp h a (mem_directions a)
  rw [widerThan, get_ofFn] at hmask
  simp only [ha, decide_true, Bool.true_and, decide_eq_true_eq] at hmask
  exact not_lt.mp hmask

/-- Beyond the first bin a region that is not cut fits its bin; unless it is wholly admissible, it has been cut
    down to the minimum width as well. -/
theorem noWider_of_uncut (hstart : s.start ≤ r.lo.get primary)
    (h : ¬1 < (r.bisect (r.refineMask dim primary (some s) full)).length) :
    r.NoWider dim (s.allowedWidth (r.lo.get primary)) ∧
      (full = false → 1 ≤ s.minWidth → r.NoWider dim s.minWidth) := by
  unfold refineMask at h
  dsimp only at h
  rw [if_neg (not_lt.mpr hstart)] at h
  cases hwide : AxisMask.any (r.widerThan dim (s.allowedWidth (r.lo.get primary))) with
  | true =>
    rw [hwide, Bool.true_or, if_pos rfl] at h
    have hbin : r.NoWider dim (s.allowedWidth (r.lo.get primary)) := fun a ha =>
      width_le_of_uncut (s.one_le_allowedWidth _) h ha
    -- So no axis is wider than the bin after all.
    obtain ⟨a, -, ha⟩ := List.any_eq_true.mp hwide
    rw [widerThan, get_ofFn, Bool.and_eq_true, decide_eq_true_eq, decide_eq_true_eq] at ha
    exact absurd ha.2 (not_lt.mpr (hbin a ha.1))
  | false =>
    refine ⟨noWider_of_widerThan hwide, fun hfull hmin a ha => ?_⟩
    rw [hwide, hfull, Bool.or_false, if_neg Bool.false_ne_true] at h
    exact width_le_of_uncut hmin h ha

end Region

/-! ### Rules with bins -/

/-- The rule decides about admissible points, and cuts along its first axes by a schedule. -/
structure PartitionRule.Graded (rule : PartitionRule) (admits : Point → Bool) (dim : Nat) (primary : Direction)
    (schedule : Option (BinSchedule α)) : Prop where
  refine_eq : ∀ r, rule.refine r = r.refineMask dim primary schedule (rule.selects r)
  flat : ∀ a : Direction, dim ≤ a.val → rule.bounds.width a ≤ 1
  intersects_iff : ∀ r, rule.intersects r = true ↔ ∃ x, r.contains x = true ∧ admits x = true
  selects_iff : ∀ r, rule.selects r = true ↔ ∀ x, r.contains x = true → admits x = true

namespace PartitionRule.Graded

variable {rule : PartitionRule} {admits : Point → Bool} {dim : Nat} {primary : Direction}
  {schedule : Option (BinSchedule α)} (G : rule.Graded admits dim primary schedule) {c : Cell}
  (hc : c ∈ (Partition.ofRegion rule rule.bounds).cells) (hfate : c.fate ≠ .pruned)
include G hc hfate

/-- A region that begins below the bins is one composition, and an admissible one. -/
theorem isUnit_of_below (hbelow : ∀ s, schedule = some s → c.region.lo.get primary < s.start) :
    c.region.isUnit = true ∧ c.fate = .admitted := by
  have E := Partition.exhausts_ofRegion rule rule.bounds
  have S := E.settled c hc
  have huncut := S.whole hfate
  rw [G.refine_eq, Region.refineMask_below hbelow] at huncut
  obtain ⟨x, hx, hadmits⟩ := (G.intersects_iff _).mp (S.intersects hfate)
  have hunit : c.region.isUnit = true := by
    refine Region.isUnit_of_width_le_one (Region.isEmpty_of_contains hx) fun a => ?_
    by_cases ha : a.val < dim
    · exact Region.width_le_of_uncut (le_refl 1) huncut ha
    · have hbound := E.within c hc a
      have hwidth := G.flat a (by omega)
      rw [Region.width] at hwidth ⊢
      omega
  refine ⟨hunit, (S.admitted_iff hfate).mpr ((G.selects_iff _).mpr fun y hy => ?_)⟩
  rw [(Region.contains_of_isUnit hunit).mp hx] at hadmits
  rwa [(Region.contains_of_isUnit hunit).mp hy]

theorem noWider {s : BinSchedule α} (hs : schedule = some s) (hstart : s.start ≤ c.region.lo.get primary) :
    c.region.NoWider dim (s.allowedWidth (c.region.lo.get primary)) := by
  have huncut := ((Partition.exhausts_ofRegion rule rule.bounds).settled c hc).whole hfate
  rw [G.refine_eq, hs] at huncut
  exact (Region.noWider_of_uncut hstart huncut).1

omit hfate in
/-- A region is dropped across the edge of the admissible points, and only at the minimum width. -/
theorem dropped {s : BinSchedule α} (hs : schedule = some s) (hmin : 1 ≤ s.minWidth) (hdropped : c.fate = .dropped) :
    s.start ≤ c.region.lo.get primary ∧ c.region.NoWider dim s.minWidth ∧
      (∃ x, c.region.contains x = true ∧ admits x = true) ∧
      ∃ x, c.region.contains x = true ∧ admits x = false := by
  have S := (Partition.exhausts_ofRegion rule rule.bounds).settled c hc
  have hfate : c.fate ≠ .pruned := by
    rw [hdropped]
    exact fun h => nomatch h
  have hselects : rule.selects c.region = false := by
    refine Bool.eq_false_iff.mpr fun h => ?_
    have hadmitted := (S.admitted_iff hfate).mpr h
    cases hdropped.symm.trans hadmitted
  have hstart : s.start ≤ c.region.lo.get primary := by
    by_contra hbelow
    have hadmitted := (G.isUnit_of_below hc hfate fun t ht => by
      cases hs.symm.trans ht
      exact not_le.mp hbelow).2
    cases hdropped.symm.trans hadmitted
  have huncut := S.whole hfate
  rw [G.refine_eq, hs] at huncut
  refine ⟨hstart, (Region.noWider_of_uncut hstart huncut).2 hselects hmin,
    (G.intersects_iff _).mp (S.intersects hfate), ?_⟩
  by_contra hnone
  rw [← Bool.not_eq_true, G.selects_iff] at hselects
  refine hselects fun x hx => ?_
  by_contra hadmits
  exact hnone ⟨x, hx, Bool.eq_false_iff.mpr hadmits⟩

end PartitionRule.Graded

/-! ### Configured materials -/

namespace Material

variable {p : NetworkParams α} {m : Material α}

theorem IsMetal.graded {d : DefectSpace} (hm : m.IsMetal p d) :
    m.rule.Graded d.isAdmissible m.space.dim DefectSpace.defectAxis (p.grouping.map .ofGrouping) := by
  obtain ⟨-, hi, hv, -⟩ := hm.nonneg
  rw [hm.rule_eq, hm.space_eq]
  exact ⟨fun _ => rfl, fun _ ha => (DefectSpace.width_bounds ha).le,
    fun _ => DefectSpace.intersects_iff hi hv, fun _ => DefectSpace.selects_iff hi hv⟩

theorem graded_of_chooseMaterial (h : p.chooseMaterial = .ok m) :
    m.rule.Graded p.admits m.space.dim p.material.primaryAxis (p.grouping.map .ofGrouping) := by
  obtain ⟨hkind, rfl⟩ | ⟨hkind, rfl⟩ | ⟨hkind, rfl⟩ := NetworkParams.material_of_chooseMaterial h
  · rw [NetworkParams.admits_tungsten hkind, hkind]
    exact (Tungsten.isMetal p).graded
  · rw [NetworkParams.admits_iron hkind, hkind]
    exact (Iron.isMetal p).graded
  · rw [NetworkParams.admits_xenon hkind, hkind]
    exact ⟨fun _ => rfl, fun _ ha => (Xenon.width_bounds ha).le, fun _ => Xenon.intersects_iff,
      fun _ => Xenon.selects_iff⟩

/-- The regions that are admitted or dropped for accepted parameters obey their grouping. -/
theorem bins_of_chooseMaterial (h : p.chooseMaterial = .ok m) :
    let q := Partition.ofRegion m.rule m.rule.bounds
    let primary := p.material.primaryAxis
    (∀ seeds q', m.generate = .ok (seeds, q') → q' = q ∧ seeds.map (·.region) = q.regions .admitted) ∧
    (p.grouping = none → (∀ r ∈ q.regions .admitted, r.isUnit = true) ∧ q.regions .dropped = []) ∧
    ∀ g, p.grouping = some g →
      (∀ r ∈ q.regions .admitted,
        (r.lo.get primary < g.start.toNat → r.isUnit = true) ∧
        (g.start.toNat ≤ r.lo.get primary →
          r.NoWider m.space.dim ((BinSchedule.ofGrouping g).allowedWidth (r.lo.get primary)))) ∧
      ∀ r ∈ q.regions .dropped, g.start.toNat ≤ r.lo.get primary ∧
        r.NoWider m.space.dim ((BinSchedule.ofGrouping g).allowedWidth (r.lo.get primary)) ∧
        r.NoWider m.space.dim g.minWidth.toNat ∧
        (∃ x, r.contains x = true ∧ p.admits x = true) ∧ ∃ x, r.contains x = true ∧ p.admits x = false := by
  intro q primary
  have G := graded_of_chooseMaterial h
  have hcell : ∀ {r fate}, r ∈ q.regions fate → ⟨r, fate⟩ ∈ q.cells := Partition.mem_regions.mp
  refine ⟨fun seeds q' hgen => ?_, fun hnone => ⟨fun r hr => ?_, ?_⟩, fun g hg => ⟨fun r hr => ⟨?_, ?_⟩, ?_⟩⟩
  · obtain ⟨hpart, hmap⟩ := generate_eq_ok hgen
    have hq : q' = q := Partition.eq_ofRegion _ (partition_eq_ok hpart)
    exact ⟨hq, hq ▸ map_region_of_seeds (mapM_eq_ok.mpr hmap)⟩
  · rw [hnone] at G
    exact (G.isUnit_of_below (hcell hr) (fun h => nomatch h) fun s hs => nomatch hs).1
  · rw [hnone] at G
    refine List.eq_nil_iff_forall_not_mem.mpr fun r hr => ?_
    have hadmitted := (G.isUnit_of_below (hcell hr) (fun h => nomatch h) fun s hs => nomatch hs).2
    exact nomatch hadmitted
  · intro hbelow
    rw [hg] at G
    refine (G.isUnit_of_below (hcell hr) (fun h => nomatch h) fun s hs => ?_).1
    cases hs
    exact hbelow
  · rw [hg] at G
    exact G.noWider (hcell hr) (fun h => nomatch h) rfl
  · intro r hr
    rw [hg] at G
    have hvalid := NetworkParams.grouping_of_validate (NetworkParams.chooseMaterial_eq_ok h).1 hg
    have hmin : (1 : Int) ≤ g.minWidth.toNat := by
      have hpos : 0 < g.minWidth.toNat := Nat.pos_of_ne_zero fun hzero => hvalid.2.1 (UInt32.toNat_inj.mp hzero)
      omega
    obtain ⟨hstart, hwidth, hacross⟩ := G.dropped (hcell hr) rfl hmin rfl
    exact ⟨hstart, G.noWider (hcell hr) (fun h => nomatch h) rfl hstart, hwidth, hacross⟩

end Material

/-! ### Bins across the helium limit -/

namespace Across
open scoped Pair

/-- Iron with at most one helium atom outside vacancies and up to three vacancies, in bins two wide. -/
def params : NetworkParams ℚ :=
  { NetworkParams.standard with
    material := .iron
    maxHelium := 1
    maxVacancy := 3
    maxInterstitial := 0
    grouping := some ⟨2, 2, 1, 2⟩ }

/-- Two vacancies hold at most eight helium atoms, three hold up to twelve. -/
theorem generate_ok : ∃ x, (Iron.material params).generate = .ok x ∧
    x.2.regions .dropped = [.ofInclusive [(9, 10), (2, 3)], .ofInclusive [(11, 12), (2, 3)]] :=
  exists_eq_ok (by decide +kernel)

/-- The first dropped region is in the bins, and no wider than the minimum width. -/
theorem bins : ∃ seeds q, (Iron.material params).generate = .ok (seeds, q) ∧
    ∃ r ∈ q.regions .dropped, r.NoWider 2 2 ∧
      (∃ x, r.contains x = true ∧ params.admits x = true) ∧ ∃ x, r.contains x = true ∧ params.admits x = false := by
  obtain ⟨⟨seeds, q⟩, hok, hdropped⟩ := generate_ok
  obtain ⟨hgenerate, -, hgrouped⟩ := Material.bins_of_chooseMaterial (p := params) (m := Iron.material params) rfl
  obtain ⟨rfl, -⟩ := hgenerate seeds q hok
  have hmem : Region.ofInclusive [(9, 10), (2, 3)] ∈
      (Partition.ofRegion (Iron.material params).rule (Iron.material params).rule.bounds).regions .dropped := by
    rw [hdropped]
    exact List.mem_cons_self
  obtain ⟨-, -, hwidth, hacross⟩ := (hgrouped _ rfl).2 _ hmem
  exact ⟨seeds, _, hok, _, hmem, hwidth, hacross⟩

end Across
end ClusterDynamics
