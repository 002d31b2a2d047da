import ClusterDynamics.Proofs.Admissible
import ClusterDynamics.Proofs.Generation

/-! The clusters of a generated metal. Only admissible points are owned, and a region that begins below
    the first bin is cut down to single compositions; so an admissible composition with at most one
    vacancy is always a cluster of its own. -/

namespace ClusterDynamics
open DefectSpace

variable {α : Type}

/-! ### Accepted parameters -/

/-- Accepted bins are at least one wide and begin at size two or above. -/
theorem NetworkParams.grouping_of_validate [Scalar α] {p : NetworkParams α} {g : GroupingParams α}
    (h : p.validate = .ok ()) (hg : p.grouping = some g) :
    g.width ≠ 0 ∧ g.minWidth ≠ 0 ∧ 2 ≤ g.start := by
  unfold validate at h
  obtain ⟨-, h⟩ := check_bind_eq_ok.mp h
  rw [hg] at h
  obtain ⟨hwidth, h⟩ := check_bind_eq_ok.mp h
  obtain ⟨hmin, h⟩ := check_bind_eq_ok.mp h
  obtain ⟨hstart, -⟩ := check_bind_eq_ok.mp h
  exact ⟨hwidth, hmin, UInt32.not_lt.mp hstart⟩

/-- Without groups only the sink strength is checked. -/
theorem NetworkParams.validate_ungrouped [Scalar α] {p : NetworkParams α}
    (hfinite : Scalar.isFinite p.sinkStrength = true) (hsink : ¬p.sinkStrength < 0)
    (hnone : p.grouping = none) : p.validate = .ok () := by
  unfold validate
  rw [hfinite, decide_eq_false hsink, hnone]
  rfl

theorem NetworkParams.chooseMaterial_eq_ok [Analytic α] {p : NetworkParams α} {m : Material α}
    (h : p.chooseMaterial = .ok m) : p.validate = .ok () ∧ p.material.build p = .ok m := by
  obtain ⟨_, hvalid, hbuild⟩ := bind_eq_ok.mp h
  exact ⟨hvalid, hbuild⟩

/-- One helium atom in one vacancy. -/
def Composition.bubble : Composition := { helium := 1, vacancy := 1 }

/-- What the metals share: axes, partition and emissions. -/
structure Material.IsMetal [Analytic α] (p : NetworkParams α) (m : Material α) (d : DefectSpace) :
    Prop where
  space_eq : m.space = DefectSpace.space
  rule_eq : m.rule = d.rule (p.grouping.map .ofGrouping)
  monomers_eq : m.monomers = RateLaw.defectMonomers
  maxHelium_eq : d.maxHelium = p.maxHelium.toNat
  maxVacancy_eq : d.maxVacancy = p.maxVacancy.toNat
  maxInterstitial_eq : d.maxInterstitial = p.maxInterstitial.toNat
  slope_eq : d.slope = 4
  intercept_nonneg : 0 ≤ d.intercept
  emits : ∀ s ∈ [Species.helium, .vacancy], m.canEmit .bubble (.single s 1) = true

theorem Tungsten.isMetal [Analytic α] (p : NetworkParams α) :
    (Tungsten.material p).IsMetal p (Tungsten.defects p) :=
  have hemits : ∀ s ∈ [Species.helium, .vacancy], Tungsten.canEmit .bubble (.single s 1) = true := by decide
  ⟨rfl, rfl, rfl, rfl, rfl, rfl, rfl, Int.le_of_lt (by decide : (0 : Int) < 5), hemits⟩

theorem Iron.isMetal [Analytic α] (p : NetworkParams α) : (Iron.material p).IsMetal p (Iron.defects p) :=
  have hemits : ∀ s ∈ [Species.helium, .vacancy], Iron.canEmit .bubble (.single s 1) = true := by decide
  ⟨rfl, rfl, rfl, rfl, rfl, rfl, rfl, le_refl (0 : Int), hemits⟩

/-- What is built is the material of the configured kind. -/
theorem NetworkParams.material_of_chooseMaterial [Analytic α] {p : NetworkParams α} {m : Material α}
    (h : p.chooseMaterial = .ok m) :
    p.material = .tungsten ∧ m = Tungsten.material p ∨ p.material = .iron ∧ m = Iron.material p ∨
      p.material = .xenon ∧ m = Xenon.material p := by
  obtain ⟨-, h⟩ := NetworkParams.chooseMaterial_eq_ok h
  unfold MaterialKind.build at h
  split at h
  · split_ifs at h
    cases h
    exact .inl ⟨‹_›, rfl⟩
  · cases h
    exact .inr (.inl ⟨‹_›, rfl⟩)
  · split_ifs at h
    cases h
    exact .inr (.inr ⟨‹_›, rfl⟩)

theorem Material.isMetal_of_chooseMaterial [Analytic α] {p : NetworkParams α} {m : Material α}
    (h : p.chooseMaterial = .ok m) (hx : p.material ≠ .xenon) : ∃ d, m.IsMetal p d := by
  obtain ⟨-, rfl⟩ | ⟨-, rfl⟩ | ⟨hxenon, -⟩ := NetworkParams.material_of_chooseMaterial h
  · exact ⟨_, Tungsten.isMetal p⟩
  · exact ⟨_, Iron.isMetal p⟩
  · exact absurd hxenon hx

theorem Material.monomers_of_xenon [Analytic α] {p : NetworkParams α} {m : Material α}
    (h : p.chooseMaterial = .ok m) (hx : p.material = .xenon) : m.monomers = [.single .xenon 1] := by
  obtain ⟨h, -⟩ | ⟨h, -⟩ | ⟨-, rfl⟩ := NetworkParams.material_of_chooseMaterial h
  · cases hx.symm.trans h
  · cases hx.symm.trans h
  · rfl

/-- The place of a monomer of the metals. -/
theorem DefectSpace.eq_of_listed {c : Composition} {y : Point} (hlisted : c ∈ RateLaw.defectMonomers)
    (hplace : space.toPoint c = .ok y) :
    c = .single .helium 1 ∧ y = point 1 0 ∨ c = .single .vacancy 1 ∧ y = point 0 1 ∨
      c = .single .interstitial 1 ∧ y = point 0 (-1) := by
  simp only [RateLaw.defectMonomers, List.mem_cons, List.not_mem_nil, or_false] at hlisted
  rcases hlisted with rfl | rfl | rfl
  · exact .inl ⟨rfl, (Except.ok.inj hplace).symm⟩
  · exact .inr (.inl ⟨rfl, (Except.ok.inj hplace).symm⟩)
  · exact .inr (.inr ⟨rfl, (Except.ok.inj hplace).symm⟩)

/-! ### Below the first bin -/

theorem Region.refineMask_below [Analytic α] {r : Region} {dim : Nat} {primary : Direction}
    {schedule : Option (BinSchedule α)} (h : ∀ s, schedule = some s → r.lo.get primary < s.start)
    (full : Bool) : r.refineMask dim primary schedule full = r.widerThan dim 1 := by
  unfold refineMask
  cases schedule with
  | none => rfl
  | some s => exact if_pos (h s rfl)

/-- A region that is not cut has at most the allowed width along each of the first axes. -/
theorem Region.width_le_of_uncut {r : Region} {dim : Nat} {limit : Int} (hlimit : 1 ≤ limit)
    (h : ¬1 < (r.bisect (r.widerThan dim limit)).length) {a : Direction} (ha : a.val < dim) :
    r.width a ≤ limit := by
  by_contra hwide
  have hmask : (r.widerThan dim limit).get a = true := by
    rw [widerThan, get_ofFn]
    simp only [ha, decide_true, Bool.true_and, decide_eq_true_eq]
    omega
  exact hwide ((width_le_one_of_bisect h hmask).trans hlimit)

/-- A region with a point that has one value on each axis is a unit region. -/
theorem Region.isUnit_of_width_le_one {r : Region} (hne : r.isEmpty = false)
    (h : ∀ a : Direction, r.width a ≤ 1) : r.isUnit = true := by
  refine isUnit_iff.mpr fun a => ?_
  have hpos := isEmpty_eq_false.mp hne a
  have hle := h a
  rw [width] at hle ⊢
  omega

/-- A region in the plane that cannot be cut along the first two axes is a single point. -/
theorem Region.isUnit_of_uncut {r : Region} (hne : r.isEmpty = false)
    (hplane : ∀ a : Direction, 2 ≤ a.val → r.width a ≤ 1)
    (h : ¬1 < (r.bisect (r.widerThan 2 1)).length) : r.isUnit = true := by
  refine isUnit_of_width_le_one hne fun a => ?_
  by_cases ha : a.val < 2
  · exact width_le_of_uncut (le_refl 1) h ha
  · exact hplane a (by omega)

theorem Material.IsMetal.nonneg [Analytic α] {p : NetworkParams α} {m : Material α} {d : DefectSpace}
    (hm : m.IsMetal p d) :
    0 ≤ d.maxHelium ∧ 0 ≤ d.maxInterstitial ∧ 0 ≤ d.maxVacancy ∧ 0 ≤ d.slope := by
  rw [hm.maxHelium_eq, hm.maxInterstitial_eq, hm.maxVacancy_eq, hm.slope_eq]
  omega

/-- Single helium atoms, single vacancies and their pair are admissible as soon as both defects are. -/
theorem Material.IsMetal.isAdmissible_low [Analytic α] {p : NetworkParams α} {m : Material α}
    {d : DefectSpace} (hm : m.IsMetal p d) (hh : 1 ≤ d.maxHelium) (hv : 1 ≤ d.maxVacancy) :
    ∀ h x, h = 1 ∧ x = 0 ∨ h = 0 ∧ x = 1 ∨ h = 1 ∧ x = 1 → d.isAdmissible (point h x) = true := by
  obtain ⟨-, hi, hv0, -⟩ := hm.nonneg
  have hcap : 1 ≤ d.heliumCap 1 := by
    have h4 := hm.slope_eq
    have h0 := hm.intercept_nonneg
    rw [heliumCap, if_neg (by omega), if_neg (by decide)]
    omega
  have hcolumn : d.column 0 = (1, d.maxHelium) ∧ d.column 1 = (0, d.heliumCap 1) := ⟨rfl, rfl⟩
  rintro h x (⟨rfl, rfl⟩ | ⟨rfl, rfl⟩ | ⟨rfl, rfl⟩) <;> refine (isAdmissible_point hi hv0).mpr ?_ <;>
    simp only [hcolumn] <;> omega

namespace Network.Generated

variable [Analytic α] {n : Network α} {params : NetworkParams α} {p : Partition} {d : DefectSpace}
variable (G : n.Generated p) (hm : n.material.IsMetal params d)
include G hm

theorem isAdmissible {c : Cluster α} (hc : c ∈ n.clusters) {x : Point} (hx : c.region.contains x = true) :
    d.isAdmissible x = true := by
  have hselects := G.selects hc
  rw [hm.rule_eq] at hselects
  exact (selects_iff hm.nonneg.2.1 hm.nonneg.2.2.1).mp hselects x hx

variable (hchoice : params.chooseMaterial = .ok n.material)
include hchoice

/-- A cell that holds an admissible point with at most one vacancy is that point alone. -/
theorem isUnit_of_contains {cell : Cell} (hcell : cell ∈ p.cells) {h x : Int} (hx : x ≤ 1)
    (ha : d.isAdmissible (point h x) = true) (hin : cell.region.contains (point h x) = true) :
    cell.fate ≠ .pruned ∧ cell.region.isUnit = true := by
  obtain ⟨-, hi, hv, -⟩ := hm.nonneg
  have S := G.exhausts.settled cell hcell
  have hmeet : n.material.rule.intersects cell.region = true := by
    rw [hm.rule_eq]
    exact (intersects_iff hi hv).mpr ⟨_, hin, ha⟩
  have hfate : cell.fate ≠ .pruned := fun hf => by
    rw [S.pruned_iff.mp hf] at hmeet
    cases hmeet
  have hwithin := G.exhausts.within cell hcell
  rw [hm.rule_eq] at hwithin
  refine ⟨hfate, Region.isUnit_of_uncut ?_ (fun a ha => ?_) ?_⟩
  · exact Region.isEmpty_of_contains hin
  · have hlo : d.bounds.lo.get a = 0 ∧ d.bounds.hi.get a = 1 := by
      match a, ha with
      | 2, _ => exact ⟨rfl, rfl⟩
      | 3, _ => exact ⟨rfl, rfl⟩
    have hb : d.bounds.lo.get a ≤ cell.region.lo.get a ∧ cell.region.hi.get a ≤ d.bounds.hi.get a :=
      hwithin a
    rw [Region.width]
    omega
  · have hmask : n.material.rule.refine cell.region = cell.region.widerThan 2 1 := by
      rw [hm.rule_eq]
      refine Region.refineMask_below (fun s hs => ?_) _
      obtain ⟨g, hg, rfl⟩ := Option.map_eq_some_iff.mp hs
      have hstart : g.start ≥ 2 :=
        (NetworkParams.grouping_of_validate (NetworkParams.chooseMaterial_eq_ok hchoice).1 hg).2.2
      have h2 : 2 ≤ g.start.toNat := UInt32.le_iff_toNat_le.mp hstart
      have hlo : cell.region.lo.get defectAxis ≤ x := (Region.contains_iff.mp hin defectAxis).1
      rw [show (BinSchedule.ofGrouping g).start = g.start.toNat from rfl]
      omega
    exact hmask ▸ S.whole hfate

/-- A cluster that holds an admissible point with at most one vacancy stands for it alone. -/
theorem lo_eq_point {c : Cluster α} (hc : c ∈ n.clusters) {h x : Int} (hx : x ≤ 1)
    (hin : c.region.contains (point h x) = true) :
    c.region.isUnit = true ∧ c.region.lo = point h x := by
  have hcell := Partition.mem_regions.mp (G.of_mem_clusters hc).1
  have hunit := (G.isUnit_of_contains hm hchoice hcell hx (G.isAdmissible hm hc hin) hin).2
  exact ⟨hunit, ((Region.contains_of_isUnit hunit).mp hin).symm⟩

/-- Every admissible point with at most one vacancy has a cluster of its own. -/
theorem exists_cluster_point {h x : Int} (hx : x ≤ 1) (ha : d.isAdmissible (point h x) = true) :
    ∃ c ∈ n.clusters, c.region.isUnit = true ∧ c.region.lo = point h x := by
  obtain ⟨hh, hi, hv, hs⟩ := hm.nonneg
  have hbounds : n.material.rule.bounds.contains (point h x) = true := by
    rw [hm.rule_eq]
    exact contains_bounds hh hi hv hs ha
  obtain ⟨cell, hcell, hin⟩ := G.exhausts.covers _ hbounds
  obtain ⟨hfate, hunit⟩ := G.isUnit_of_contains hm hchoice hcell hx ha hin
  have hlo := (Region.contains_of_isUnit hunit).mp hin
  have hselects : n.material.rule.selects cell.region = true := by
    rw [hm.rule_eq]
    refine (selects_iff hi hv).mpr fun q hq => ?_
    rwa [(Region.contains_of_isUnit hunit).mp hq, ← hlo]
  have hadmitted : cell.region ∈ p.regions .admitted :=
    Partition.mem_regions.mpr (((G.exhausts.settled cell hcell).admitted_iff hfate).mpr hselects ▸ hcell)
  obtain ⟨c, hc, he⟩ := G.exists_cluster hadmitted
  exact ⟨c, hc, he ▸ hunit, he ▸ hlo.symm⟩

end Network.Generated
end ClusterDynamics
