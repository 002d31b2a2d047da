import ClusterDynamics.Proofs.Coverage

/-! Which compositions move. In every material a mobile composition has at most one unit of what its
    clusters are grouped by: one vacancy in the metals, one atom of xenon. Bins begin at two, so a region
    that holds a mobile composition is cut down to that composition alone. -/

namespace ClusterDynamics

variable {α : Type}

/-! ### Mobile compositions -/

theorem Composition.isMixed_of_pos {c : Composition} {s t : Species} (hst : s ≠ t) (hs : 0 < c.get s)
    (ht : 0 < c.get t) : c.isMixed = true := by
  have hmem : ∀ {u : Species}, 0 < c.get u → (u, c.get u) ∈ c.entries := by
    intro u hu
    simp [entries, hu, Species.mem_all]
  have hs := hmem hs
  have ht := hmem ht
  unfold isMixed
  rcases hentries : c.entries with _ | ⟨e, _ | ⟨f, rest⟩⟩
  · simp [hentries] at hs
  · rw [hentries, List.mem_singleton] at hs ht
    exact absurd (congrArg Prod.fst (hs.trans ht.symm)) hst
  · simp

theorem Material.exists_of_moves [Scalar α] {m : Material α} {c : Composition} (h : m.moves c = true) :
    ∃ e, m.migrationEnergy c = some e := by
  rw [moves, Bool.and_eq_true] at h
  cases he : m.migrationEnergy c with
  | none => simp [he] at h
  | some e => exact ⟨e, rfl⟩

theorem Tungsten.vacancy_le_one [Scalar α] {c : Composition} {e : α} (h : migrationEnergy c = some e) :
    c.vacancy.toNat ≤ 1 := by
  have hpure : ∀ {s t : Species}, s ≠ t → c.isMixed = false → 0 < c.get s → ¬0 < c.get t := by
    intro s t hst hmixed hs ht
    rw [Composition.isMixed_of_pos hst hs ht] at hmixed
    cases hmixed
  unfold migrationEnergy at h
  split_ifs at h with hnone hhelium hinterstitial
  all_goals
    have hmixed : c.isMixed = false := by
      simp only [Bool.or_eq_true, not_or, Bool.not_eq_true] at hnone
      exact hnone.1
  · have := toNat_of_not_pos (hpure (s := .helium) (t := .vacancy) (by decide) hmixed hhelium)
    change c.vacancy.toNat = 0 at this
    omega
  · have := toNat_of_not_pos (hpure (s := .interstitial) (t := .vacancy) (by decide) hmixed hinterstitial)
    change c.vacancy.toNat = 0 at this
    omega
  · -- The table of vacancies has one entry.
    obtain ⟨hlt, -⟩ := List.getElem?_eq_some_iff.mp h
    have hlen : (vacancyMigration : List α).length = 1 := rfl
    have htotal : c.vacancy.toNat ≤ c.total := by
      unfold Composition.total
      omega
    omega

theorem Iron.vacancy_le_one [Scalar α] {c : Composition} {e : α} (h : migrationEnergy c = some e) :
    c.vacancy.toNat ≤ 1 := by
  obtain ⟨k, hk, -⟩ := Option.map_eq_some_iff.mp h
  unfold mover? at hk
  split_ifs at hk with hmixed hhelium hvacancy hinterstitial
  · simp [hhelium.2.2.1]
  · simp [hvacancy.2.1]
  · simp [hinterstitial.2.1]

theorem Xenon.eq_one_of_migration [Analytic α] {p : NetworkParams α} {c : Composition} {e : α}
    (h : (material p).migrationEnergy c = some e) : c.xenon = 1 := by
  have h : (if c.xenon = 1 then some (3.04 : α) else none) = some e := h
  split_ifs at h with hone
  exact hone

/-! ### Bins -/

/-- Regions are cut along the first `dim` axes, in bins along one of them that begin at two or above, and
    whatever moves stays below two on that axis. -/
structure Material.Binned [Analytic α] (m : Material α) (admits : Point → Bool) (dim : Nat)
    (primary : Direction) (schedule : Option (BinSchedule α)) : Prop where
  refine_eq : ∀ r, m.rule.refine r = r.refineMask dim primary schedule (m.rule.selects r)
  flat : ∀ a : Direction, dim ≤ a.val → m.rule.bounds.width a ≤ 1
  late : ∀ s, schedule = some s → 2 ≤ s.start
  movers : ∀ x, admits x = true → (∀ a : Direction, (x.get a).natAbs < 4294967296) →
    m.moves (m.space.toComposition x) = true → x.get primary ≤ 1

namespace Material

variable [Analytic α] {p : NetworkParams α} {m : Material α}

theorem late_of_validate (h : p.validate = .ok ()) {s : BinSchedule α}
    (hs : p.grouping.map .ofGrouping = some s) : 2 ≤ s.start := by
  obtain ⟨g, hg, rfl⟩ := Option.map_eq_some_iff.mp hs
  have hstart := UInt32.le_iff_toNat_le.mp (NetworkParams.grouping_of_validate h hg).2.2
  have htwo : (2 : UInt32).toNat = 2 := rfl
  rw [BinSchedule.ofGrouping]
  show (2 : Int) ≤ (g.start.toNat : Int)
  omega

theorem IsMetal.binned {d : DefectSpace} (hm : m.IsMetal p d) (hvalid : p.validate = .ok ())
    (hslow : ∀ {c : Composition} {e : α}, m.migrationEnergy c = some e → c.vacancy.toNat ≤ 1) :
    m.Binned d.isAdmissible 2 DefectSpace.defectAxis (p.grouping.map .ofGrouping) := by
  refine ⟨?_, ?_, fun s hs => late_of_validate hvalid hs, ?_⟩
  · intro r
    rw [hm.rule_eq]
    rfl
  · intro a ha
    rw [hm.rule_eq]
    exact (DefectSpace.width_bounds (d := d) ha).le
  · intro x hx hfit hmoves
    obtain ⟨-, hi, hv, -⟩ := hm.nonneg
    have he := DefectSpace.eq_point_of_isAdmissible hx
    rw [he] at hx
    have hhelium := ((DefectSpace.isAdmissible_point hi hv).mp hx).1
    obtain ⟨e, hmigration⟩ := exists_of_moves hmoves
    have hvacancy := hslow hmigration
    by_contra hlarge
    rw [hm.space_eq, he, DefectSpace.toComposition_point hhelium, if_neg (by omega)] at hvacancy
    change (UInt32.ofNat (x.get DefectSpace.defectAxis).natAbs).toNat ≤ 1 at hvacancy
    rw [UInt32.toNat_ofNat_of_lt' (hfit _)] at hvacancy
    omega

theorem binned_xenon (hvalid : p.validate = .ok ()) :
    (Xenon.material p).Binned (Xenon.isAdmissible p.maxXenon.toNat) 1 Direction.first
      (p.grouping.map .ofGrouping) := by
  refine ⟨fun _ => rfl, fun _ ha => (Xenon.width_bounds ha).le, fun s hs => late_of_validate hvalid hs, ?_⟩
  intro x hx hfit hmoves
  obtain ⟨k, hk, rfl⟩ := Xenon.isAdmissible_iff.mp hx
  obtain ⟨e, hmigration⟩ := exists_of_moves hmoves
  have hatoms := congrArg UInt32.toNat (Xenon.eq_one_of_migration hmigration)
  rw [show (Xenon.material p).space = Xenon.space from rfl, Xenon.toComposition_point hk.1] at hatoms
  change (UInt32.ofNat k.natAbs).toNat = 1 at hatoms
  have hfit : k.natAbs < 4294967296 := hfit Direction.first
  rw [UInt32.toNat_ofNat_of_lt' hfit] at hatoms
  show k ≤ 1
  omega

/-- Every configured material keeps what moves below its bins. -/
theorem binned_of_chooseMaterial (h : p.chooseMaterial = .ok m) :
    ∃ dim primary, m.Binned p.admits dim primary (p.grouping.map .ofGrouping) := by
  have hvalid := (NetworkParams.chooseMaterial_eq_ok h).1
  obtain ⟨hkind, rfl⟩ | ⟨hkind, rfl⟩ | ⟨hkind, rfl⟩ := NetworkParams.material_of_chooseMaterial h
  · rw [NetworkParams.admits_tungsten hkind]
    exact ⟨_, _, (Tungsten.isMetal p).binned hvalid Tungsten.vacancy_le_one⟩
  · rw [NetworkParams.admits_iron hkind]
    exact ⟨_, _, (Iron.isMetal p).binned hvalid Iron.vacancy_le_one⟩
  · rw [NetworkParams.admits_xenon hkind]
    exact ⟨_, _, binned_xenon hvalid⟩

end Material

namespace Network.Generated

variable [Analytic α] {n : Network α} {p : Partition} (G : n.Generated p) {admits : Point → Bool}
  (T : n.material.Tracks admits) {dim : Nat} {primary : Direction} {schedule : Option (BinSchedule α)}
  (B : n.material.Binned admits dim primary schedule) {c : Cluster α} (hc : c ∈ n.clusters)
include G T B hc

/-- A cluster that begins below the bins stands for one composition. -/
theorem isUnit_of_below (hbelow : ∀ s, schedule = some s → c.region.lo.get primary < s.start) :
    c.region.isUnit = true := by
  have hmem := (G.of_mem_clusters hc).1
  have hcell := Partition.mem_regions.mp hmem
  have hwithin := G.exhausts.within _ hcell
  have huncut := (G.exhausts.settled _ hcell).whole (fun h => nomatch h)
  rw [B.refine_eq, Region.refineMask_below hbelow] at huncut
  have hempty := T.rule.isEmpty_of_mem (Material.partition_eq_ok G.partition) hmem
  refine Region.isUnit_of_width_le_one hempty ?_
  intro a
  by_cases ha : a.val < dim
  · exact Region.width_le_of_uncut (le_refl 1) huncut ha
  · have hflat := B.flat a (by omega)
    have hinside : n.material.rule.bounds.lo.get a ≤ c.region.lo.get a ∧
        c.region.hi.get a ≤ n.material.rule.bounds.hi.get a := hwithin a
    rw [Region.width] at hflat ⊢
    omega

theorem isUnit_of_low (hlo : c.region.lo.get primary ≤ 1) : c.region.isUnit = true := by
  refine G.isUnit_of_below T B hc fun s hs => ?_
  have hstart := B.late s hs
  omega

/-- A cluster that holds a mobile composition stands for it alone. -/
theorem isUnit_of_moves (hcounts : Countable admits) {x : Point} (hx : c.region.contains x = true)
    (hmoves : n.material.moves (n.material.space.toComposition x) = true) : c.region.isUnit = true := by
  have hadmits := G.admits_of_contains T hc hx
  have hlow := B.movers x hadmits (hcounts x hadmits) hmoves
  have hlo := (Region.contains_iff.mp hx primary).1
  exact G.isUnit_of_low T B hc (by omega)

end Network.Generated
end ClusterDynamics
