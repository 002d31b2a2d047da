import ClusterDynamics.Proofs.Events
import ClusterDynamics.Proofs.Reactions
import ClusterDynamics.Proofs.RoundTrip

/-! Networks of small clusters. When the corners of all regions stay far below the largest machine word,
    nothing that is computed from them leaves it, whichever clusters move. So a construction can be
    followed without comparing scalars. -/

namespace ClusterDynamics

variable {α : Type}

/-! ### Small regions -/

namespace Region

/-- All coordinates of the corners are at most `2 ^ 60` in magnitude. -/
def compact (r : Region) : Bool :=
  directions.all fun a => decide ((r.lo.get a).natAbs ≤ 1152921504606846976) &&
    decide ((r.hi.get a).natAbs ≤ 1152921504606846976)

variable {r s q : Region}

theorem compact_iff : r.compact = true ↔ ∀ a : Direction,
    (r.lo.get a).natAbs ≤ 1152921504606846976 ∧ (r.hi.get a).natAbs ≤ 1152921504606846976 := by
  simp only [compact, List.all_eq_true, Bool.and_eq_true, decide_eq_true_eq]
  exact ⟨fun h a => h a (mem_directions a), fun h a _ => h a⟩

theorem compact_ofInclusive {l : List (Int × Int)}
    (h : ∀ b ∈ l, -1152921504606846976 ≤ b.1 ∧ b.1 ≤ b.2 ∧ b.2 < 1152921504606846976) :
    (ofInclusive l).compact = true ∧ (ofInclusive l).isEmpty = false := by
  have hcorners : ∀ a : Direction, -1152921504606846976 ≤ (ofInclusive l).lo.get a ∧
      (ofInclusive l).lo.get a < (ofInclusive l).hi.get a ∧ (ofInclusive l).hi.get a ≤ 1152921504606846976 := by
    intro a
    simp only [ofInclusive, get_ofFn]
    cases hb : l[a.val]? with
    | none => exact ⟨by decide, by decide, by decide⟩
    | some b =>
      have hmem := h b (List.mem_of_getElem? hb)
      simp only [Option.map_some, Option.getD_some]
      omega
  refine ⟨compact_iff.mpr fun a => ?_, isEmpty_eq_false.mpr fun a => (hcorners a).2.1⟩
  have ha := hcorners a
  omega

/-- What a small region shares with another one is small. -/
theorem compact_of_intersection? (h : r.intersection? s = some q) (hr : r.compact = true) :
    q.compact = true := by
  obtain ⟨hmeet, rfl⟩ := intersection?_eq_some.mp h
  refine compact_iff.mpr fun a => ?_
  have hcommon := intersects_iff.mp hmeet a
  have hcorners := compact_iff.mp hr a
  simp only [meet, get_ofFn]
  omega

theorem compact_unit {x : Point} (h : r.contains x = true) (hr : r.compact = true) :
    (unit x).compact = true := by
  refine compact_iff.mpr fun a => ?_
  have hx := contains_iff.mp h a
  have hcorners := compact_iff.mp hr a
  simp only [unit, get_ofFn]
  omega

theorem compact_of_within (h : r.Within s) (hne : r.isEmpty = false) (hs : s.compact = true) :
    r.compact = true := by
  refine compact_iff.mpr fun a => ?_
  have hin := h a
  have hpos := isEmpty_eq_false.mp hne a
  have hcorners := compact_iff.mp hs a
  omega

theorem settledFits_of_compact (h : r.compact = true) {settles : Direction → Bool} :
    ∀ l : List Direction, r.settledFits settles l = true
  | [] => rfl
  | a :: l => by
    have hcorners := compact_iff.mp h a
    rw [settledFits, settledFits_of_compact h l, Bool.or_true, Bool.and_true, widthFits, fits_iff, width]
    omega

theorem widthsFit_of_compact (h : r.compact = true) : r.widthsFit = true := by
  refine List.all_eq_true.mpr fun a _ => ?_
  have hcorners := compact_iff.mp h a
  rw [widthFits, fits_iff, width]
  omega

theorem representativeFits_of_compact (h : r.compact = true) : r.representativeFits = true := by
  refine List.all_eq_true.mpr fun a _ => ?_
  have hcorners := compact_iff.mp h a
  rw [fits_iff]
  omega

theorem anchorFits_of_compact (h : r.compact = true) : r.anchorFits = true := by
  rw [anchorFits, isUnitFits, settledFits_of_compact h, representativeFits_of_compact h, Bool.or_true]
  rfl

/-- With a value on every axis, the extents multiply up to the volume, so only the last product matters. -/
theorem volumeFits_of_compact (h : r.compact = true) (hne : r.isEmpty = false) (hvolume : fits r.volume = true) :
    r.volumeFits = true := by
  have hone : ∀ a, 1 ≤ r.extent a := fun a => by
    have hpos := isEmpty_eq_false.mp hne a
    rw [extent, width]
    omega
  have hplane : 0 ≤ r.extent Direction.first * r.extent Direction.second :=
    Int.mul_nonneg (by have := hone Direction.first; omega) (by have := hone Direction.second; omega)
  have hthird : r.extent Direction.first * r.extent Direction.second ≤
      r.extent Direction.first * r.extent Direction.second * r.extent Direction.third :=
    le_mul_of_one_le_right hplane (hone _)
  have hfourth : r.extent Direction.first * r.extent Direction.second * r.extent Direction.third ≤ r.volume :=
    le_mul_of_one_le_right (hplane.trans hthird) (hone _)
  rw [fits_iff] at hvolume
  rw [volumeFits, widthsFit_of_compact h, Bool.true_and]
  simp only [Bool.and_eq_true, fits_iff]
  omega

theorem textFits_of_compact (h : r.compact = true) : r.textFits = true := by
  simp only [textFits, List.all_eq_true, Bool.and_eq_true, Bool.or_eq_true]
  intro a _
  have hcorners := compact_iff.mp h a
  rw [widthFits, fits_iff, fits_iff, width]
  omega

theorem shiftFits_of_compact (hr : r.compact = true) (hs : s.compact = true) :
    r.shiftFits s.lo = true ∧ r.shiftFits s.lo.neg = true := by
  simp only [shiftFits, List.all_eq_true, Bool.and_eq_true, fits_iff, Point.get_neg]
  constructor <;> intro a _ <;> have hcorners := compact_iff.mp hr a <;>
    have hcorners' := compact_iff.mp hs a <;> omega

theorem coefficientsFit_of_compact [Scalar α] {this grouped : Region} {shift : Point} (h : q.compact = true) :
    Moment.coefficientsFit α this shift grouped q = true := by
  refine Bool.or_eq_true_iff.mpr (.inl (List.all_eq_true.mpr fun a _ => ?_))
  have hcorners := compact_iff.mp h a
  simp only [axisSumFits, Bool.and_eq_true, Bool.or_eq_true, fits_iff, decide_eq_true_eq]
  omega

end Region

/-! ### Small clusters -/

namespace Population

/-- Every cluster has a small region. -/
def Compact (p : Population α) : Prop := ∀ c ∈ p.clusters, c.region.compact = true

variable [Scalar α] {p : Population α} (S : p.Sound) (C : p.Compact)
include S C

theorem rangeFits_ofOperands {g s : Cluster α} (hg : g ∈ p.clusters) (hs : s ∈ p.clusters) :
    (Encounter.ofOperands p g s).rangeFits p = true := by
  have hshift := Region.shiftFits_of_compact (C g hg) (C s hs)
  have hcorner := Region.compact_iff.mp (C s hs)
  unfold Encounter.rangeFits
  rw [show p.region? (Encounter.ofOperands p g s).first = some g.region from S.region?_id hg,
    show p.region? (Encounter.ofOperands p g s).second = some s.region from S.region?_id hs]
  simp only [Bool.and_eq_true, List.all_eq_true]
  refine ⟨⟨⟨?_, hshift.1⟩, ?_⟩, fun q hq => ?_⟩
  · refine List.all_eq_true.mpr fun a _ => ?_
    have hlo := hcorner a
    show fits (-s.region.lo.get a) = true
    rw [fits_iff]
    omega
  · refine Bool.or_eq_true_iff.mpr (.inr (List.all_eq_true.mpr fun a _ => ?_))
    have hlo := hcorner a
    show fits (s.region.lo.neg.get a + 1) = true
    rw [fits_iff, Point.get_neg]
    omega
  · rcases Encounter.of_mem_pieces S hq with ⟨hproduct, hbox, hin⟩ | ⟨c, hc, hproduct, hbox⟩
    · have hq : q.box.compact = true := hbox ▸ Region.compact_unit hin (C g hg)
      rw [hproduct]
      exact ⟨⟨Region.coefficientsFit_of_compact hq, Region.coefficientsFit_of_compact hq⟩, rfl⟩
    · have hq := Region.compact_of_intersection? hbox (C g hg)
      rw [hproduct, Option.all_some, S.region?_id hc, Option.all_some]
      exact ⟨⟨Region.coefficientsFit_of_compact hq, Region.coefficientsFit_of_compact hq⟩,
        Bool.and_eq_true_iff.mpr
          ⟨(Region.shiftFits_of_compact (C c hc) (C s hs)).2, Region.coefficientsFit_of_compact hq⟩⟩

theorem rangeFits_channel {c : Channel} {parent monomer remainder : Cluster α} (hparent : parent ∈ p.clusters)
    (hmonomer : monomer ∈ p.clusters) (hremainder : remainder ∈ p.clusters)
    (hc : c.Joins parent monomer remainder) : c.boxFits p = true ∧ c.rangeFits p = true := by
  have hbox := Region.compact_of_intersection? hc.box_eq (C parent hparent)
  have hshift := Region.shiftFits_of_compact (C remainder hremainder) (C monomer hmonomer)
  have hcorner := Region.compact_iff.mp (C monomer hmonomer)
  unfold Channel.boxFits Channel.rangeFits
  rw [hc.parent_eq, hc.monomer_eq, hc.remainder_eq, S.region?_id hparent, S.region?_id hmonomer,
    S.region?_id hremainder, hc.offset_eq, Option.all_some]
  refine ⟨hshift.1, ?_⟩
  simp only [Bool.and_eq_true, List.all_eq_true, Region.coefficientsFit_of_compact hbox, and_true]
  refine ⟨List.all_eq_true.mpr fun a _ => ?_, fun a _ => ?_⟩
  · have hcorners := Region.compact_iff.mp hbox a
    rw [fits_iff]
    omega
  · have hcorners := Region.compact_iff.mp hbox a
    have hlo := hcorner a
    rw [Region.get_representative, fits_iff]
    omega

end Population

/-- The reactions of small clusters are computed with machine words, whichever of the clusters move. -/
theorem ReactionPlan.rangeFits_of_compact [Scalar α] {m : Material α} {p : Population α} (S : p.Sound)
    (C : p.Compact) (placed : ∀ c ∈ p.clusters, c.region.isUnit = true →
      m.space.toPoint c.composition = .ok c.region.lo) (hfits : Channel.allFit m p = true) :
    (ofPopulation m p).rangeFits m p = true := by
  have hchannel : ∀ c ∈ Channel.all m p, c.boxFits p = true ∧ c.rangeFits p = true := by
    intro c hc
    obtain ⟨parent, hparent, monomer, hmonomer, remainder, hremainder, hjoins, -⟩ :=
      Channel.of_mem_all S placed hc
    exact Population.rangeFits_channel S C hparent hmonomer hremainder hjoins
  simp only [rangeFits, Bool.and_eq_true, List.all_eq_true]
  refine ⟨⟨⟨fun e he => ?_, hfits⟩, fun c hc => ?_⟩, fun d hd => ?_⟩
  · obtain ⟨g, hg, s, hs, -, -, rfl⟩ := Encounter.of_mem_all he
    exact Population.rangeFits_ofOperands S C hg hs
  · obtain ⟨c', hc', rfl⟩ := List.mem_map.mp hc
    exact (hchannel c' hc').1
  · obtain ⟨c, hc, he⟩ := List.mem_filterMap.mp hd
    obtain ⟨c', hc', rfl⟩ := List.mem_map.mp hc
    obtain ⟨reverse, -, rfl⟩ := Option.map_eq_some_iff.mp he
    exact (hchannel c' hc').2

/-! ### Builders -/

theorem RegionTree.build_ne_overflow {list : List Entry} (hpositions : positionsFit list = true)
    (hcompact : ∀ e ∈ list, e.region.compact = true) : build list ≠ .error .overflow := by
  unfold build
  rw [hpositions]
  intro h
  cases hoverlap : (arrange list).firstOverlap? with
  | none => simp [hoverlap] at h
  | some found =>
    obtain ⟨e, other⟩ := found
    have he := (firstOverlap?_eq_some (bounded_arrange list) hoverlap).1
    have htext := Region.textFits_of_compact (hcompact e ((entries_arrange list).mem_iff.mp he))
    simp [hoverlap, htext] at h

theorem Population.ofSeeds_ne_overflow [Scalar α] {seeds : List (ClusterSeed α)}
    (hseeds : ∀ s ∈ seeds, s.layoutFits = true ∧ s.region.compact = true)
    (hpositions : RegionTree.positionsFit (entriesOf (clustersOf seeds)) = true) :
    ofSeeds seeds ≠ .error .overflow := by
  have hbuild : RegionTree.build (entriesOf (clustersOf seeds)) ≠ .error .overflow := by
    refine RegionTree.build_ne_overflow hpositions fun e he => ?_
    obtain ⟨c, hc, rfl⟩ := List.mem_map.mp he
    obtain ⟨s, hs, i, free, rfl⟩ := seed_of_mem (List.mem_toArray.mpr hc)
    exact (hseeds s hs).2
  intro hfault
  unfold ofSeeds at hfault
  rw [List.all_eq_true.mpr fun s hs => (hseeds s hs).1] at hfault
  cases htree : RegionTree.build (entriesOf (clustersOf seeds)) with
  | ok tree =>
    simp only [htree] at hfault
    cases hfault
  | error cause =>
    simp only [htree] at hfault
    cases cause with
    | overflow => exact hbuild htree
    | overlap id other r => cases hfault

/-- The seeds are laid out with machine words, and their regions are small. -/
def Material.keepsSmall (m : Material α) (seeds : List (ClusterSeed α)) : Bool :=
  let clusters := Population.clustersOf seeds
  (seeds.all fun s => s.layoutFits && s.region.compact) &&
    RegionTree.positionsFit (Population.entriesOf clusters) && Channel.allFit m ⟨clusters.toArray, .empty, 0⟩

namespace Builder

variable {b : Builder α}

theorem addAll_of_accepted : ∀ {seeds : List (ClusterSeed α)} {b : Builder α},
    ({ b with seeds := (b.seeds.toList ++ seeds).toArray } : Builder α).Accepted →
      b.addAll seeds = ({ b with seeds := (b.seeds.toList ++ seeds).toArray }, .ok ())
  | [], b, _ => by simp [addAll]
  | s :: rest, b, h => by
    have hpush : b.seeds.toList ++ s :: rest = (b.seeds.push s).toList ++ rest := by simp
    rw [hpush] at h ⊢
    have hhere : ({ b with seeds := (b.seeds.push s).toList.toArray } : Builder α).Accepted :=
      h.of_subperm (List.sublist_append_left _ rest).subperm
    have hadd : b.add s = .ok { b with seeds := b.seeds.push s } :=
      bind_eq_ok.mpr ⟨(), (accepted_push.mp hhere).2, rfl⟩
    rw [addAll, hadd]
    exact addAll_of_accepted h

theorem generate_of_accepted [Scalar α] {params : NetworkParams α} {m : Material α}
    {seeds : List (ClusterSeed α)} {p : Partition} (hg : m.generate = .ok (seeds, p))
    (h : ({ withMaterial params m with seeds := seeds.toArray } : Builder α).Accepted) :
    (withMaterial params m).generate = ({ withMaterial params m with seeds := seeds.toArray }, .ok p) := by
  have hadd : (withMaterial params m).addAll seeds =
      ({ withMaterial params m with seeds := seeds.toArray }, .ok ()) := addAll_of_accepted h
  have hgenerate : (withMaterial params m).material.generate = .ok (seeds, p) := hg
  rw [generate, hgenerate]
  dsimp only
  rw [hadd]

theorem finish_ne_overflow [Scalar α] {params : NetworkParams α} {m : Material α} (hb : b.Reachable params m)
    (h : m.keepsSmall b.seeds.toList = true) : b.finish ≠ .error .overflow := by
  simp only [Material.keepsSmall, Bool.and_eq_true, List.all_eq_true] at h
  obtain ⟨⟨hseeds, hpositions⟩, hemissions⟩ := h
  intro hfault
  unfold finish at hfault
  split_ifs at hfault
  · cases hfault
  · cases hp : Population.ofSeeds b.seeds.toList with
    | error fault =>
      rw [hp] at hfault
      cases hfault
      exact Population.ofSeeds_ne_overflow hseeds hpositions hp
    | ok p =>
      have S := Population.sound_of_ofSeeds hp
      obtain ⟨tree, -, rfl⟩ := Population.ofSeeds_eq_ok hp
      rw [← hb.holds.material_eq] at hemissions
      have hfits := ReactionPlan.rangeFits_of_compact S ?_ ?_ hemissions
      · rw [hp] at hfault
        change (NetworkFault.require _ >>= fun _ => _) = _ at hfault
        rw [hfits] at hfault
        cases hfault
      · intro c hc
        obtain ⟨s, hs, i, free, rfl⟩ := Population.seed_of_mem hc
        exact (hseeds s hs).2
      · intro c hc hunit
        obtain ⟨s, hs, i, free, rfl⟩ := Population.seed_of_mem hc
        obtain ⟨x, hx, hlo⟩ := (hb.holds.placed s (Array.mem_toList_iff.mp hs)).located
        rw [hb.holds.material_eq]
        exact hlo hunit ▸ hx

end Builder

/-- The generator finds small regions. -/
def Material.generatesSmall [Scalar α] (m : Material α) : Bool :=
  match m.generate with
  | .ok (seeds, _) => m.keepsSmall seeds
  | .error _ => false

namespace Network

theorem ofParams_ne_overflow [Analytic α] {params : NetworkParams α} {m : Material α}
    (hchoice : params.chooseMaterial = .ok m) (hmin : ∀ g, params.grouping = some g → g.minWidth = 1)
    (hcounts : Countable params.admits) (h : m.generatesSmall = true) : Network.ofParams params ≠ .error .overflow := by
  have T := Material.tracks_of_chooseMaterial hchoice hmin
  unfold Material.generatesSmall at h
  cases hg : m.generate with
  | error fault =>
    rw [hg] at h
    cases h
  | ok x =>
    obtain ⟨seeds, p⟩ := x
    rw [hg] at h
    obtain ⟨hp, rfl⟩ := Material.seeds_of_generate hg
    have haccepted : ({ Builder.withMaterial params m with
        seeds := ((p.regions .admitted).map m.seedOf).toArray } : Builder α).Accepted := by
      refine ⟨fun s hs => ?_, fun s hs => ?_, T.pairwise_distinct hcounts hp⟩
      · simp only [Material.keepsSmall, Bool.and_eq_true, List.all_eq_true] at h
        have hcompact := (h.1.1 s (List.mem_toArray.mp hs)).2
        exact ⟨Region.settledFits_of_compact hcompact _, Region.settledFits_of_compact hcompact _⟩
      · exact T.placed_seedOf hcounts hp (List.mem_toArray.mp hs)
    have hgenerate := Builder.generate_of_accepted hg haccepted
    have hreach : ((Builder.withMaterial params m).generate.1).Reachable params m := .generate .start
    rw [hgenerate] at hreach
    rw [ofParams_eq hchoice, hgenerate]
    exact Builder.finish_ne_overflow hreach h

/-- Without groups, a material of small regions makes a network as soon as there is an admissible point. -/
theorem exists_ofParams_ungrouped [Analytic α] {params : NetworkParams α} {m : Material α}
    (hnone : params.grouping = none) (hfinite : Scalar.isFinite params.sinkStrength = true)
    (hsink : ¬params.sinkStrength < 0) (hbuild : params.material.build params = .ok m)
    (hbounds : ∀ a : Direction, -4294967296 < m.rule.bounds.lo.get a ∧ m.rule.bounds.hi.get a ≤ 4294967296)
    (hsmall : m.generatesSmall = true) (hsome : ∃ x, params.admits x = true) :
    params.chooseMaterial = .ok m ∧ ∃ n, ofParams params = .ok n := by
  have hchoice : params.chooseMaterial = .ok m :=
    bind_eq_ok.mpr ⟨(), NetworkParams.validate_ungrouped hfinite hsink hnone, hbuild⟩
  have hmin : ∀ g, params.grouping = some g → g.minWidth = 1 := fun g hg => by
    rw [hnone] at hg
    cases hg
  have hcounts := (Material.tracks_of_chooseMaterial hchoice hmin).countable hbounds
  exact ⟨hchoice, exists_ofParams hchoice hmin (ofParams_ne_overflow hchoice hmin hcounts hsmall) hcounts hsome⟩

end Network
end ClusterDynamics
