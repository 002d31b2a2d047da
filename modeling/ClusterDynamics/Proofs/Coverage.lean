import ClusterDynamics.Inventory
import ClusterDynamics.Proofs.Acceptance
import ClusterDynamics.Proofs.Materials
import ClusterDynamics.Proofs.Reactions

/-! A generated network owns the admissible compositions and nothing else. The admitted cells of the
    partition tile the admissible points, the seeds on them are all taken, and the finished network finds
    for every admissible point the one cluster that holds it. -/

namespace ClusterDynamics

variable {α : Type}

/-! ### Seeds of a partition -/

namespace Material

theorem onlyOverflow_partition (m : Material α) : OnlyOverflow m.partition := by
  unfold partition
  split
  · exact .ok _
  · exact .overflow

variable [Scalar α] {m : Material α}

/-- The seed of a region: the composition at its anchor, with the properties of that composition. -/
def seedOf (m : Material α) (r : Region) : ClusterSeed α :=
  ⟨r, m.space.toComposition r.anchor, m.seedProperties r (m.space.toComposition r.anchor)⟩

theorem eq_map_seedOf {regions : List Region} {seeds : List (ClusterSeed α)}
    (h : regions.map m.seedFor = seeds.map .ok) : seeds = regions.map m.seedOf := by
  induction regions generalizing seeds with
  | nil =>
    rw [List.map_nil] at h ⊢
    exact List.map_eq_nil_iff.mp h.symm
  | cons r regions ih =>
    cases seeds with
    | nil => cases h
    | cons s seeds =>
      obtain ⟨hs, hrest⟩ := List.cons.inj h
      rw [List.map_cons, ← ih hrest, seedFor_eq_ok hs]
      rfl

/-- The generator makes the seeds of the admitted regions. -/
theorem seeds_of_generate {seeds : List (ClusterSeed α)} {p : Partition} (h : m.generate = .ok (seeds, p)) :
    m.partition = .ok p ∧ seeds = (p.regions .admitted).map m.seedOf := by
  obtain ⟨hp, hmap⟩ := generate_eq_ok h
  exact ⟨hp, eq_map_seedOf hmap⟩

theorem onlyOverflow_seedFor {r : Region} {x : Point}
    (h : m.space.toPoint (m.space.toComposition r.anchor) = .ok x) : OnlyOverflow (m.seedFor r) := by
  refine (OnlyOverflow.require _).bind fun _ _ => ?_
  dsimp only
  rw [PhaseSpace.locatePoint_eq_ok.mpr h]
  exact (OnlyOverflow.require _).bind fun _ _ => .ok _

end Material

/-! ### Admitted regions -/

/-- Every coordinate of an admissible point is a count. -/
def Countable (admits : Point → Bool) : Prop :=
  ∀ x, admits x = true → ∀ a : Direction, (x.get a).natAbs < 4294967296

namespace Material.Tracks

variable {m : Material α} {admits : Point → Bool} (T : m.Tracks admits)
include T

theorem countable (hbounds : ∀ a : Direction,
    -4294967296 < m.rule.bounds.lo.get a ∧ m.rule.bounds.hi.get a ≤ 4294967296) : Countable admits := by
  intro x hx a
  have hin := Region.contains_iff.mp (T.rule.bounds x hx) a
  have hbound := hbounds a
  omega

variable (hcounts : Countable admits)
include hcounts

theorem toPoint_anchor {p : Partition} (hp : m.partition = .ok p) {r : Region}
    (hr : r ∈ p.regions .admitted) : m.space.toPoint (m.space.toComposition r.anchor) = .ok r.anchor := by
  have hadmits := T.rule.admits_anchor (partition_eq_ok hp) hr
  exact T.placed _ hadmits (hcounts _ hadmits)

variable [Scalar α]

theorem placed_seedOf {p : Partition} (hp : m.partition = .ok p) {s : ClusterSeed α}
    (hs : s ∈ (p.regions .admitted).map m.seedOf) : s.Placed m.space := by
  obtain ⟨r, hr, rfl⟩ := List.mem_map.mp hs
  exact ⟨T.rule.isEmpty_of_mem (partition_eq_ok hp) hr, r.anchor, T.toPoint_anchor hcounts hp hr,
    fun hunit => if_pos hunit⟩

/-- Admitted regions share no point, so no two of them stand for one composition. -/
theorem pairwise_distinct {p : Partition} (hp : m.partition = .ok p) :
    ((p.regions .admitted).map m.seedOf).Pairwise ClusterSeed.Distinct := by
  have hapart := (Partition.tiles_of_ofRegion? _ (partition_eq_ok hp)).regions .admitted
  refine List.pairwise_map.mpr (hapart.imp_of_mem fun {r s} hr hs h hrunit hsunit hcomp => ?_)
  -- One composition would have one point, which is the anchor of both regions.
  have hr' := T.toPoint_anchor hcounts hp hr
  rw [show m.space.toComposition r.anchor = m.space.toComposition s.anchor from hcomp,
    T.toPoint_anchor hcounts hp hs] at hr'
  have hanchor : s.anchor = r.anchor := Except.ok.inj hr'
  have hrx := Region.contains_anchor (T.rule.isEmpty_of_mem (partition_eq_ok hp) hr)
  have hsx := Region.contains_anchor (T.rule.isEmpty_of_mem (partition_eq_ok hp) hs)
  rw [hanchor, Region.apart_iff.mp h _ hrx] at hsx
  cases hsx

theorem onlyOverflow_generate : OnlyOverflow m.generate :=
  m.onlyOverflow_partition.bind fun _ hp =>
    (OnlyOverflow.mapM fun _ hr => onlyOverflow_seedFor (T.toPoint_anchor hcounts hp hr)).bind
      fun _ _ => .ok _

end Material.Tracks

/-! ### From parameters to a network -/

namespace Builder

variable [Scalar α] {params : NetworkParams α} {m : Material α}

theorem onlyOverflow_generated (params : NetworkParams α) {admits : Point → Bool} (T : m.Tracks admits)
    (hcounts : Countable admits) : OnlyOverflow (withMaterial params m).generate.2 := by
  have hgen : OnlyOverflow (withMaterial params m).material.generate := T.onlyOverflow_generate hcounts
  unfold generate
  cases hg : (withMaterial params m).material.generate with
  | error fault =>
    rw [hgen fault hg]
    exact .overflow
  | ok x =>
    obtain ⟨seeds, p⟩ := x
    obtain ⟨hp, rfl⟩ := Material.seeds_of_generate hg
    have hadd : OnlyOverflow ((withMaterial params m).addAll ((p.regions .admitted).map m.seedOf)).2 :=
      onlyOverflow_addAll (fun s hs => T.placed_seedOf hcounts hp hs) (T.pairwise_distinct hcounts hp)
        fun s _ _ => by simp [ownsUnit, withMaterial]
    dsimp only
    cases ha : (withMaterial params m).addAll
        ((p.regions .admitted).map (withMaterial params m).material.seedOf) with
    | mk b r =>
      cases r with
      | ok => exact .ok p
      | error fault =>
        rw [hadd fault (congrArg Prod.snd ha)]
        exact .overflow

/-- After a run of the generator, a builder holds the seeds of the admitted regions. -/
theorem seeds_of_generated {p : Partition} (h : (withMaterial params m).generate.2 = .ok p) :
    m.partition = .ok p ∧
      (withMaterial params m).generate.1.seeds.toList = (p.regions .admitted).map m.seedOf := by
  obtain ⟨seeds, hg, hb⟩ := generate_eq_ok h
  obtain ⟨hp, rfl⟩ := Material.seeds_of_generate hg
  refine ⟨hp, ?_⟩
  rw [hb]
  rfl

theorem onlyOverflow_finish_generated {p : Partition} (h : (withMaterial params m).generate.2 = .ok p)
    (hne : p.regions .admitted ≠ []) : OnlyOverflow (withMaterial params m).generate.1.finish := by
  obtain ⟨hp, hseeds⟩ := seeds_of_generated h
  refine onlyOverflow_finish ?_ ?_
  · rw [Array.isEmpty_eq_false_iff, ne_eq, ← Array.toList_eq_nil_iff, hseeds, List.map_eq_nil_iff]
    exact hne
  · rw [hseeds]
    exact List.pairwise_map.mpr
      ((Partition.tiles_of_ofRegion? _ (Material.partition_eq_ok hp)).regions .admitted)

theorem finish_generated_of_nil {p : Partition} (h : (withMaterial params m).generate.2 = .ok p)
    (hnil : p.regions .admitted = []) :
    (withMaterial params m).generate.1.finish = .error (.noClusters m.name) := by
  have hseeds := (seeds_of_generated h).2
  have hstart : (withMaterial params m).Reachable params m := .start
  have hmaterial := hstart.generate.holds.material_eq
  rw [hnil, List.map_nil, Array.toList_eq_nil_iff] at hseeds
  unfold finish
  rw [hseeds, hmaterial]
  rfl

end Builder

namespace Network

/-- The network of parameters is what the builder of their material finishes. -/
theorem ofParams_eq [Analytic α] {params : NetworkParams α} {m : Material α}
    (hchoice : params.chooseMaterial = .ok m) :
    Network.ofParams params = ((Builder.withMaterial params m).generate.2 >>= fun _ =>
      (Builder.withMaterial params m).generate.1.finish) := by
  have hstart : Builder.ofParams params = .ok (Builder.withMaterial params m) := by
    rw [Builder.ofParams, hchoice]
  show (Builder.ofParams params >>= fun b => b.generate.2 >>= fun _ => b.generate.1.finish) = _
  rw [hstart]
  rfl

theorem findPoint?_of_finish [Scalar α] {b : Builder α} {n : Network α} (h : b.finish = .ok n) {x : Point}
    {c : Cluster α} : n.findPoint? x = some c ↔ c ∈ n.clusters ∧ c.region.contains x = true := by
  obtain ⟨p, hp, rfl⟩ := Builder.finish_eq_ok h
  exact Population.findPoint?_eq_some hp

theorem isSome_findPoint?_of_finish [Scalar α] {b : Builder α} {n : Network α} (h : b.finish = .ok n)
    {x : Point} : (n.findPoint? x).isSome = true ↔ n.owns x = true := by
  rw [Population.owns_iff, Option.isSome_iff_exists]
  exact exists_congr fun c => findPoint?_of_finish h

namespace Generated

variable [Scalar α] {n : Network α} {p : Partition} {admits : Point → Bool} (G : n.Generated p)
  (T : n.material.Tracks admits)
include G T

theorem admits_of_contains {c : Cluster α} (hc : c ∈ n.clusters) {x : Point}
    (hx : c.region.contains x = true) : admits x = true :=
  T.rule.admits_of_mem (Material.partition_eq_ok G.partition) (G.of_mem_clusters hc).1 hx

theorem owns_iff {x : Point} : n.owns x = true ↔ admits x = true := by
  rw [Population.owns_iff]
  constructor
  · rintro ⟨c, hc, hx⟩
    exact G.admits_of_contains T hc hx
  · intro hx
    obtain ⟨r, hr, hrx⟩ := T.rule.exists_mem_admitted (Material.partition_eq_ok G.partition) hx
    obtain ⟨c, hc, rfl⟩ := G.exists_cluster hr
    exact ⟨c, hc, hrx⟩

/-- The clusters stand for as many compositions as are admissible. -/
theorem representedVolume_eq (hn : n.Built) :
    {x | admits x = true}.Finite ∧ n.representedVolume = ({x | admits x = true}.ncard : Int) := by
  classical
  let F := n.material.rule.bounds.lattice.filter fun x => admits x = true
  have hF : ∀ x, x ∈ F ↔ admits x = true := fun x => by
    rw [Finset.mem_filter, Region.mem_lattice]
    exact and_iff_right_of_imp (T.rule.bounds x)
  have hset : {x | admits x = true} = (F : Set Point) := Set.ext fun x => (hF x).symm
  have hvolume : ∀ c ∈ n.clusters.toList,
      c.volume = ∑ x ∈ F, if c.region.contains x = true then (1 : Int) else 0 := fun c hc => by
    have hlattice : c.region.lattice = F.filter fun x => c.region.contains x = true := by
      ext x
      rw [Finset.mem_filter, Region.mem_lattice, hF]
      exact (and_iff_right_of_imp (G.admits_of_contains T (Array.mem_toList_iff.mp hc))).symm
    rw [Cluster.volume, ← Region.card_lattice, hlattice, Finset.card_filter]
    exact Nat.cast_sum _ _ |>.trans (Finset.sum_congr rfl fun x _ => by split_ifs <;> rfl)
  have hsum : n.representedVolume = (n.clusters.toList.map Cluster.volume).sum := by
    rw [representedVolume, volumes, List.sum_eq_foldl]
  refine ⟨hset ▸ F.finite_toSet, ?_⟩
  -- Summed over the clusters first, each admissible point is counted once, by its owner.
  rw [hset, Set.ncard_coe_finset, hsum, List.map_congr_left hvolume, sum_map_sum,
    Finset.card_eq_sum_ones, Nat.cast_sum]
  refine Finset.sum_congr rfl fun x hx => ?_
  rw [hn.sound.sum_owner x (1 : Int), if_pos ((G.owns_iff T).mpr ((hF x).mp hx))]
  rfl

end Generated

/-- Unless a number leaves its machine word, the network of accepted parameters whose bins may be as narrow
    as one owns exactly the admissible points, each in one cluster, which a search finds; nothing is
    dropped. Without an admissible point there is no network. -/
theorem ofParams_owns_admissible [Analytic α] {params : NetworkParams α} {m : Material α}
    (hchoice : params.chooseMaterial = .ok m)
    (hmin : ∀ g, params.grouping = some g → g.minWidth = 1)
    (hwords : Network.ofParams params ≠ .error .overflow)
    (hcounts : ∀ x, params.admits x = true → ∀ a : Direction, (x.get a).natAbs < 4294967296) :
    ((∃ x, params.admits x = true) →
      ∃ n p, Network.ofParams params = .ok n ∧ (Builder.withMaterial params m).generate.2 = .ok p ∧
        (∀ x, (n.findPoint? x).isSome = true ↔ params.admits x = true) ∧
        (∀ x, params.admits x = true → ∃ c, n.findPoint? x = some c ∧
          c ∈ n.clusters ∧ c.region.contains x = true ∧
            ∀ d ∈ n.clusters, d.region.contains x = true → d = c) ∧
        (∀ c ∈ n.clusters, ∀ x, c.region.contains x = true → params.admits x = true) ∧
        p.stats.droppedRegions = 0 ∧
        {x | params.admits x = true}.Finite ∧
        n.stats.represented = ({x | params.admits x = true}.ncard : Int)) ∧
    ((∀ x, params.admits x = false) → Network.ofParams params = .error (.noClusters m.name)) := by
  have T := Material.tracks_of_chooseMaterial hchoice hmin
  rw [ofParams_eq hchoice] at hwords
  obtain ⟨p, hp⟩ := (Builder.onlyOverflow_generated params T hcounts).exists_eq_ok fun h =>
    hwords (by rw [h]; rfl)
  have hfinish : Network.ofParams params = (Builder.withMaterial params m).generate.1.finish := by
    rw [ofParams_eq hchoice, hp]
    rfl
  have hpart := Material.partition_eq_ok (Builder.seeds_of_generated hp).1
  refine ⟨fun ⟨x, hx⟩ => ?_, fun hnone => ?_⟩
  · obtain ⟨r, hr, -⟩ := T.rule.exists_mem_admitted hpart hx
    rw [hp] at hwords
    obtain ⟨n, hn⟩ :=
      (Builder.onlyOverflow_finish_generated hp (List.ne_nil_of_mem hr)).exists_eq_ok hwords
    have hparams := hfinish.trans hn
    obtain ⟨hbuilt, hchoice', q, G⟩ := generated_of_ofParams hparams
    obtain rfl : m = n.material := Except.ok.inj (hchoice.symm.trans hchoice')
    obtain ⟨hfinite, hrepresented⟩ := G.representedVolume_eq T hbuilt
    refine ⟨n, p, hparams, hp, fun x => (isSome_findPoint?_of_finish hn).trans (G.owns_iff T), fun x hx => ?_,
      fun c hc x hx => G.admits_of_contains T hc hx, T.rule.stats_droppedRegions hpart, hfinite, hrepresented⟩
    obtain ⟨c, hc, hcx⟩ := Population.owns_iff.mp ((G.owns_iff T).mpr hx)
    exact ⟨c, (findPoint?_of_finish hn).mpr ⟨hc, hcx⟩, hc, hcx,
      fun d hd hdx => hbuilt.sound.eq_of_contains hd hc hdx hcx⟩
  · rw [hfinish, Builder.finish_generated_of_nil hp (T.rule.regions_admitted_eq_nil hpart hnone)]

end Network

/-! ### A small grouped metal -/

namespace Bins
open DefectSpace
open scoped Pair

/-- Iron with single interstitials and up to six vacancies, the larger clusters of which share bins. -/
def params : NetworkParams ℚ :=
  { NetworkParams.standard with
    material := .iron
    maxHelium := 0
    maxVacancy := 6
    maxInterstitial := 1
    grouping := some ⟨2, 2, 1, 1⟩ }

/-- Three single clusters, and two bins for three to six vacancies. -/
theorem ofParams_ok : ∃ n, Network.ofParams params = .ok n ∧ n.clusters.size = 5 ∧ n.countKind .grouped = 2 :=
  exists_eq_ok (by decide +kernel)

/-- Admissible are one interstitial and one to six vacancies. -/
theorem admits_iff {x : Point} :
    params.admits x = true ↔ ∃ k : Int, (-1 ≤ k ∧ k ≤ 6 ∧ k ≠ 0) ∧ x = point 0 k := by
  have hadmits : params.admits x = (Iron.defects params).isAdmissible x := rfl
  have hdefects : Iron.defects params = ⟨0, 6, 1, 4, 0⟩ := rfl
  rw [hadmits, hdefects]
  constructor
  · intro h
    have he := eq_point_of_isAdmissible h
    rw [he, isAdmissible_point (by decide) (by decide)] at h
    have hcap : ∀ n, heliumCap ⟨0, 6, 1, 4, 0⟩ n = 0 := fun n => if_pos rfl
    simp only [column, hcap] at h
    refine ⟨x.get defectAxis, ?_, ?_⟩
    · split_ifs at h <;> omega
    · rw [show x.get heliumAxis = 0 by split_ifs at h <;> omega] at he
      exact he
  · rintro ⟨k, hk, rfl⟩
    refine (isAdmissible_point (by decide) (by decide)).mpr ?_
    have hcap : ∀ n, heliumCap ⟨0, 6, 1, 4, 0⟩ n = 0 := fun n => if_pos rfl
    simp only [column, hcap]
    split_ifs <;> omega

theorem minWidth_eq_one : ∀ g, params.grouping = some g → g.minWidth = 1 := by
  rintro g ⟨⟩
  rfl

theorem countable_admits : Countable params.admits :=
  (Material.tracks_of_chooseMaterial (m := Iron.material params) rfl minWidth_eq_one).countable (by decide)

/-- Seven compositions are owned, six vacancies among them, but not seven. -/
theorem owns_admissible : ∃ n p, Network.ofParams params = .ok n ∧
    (Builder.withMaterial params n.material).generate.2 = .ok p ∧ p.stats.droppedRegions = 0 ∧
    (∃ c, n.findPoint? (point 0 6) = some c ∧
      ∀ d ∈ n.clusters, d.region.contains (point 0 6) = true → d = c) ∧
    (n.findPoint? (point 0 7)).isSome = false ∧
    n.stats.represented = ({x | params.admits x = true}.ncard : Int) := by
  obtain ⟨n, hn, -⟩ := ofParams_ok
  obtain ⟨-, hchoice, -⟩ := Network.generated_of_ofParams hn
  have hwords : Network.ofParams params ≠ .error .overflow := by
    rw [hn]
    exact fun h => nomatch h
  have hsix : params.admits (point 0 6) = true := admits_iff.mpr ⟨6, by decide, rfl⟩
  have hseven : ¬params.admits (point 0 7) = true := fun h => by
    obtain ⟨k, hk, he⟩ := admits_iff.mp h
    have := (ext_point.mp he).2.1
    change (7 : Int) = k at this
    omega
  obtain ⟨n', p, hn', hp, hfind, howner, -, hdropped, -, hrepresented⟩ :=
    (Network.ofParams_owns_admissible hchoice minWidth_eq_one hwords countable_admits).1 ⟨_, hsix⟩
  obtain rfl : n = n' := Except.ok.inj (hn.symm.trans hn')
  obtain ⟨c, hc, -, -, honly⟩ := howner _ hsix
  exact ⟨n, p, hn, hp, hdropped, ⟨c, hc, honly⟩, by simpa using mt (hfind _).mp hseven, hrepresented⟩

end Bins
end ClusterDynamics
