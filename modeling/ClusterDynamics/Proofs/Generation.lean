import ClusterDynamics.Proofs.Construction
import ClusterDynamics.Proofs.Partition

/-! Networks that come from parameters alone. The clusters of such a network are, up to their order,
    those of the admitted cells of the material's partition, each with the composition and the physics
    of its region. -/

namespace ClusterDynamics

theorem mapM_eq_ok {β γ ε : Type} {f : β → Except ε γ} : ∀ {l : List β} {ys : List γ},
    l.mapM f = .ok ys ↔ l.map f = ys.map .ok
  | [], ys => by cases ys <;> simp [pure, Except.pure]
  | x :: l, ys => by
    rw [List.mapM_cons, List.map_cons, bind_eq_ok]
    constructor
    · rintro ⟨y, hy, h⟩
      obtain ⟨zs, hzs, h⟩ := bind_eq_ok.mp h
      cases h
      rw [List.map_cons, hy, mapM_eq_ok.mp hzs]
    · intro h
      cases ys with
      | nil => cases h
      | cons y zs =>
        obtain ⟨hy, hzs⟩ := List.cons.inj h
        exact ⟨y, hy, bind_eq_ok.mpr ⟨zs, mapM_eq_ok.mpr hzs, rfl⟩⟩

variable {α : Type}

/-! ### Clusters and their seeds -/

/-- The seed that a cluster grew from. -/
def Cluster.seed (c : Cluster α) : ClusterSeed α := ⟨c.region, c.composition, c.properties⟩

namespace Population

theorem map_seed_assign : ∀ (id next : Nat) (seeds : List (ClusterSeed α)),
    (assign id next seeds).map Cluster.seed = seeds
  | _, _, [] => rfl
  | id, next, s :: rest => by
    rw [assign, List.map_cons, map_seed_assign _ _ rest]
    rfl

theorem map_seed_clustersOf (seeds : List (ClusterSeed α)) :
    ((clustersOf seeds).map Cluster.seed).Perm seeds := by
  rw [clustersOf, map_seed_assign]
  exact numbering_perm seeds

end Population

/-! ### From a material to its seeds -/

theorem Material.partition_eq_ok {m : Material α} {p : Partition} (h : m.partition = .ok p) :
    Partition.ofRegion? m.rule m.rule.bounds = some p := by
  unfold Material.partition at h
  split at h
  · cases h
    assumption
  · cases h

section
variable [Scalar α] {m : Material α}

theorem Material.seedFor_eq_ok {r : Region} {s : ClusterSeed α} (h : m.seedFor r = .ok s) :
    s = ⟨r, m.space.toComposition r.anchor, m.seedProperties r (m.space.toComposition r.anchor)⟩ := by
  obtain ⟨_, -, h⟩ := bind_eq_ok.mp h
  obtain ⟨_, -, h⟩ := bind_eq_ok.mp h
  obtain ⟨_, -, h⟩ := bind_eq_ok.mp h
  cases h
  rfl

theorem Material.generate_eq_ok {seeds : List (ClusterSeed α)} {p : Partition}
    (h : m.generate = .ok (seeds, p)) :
    m.partition = .ok p ∧ (p.regions .admitted).map m.seedFor = seeds.map .ok := by
  obtain ⟨q, hq, h⟩ := bind_eq_ok.mp h
  obtain ⟨l, hl, h⟩ := bind_eq_ok.mp h
  cases h
  exact ⟨hq, mapM_eq_ok.mp hl⟩

end

namespace Builder

theorem addAll_eq_ok : ∀ {seeds : List (ClusterSeed α)} {b b' : Builder α},
    b.addAll seeds = (b', .ok ()) →
      b' = { b with seeds := (b.seeds.toList ++ seeds).toArray }
  | [], b, b', h => by
    cases h
    simp
  | s :: rest, b, b', h => by
    rw [addAll] at h
    cases hb : b.add s with
    | error fault =>
      rw [hb] at h
      cases h
    | ok b₁ =>
      rw [hb] at h
      obtain ⟨rfl, -⟩ := add_eq_ok hb
      rw [addAll_eq_ok h]
      simp

/-- An accepted run of the generator adds the seeds of the admitted regions, in their order. -/
theorem generate_eq_ok [Scalar α] {b : Builder α} {p : Partition} (h : b.generate.2 = .ok p) :
    ∃ seeds, b.material.generate = .ok (seeds, p) ∧
      b.generate.1 = { b with seeds := (b.seeds.toList ++ seeds).toArray } := by
  unfold generate at h ⊢
  cases hg : b.material.generate with
  | error fault =>
    rw [hg] at h
    cases h
  | ok x =>
    simp only [hg] at h ⊢
    cases ha : b.addAll x.1 with
    | mk b' r =>
      rw [ha] at h
      cases r with
      | error fault => cases h
      | ok =>
        cases h
        exact ⟨x.1, rfl, addAll_eq_ok ha⟩

theorem ofParams_eq_ok [Analytic α] {params : NetworkParams α} {b : Builder α}
    (h : Builder.ofParams params = .ok b) :
    params.chooseMaterial = .ok b.material ∧ b = withMaterial params b.material := by
  unfold Builder.ofParams at h
  split at h
  · cases h
    exact ⟨by assumption, rfl⟩
  · cases h

end Builder

/-! ### Generated networks -/

/-- A composition has a positive diffusion factor and a finite migration energy. -/
def Material.moves [Scalar α] (m : Material α) (c : Composition) : Bool :=
  decide (0 < m.diffusionFactor c) && (m.migrationEnergy c).any Scalar.isFinite

/-- The clusters are those of the regions that the material admits. -/
structure Network.Generated [Scalar α] (n : Network α) (p : Partition) : Prop where
  partition : n.material.partition = .ok p
  seeds : ((p.regions .admitted).map n.material.seedFor).Perm
    (n.clusters.toList.map fun c => .ok c.seed)

namespace Network.Generated

variable [Scalar α] {n : Network α} {p : Partition} (G : n.Generated p)
include G

/-- A cluster has an admitted region, whose anchor gives it its composition and physics. -/
theorem of_mem_clusters {c : Cluster α} (hc : c ∈ n.clusters) :
    c.region ∈ p.regions .admitted ∧ c.composition = n.material.space.toComposition c.region.anchor ∧
      c.properties = n.material.seedProperties c.region c.composition := by
  have hmem := G.seeds.mem_iff.mpr (List.mem_map_of_mem (Array.mem_toList_iff.mpr hc))
  obtain ⟨r, hr, hs⟩ := List.mem_map.mp hmem
  have he := Material.seedFor_eq_ok hs
  obtain rfl : c.region = r := congrArg ClusterSeed.region he
  have hcomp : c.composition = n.material.space.toComposition c.region.anchor :=
    congrArg ClusterSeed.composition he
  exact ⟨hr, hcomp, hcomp ▸ congrArg ClusterSeed.properties he⟩

/-- Every admitted region belongs to a cluster. -/
theorem exists_cluster {r : Region} (hr : r ∈ p.regions .admitted) : ∃ c ∈ n.clusters, c.region = r := by
  have hmem := G.seeds.mem_iff.mp (List.mem_map_of_mem hr)
  obtain ⟨c, hc, hs⟩ := List.mem_map.mp hmem
  have he := Material.seedFor_eq_ok hs.symm
  exact ⟨c, Array.mem_toList_iff.mp hc, congrArg ClusterSeed.region he⟩

theorem exhausts : p.Exhausts n.material.rule n.material.rule.bounds :=
  Partition.exhausts_of_ofRegion? _ (Material.partition_eq_ok G.partition)

/-- A cluster's region is one that the rule selects. -/
theorem selects {c : Cluster α} (hc : c ∈ n.clusters) : n.material.rule.selects c.region = true := by
  have hcell := Partition.mem_regions.mp (G.of_mem_clusters hc).1
  exact ((G.exhausts.settled _ hcell).admitted_iff (fun h => nomatch h)).mp rfl

theorem composition_of_isUnit {c : Cluster α} (hc : c ∈ n.clusters) (hunit : c.region.isUnit = true) :
    c.composition = n.material.space.toComposition c.region.lo := by
  rw [(G.of_mem_clusters hc).2.1, Region.anchor, if_pos hunit]

theorem isMobile_of_isUnit {c : Cluster α} (hc : c ∈ n.clusters) (hunit : c.region.isUnit = true) :
    c.isMobile = n.material.moves c.composition := by
  rw [Cluster.isMobile, (G.of_mem_clusters hc).2.2, Material.seedProperties, if_pos hunit]
  rfl

end Network.Generated

/-- A network of parameters is finished from what the builder of their material generates. -/
theorem Network.ofParams_eq_ok [Analytic α] {params : NetworkParams α} {n : Network α}
    (h : Network.ofParams params = .ok n) :
    ∃ (m : Material α) (p : Partition), params.chooseMaterial = .ok m ∧
      (Builder.withMaterial params m).generate.2 = .ok p ∧
      (Builder.withMaterial params m).generate.1.Reachable params m ∧
      (Builder.withMaterial params m).generate.1.finish = .ok n := by
  obtain ⟨b, hb, h⟩ := bind_eq_ok.mp h
  obtain ⟨p, hp, h⟩ := bind_eq_ok.mp h
  change b.generate.1.finish = .ok n at h
  obtain ⟨hchoice, hstart⟩ := Builder.ofParams_eq_ok hb
  rw [hstart] at hp h
  exact ⟨b.material, p, hchoice, hp, .generate .start, h⟩

theorem Network.reachable_of_ofParams [Analytic α] {params : NetworkParams α} {n : Network α}
    (h : Network.ofParams params = .ok n) :
    ∃ b : Builder α, params.chooseMaterial = .ok b.material ∧ b.Reachable params b.material ∧
      b.finish = .ok n := by
  obtain ⟨m, p, hchoice, -, hreach, hfinish⟩ := ofParams_eq_ok h
  have hmaterial := hreach.holds.material_eq
  exact ⟨_, hmaterial.symm ▸ hchoice, hmaterial.symm ▸ hreach, hfinish⟩

/-- A network of parameters is built for the material that they choose, from the regions that this
    material admits. -/
theorem Network.generated_of_ofParams [Analytic α] {params : NetworkParams α} {n : Network α}
    (h : Network.ofParams params = .ok n) :
    n.Built ∧ params.chooseMaterial = .ok n.material ∧ ∃ p, n.Generated p := by
  obtain ⟨m, p, hchoice, hp, hreach, h⟩ := ofParams_eq_ok h
  obtain ⟨hbuilt, -, hmaterial⟩ := Network.built_of_finish hreach h
  obtain ⟨seeds, hgen, hseeds⟩ := Builder.generate_eq_ok hp
  obtain ⟨hpart, hmap⟩ : m.partition = .ok p ∧ (p.regions .admitted).map m.seedFor = seeds.map .ok :=
    Material.generate_eq_ok hgen
  have hlist : (Builder.withMaterial params m).generate.1.seeds.toList = seeds := by
    rw [hseeds]
    rfl
  have hclusters : n.clusters.toList = Population.clustersOf seeds := by
    rw [Builder.clusters_of_finish h, hlist]
  rw [← hmaterial] at hchoice hpart hmap
  refine ⟨hbuilt, hchoice, p, hpart, ?_⟩
  rw [hmap, hclusters]
  have hperm := (Population.map_seed_clustersOf seeds).map
    (Except.ok : ClusterSeed α → Except (NetworkFault α) (ClusterSeed α))
  rw [List.map_map] at hperm
  exact hperm.symm

/-! ### A small metal -/

namespace Pair

/-- Rational stand-ins for the functions behind radii and bin widths. -/
scoped instance : Analytic ℚ where
  pi := 3
  exp x := 1 + x
  sqrt x := x
  cbrt x := x
  pow x _ := x
  infinity := 1000
  floor x := ⌊x⌋

/-- Iron with single helium atoms and single vacancies. -/
def params : NetworkParams ℚ :=
  { NetworkParams.standard with material := .iron, maxHelium := 1, maxVacancy := 1, maxInterstitial := 0 }

/-- The two defects, and up to four helium atoms in one vacancy. -/
theorem ofParams_ok : ∃ n, Network.ofParams params = .ok n ∧ n.clusters.size = 6 ∧
    n.material.moves (.single .helium 1) = true :=
  exists_eq_ok (by decide +kernel)

end Pair
end ClusterDynamics
