import ClusterDynamics.Network.Builder
import ClusterDynamics.Proofs.Layout

/-! How networks come about. A builder starts empty and takes seeds one by one or from the generator;
    every seed that it holds has passed the checks of `add`. A finished network consists of the sound
    population of these seeds and of the reactions planned over it, and nothing else. -/

namespace ClusterDynamics

/-! ### Stages that can fail -/

theorem bind_eq_ok {ε β γ : Type} {x : Except ε β} {f : β → Except ε γ} {c : γ} :
    (x >>= f) = .ok c ↔ ∃ b, x = .ok b ∧ f b = .ok c := by
  cases x <;> simp [bind, Except.bind]

theorem throw_bind_ne_ok {ε β γ : Type} {e : ε} {f : β → Except ε γ} {c : γ} :
    (throw e >>= f) ≠ .ok c := fun h => nomatch h

theorem throw_ne_ok {ε β : Type} {e : ε} {c : β} : (throw e : Except ε β) ≠ .ok c := fun h => nomatch h

theorem check_bind_eq_ok {ε β : Type} {c : Prop} [Decidable c] {e : ε} {k : Unit → Except ε β} {x : β} :
    (if c then throw e >>= k else k ()) = .ok x ↔ ¬c ∧ k () = .ok x := by
  split_ifs with h
  · exact iff_of_false throw_bind_ne_ok fun h' => h'.1 h
  · exact ⟨fun hk => ⟨h, hk⟩, fun hk => hk.2⟩

theorem require_eq_ok {α : Type} {ok : Bool} {u : Unit} :
    (NetworkFault.require ok : Except (NetworkFault α) Unit) = .ok u ↔ ok = true := by
  unfold NetworkFault.require
  split_ifs with h <;> simp [h]

/-- A computation that succeeds with a checked result, when it can be evaluated. -/
theorem exists_eq_ok {ε β : Type} {x : Except ε β} {P : β → Prop} [DecidablePred P]
    (h : (match x with
      | .ok b => decide (P b)
      | .error _ => false) = true) : ∃ b, x = .ok b ∧ P b := by
  cases x with
  | error e => exact absurd h Bool.false_ne_true
  | ok b => exact ⟨b, rfl, of_decide_eq_true h⟩

theorem PhaseSpace.locatePoint_eq_ok {α : Type} {space : PhaseSpace} {c : Composition} {x : Point} :
    (space.locatePoint c : Except (NetworkFault α) Point) = .ok x ↔ space.toPoint c = .ok x := by
  unfold PhaseSpace.locatePoint
  cases space.toPoint c <;> simp

variable {α : Type}

/-! ### Builders -/

/-- The region of a seed holds a point, its composition has a place among the axes, and on a unit
    region that place is the point of the region. -/
structure ClusterSeed.Placed (space : PhaseSpace) (s : ClusterSeed α) : Prop where
  nonempty : s.region.isEmpty = false
  located : ∃ x, space.toPoint s.composition = .ok x ∧ (s.region.isUnit = true → x = s.region.lo)

namespace Builder

variable {b b' : Builder α} {s : ClusterSeed α}

theorem check_eq_ok (h : b.check s = .ok ()) :
    s.Placed b.material.space ∧ (s.region.isUnit = true → b.ownsUnit s.composition = false) := by
  unfold check at h
  obtain ⟨_, -, h⟩ := bind_eq_ok.mp h
  obtain ⟨hempty, h⟩ := check_bind_eq_ok.mp h
  obtain ⟨x, hx, h⟩ := bind_eq_ok.mp h
  obtain ⟨_, -, h⟩ := bind_eq_ok.mp h
  rw [PhaseSpace.locatePoint_eq_ok] at hx
  have hne : s.region.isEmpty = false := by simpa using hempty
  by_cases hunit : s.region.isUnit = true
  · rw [if_pos hunit] at h
    obtain ⟨hplace, h⟩ := check_bind_eq_ok.mp h
    have howned : b.ownsUnit s.composition = false := by
      by_contra howned
      rw [Bool.not_eq_false] at howned
      rw [if_pos howned] at h
      exact throw_ne_ok h
    exact ⟨⟨hne, x, hx, fun _ => not_not.mp hplace⟩, fun _ => howned⟩
  · exact ⟨⟨hne, x, hx, fun h' => absurd h' hunit⟩, fun h' => absurd h' hunit⟩

/-- A seed that is taken has passed the checks, and nothing else changes. -/
theorem add_eq_ok (h : b.add s = .ok b') :
    b' = { b with seeds := b.seeds.push s } ∧ s.Placed b.material.space := by
  unfold add at h
  obtain ⟨_, hcheck, h⟩ := bind_eq_ok.mp h
  cases h
  exact ⟨rfl, (check_eq_ok hcheck).1⟩

/-- The builders that an empty one becomes by taking seeds, one by one or from the generator. -/
inductive Reachable [Scalar α] (params : NetworkParams α) (material : Material α) : Builder α → Prop
  | start : Reachable params material (withMaterial params material)
  | add {b b' : Builder α} {s : ClusterSeed α} (hb : Reachable params material b)
      (h : b.add s = .ok b') : Reachable params material b'
  | generate {b : Builder α} (hb : Reachable params material b) :
      Reachable params material b.generate.1

/-- A builder for the given parameters that holds placed seeds only. -/
structure Holds (params : NetworkParams α) (material : Material α) (b : Builder α) : Prop where
  params_eq : b.params = params
  material_eq : b.material = material
  placed : ∀ s ∈ b.seeds, s.Placed material.space

variable {params : NetworkParams α} {material : Material α}

theorem Holds.add (hb : b.Holds params material) (h : b.add s = .ok b') : b'.Holds params material := by
  obtain ⟨rfl, hs⟩ := add_eq_ok h
  rw [hb.material_eq] at hs
  refine ⟨hb.params_eq, hb.material_eq, fun t ht => ?_⟩
  rcases Array.mem_push.mp ht with ht | rfl
  · exact hb.placed t ht
  · exact hs

/-- What every accepted seed preserves still holds when seeds have been added one by one. -/
theorem addAll_preserves {P : Builder α → Prop} : ∀ {seeds : List (ClusterSeed α)} {b : Builder α},
    (∀ {b b' : Builder α} {s : ClusterSeed α}, s ∈ seeds → P b → b.add s = .ok b' → P b') → P b →
      P (b.addAll seeds).1
  | [], b, _, hb => hb
  | s :: rest, b, hadd, hb => by
    rw [Builder.addAll]
    cases h : b.add s with
    | ok b' =>
      exact addAll_preserves (fun hs => hadd (List.mem_cons_of_mem s hs)) (hadd List.mem_cons_self hb h)
    | error fault => exact hb

theorem generate_fst [Scalar α] (b : Builder α) :
    b.generate.1 = b ∨
      ∃ seeds p, b.material.generate = .ok (seeds, p) ∧ b.generate.1 = (b.addAll seeds).1 := by
  unfold generate
  cases b.material.generate with
  | error fault => exact Or.inl rfl
  | ok x =>
    refine Or.inr ⟨x.1, x.2, rfl, ?_⟩
    dsimp only
    cases h : b.addAll x.1 with
    | mk b' r => cases r <;> rfl

/-- What every added seed preserves holds of every builder that is reached. -/
theorem Reachable.preserved [Scalar α] {P : Builder α → Prop} (hstart : P (withMaterial params material))
    (hadd : ∀ {b b' : Builder α} {s : ClusterSeed α}, P b → b.add s = .ok b' → P b')
    (hb : Reachable params material b) : P b := by
  induction hb with
  | start => exact hstart
  | add _ h ih => exact hadd ih h
  | generate _ ih =>
    rcases generate_fst ‹_› with h | ⟨seeds, p, -, h⟩
    · rwa [h]
    · rw [h]
      exact addAll_preserves (fun _ => hadd) ih

theorem Reachable.holds [Scalar α] (h : Reachable params material b) : b.Holds params material :=
  h.preserved ⟨rfl, rfl, by simp [withMaterial]⟩ Holds.add

theorem Reachable.addAll [Scalar α] {seeds : List (ClusterSeed α)} (hb : Reachable params material b) :
    Reachable params material (b.addAll seeds).1 :=
  addAll_preserves (fun _ => .add) hb

theorem finish_eq_ok [Scalar α] {n : Network α} (h : b.finish = .ok n) :
    ∃ p, Population.ofSeeds b.seeds.toList = .ok p ∧
      n = .assemble b.params b.material p (ReactionPlan.ofPopulation b.material p) := by
  unfold finish at h
  obtain ⟨-, h⟩ := check_bind_eq_ok.mp h
  obtain ⟨p, hp, h⟩ := bind_eq_ok.mp h
  obtain ⟨_, -, h⟩ := bind_eq_ok.mp h
  cases h
  exact ⟨p, hp, rfl⟩

/-- The clusters of a finished network grow from the collected seeds. -/
theorem clusters_of_finish [Scalar α] {n : Network α} (h : b.finish = .ok n) :
    n.clusters = (Population.clustersOf b.seeds.toList).toArray := by
  obtain ⟨p, hp, rfl⟩ := finish_eq_ok h
  obtain ⟨tree, -, rfl⟩ := Population.ofSeeds_eq_ok hp
  rfl

end Builder

/-! ### Networks -/

namespace Network

/-- What holds of every finished network. -/
structure Built [Scalar α] (n : Network α) : Prop where
  sound : n.toPopulation.Sound
  nonempty : ∀ c ∈ n.clusters, c.region.isEmpty = false
  /-- A cluster on a unit region sits where its composition belongs. -/
  placed : ∀ c ∈ n.clusters, c.region.isUnit = true →
    n.material.space.toPoint c.composition = .ok c.region.lo
  assembled : n = .assemble n.params n.material n.toPopulation
    (ReactionPlan.ofPopulation n.material n.toPopulation)

/-- The reactions of a network before they are numbered. -/
def plan [Scalar α] (n : Network α) : ReactionPlan := .ofPopulation n.material n.toPopulation

theorem built_of_finish [Scalar α] {params : NetworkParams α} {material : Material α} {b : Builder α}
    {n : Network α} (hb : Builder.Reachable params material b) (h : b.finish = .ok n) :
    n.Built ∧ n.params = params ∧ n.material = material := by
  obtain ⟨p, hp, rfl⟩ := Builder.finish_eq_ok h
  have hb := hb.holds
  have hsound := Population.sound_of_ofSeeds hp
  obtain ⟨tree, -, rfl⟩ := Population.ofSeeds_eq_ok hp
  refine ⟨⟨hsound, fun c hc => ?_, fun c hc hunit => ?_, rfl⟩, hb.params_eq, hb.material_eq⟩
  · obtain ⟨s, hs, i, free, rfl⟩ := Population.seed_of_mem hc
    exact (hb.placed s (Array.mem_toList_iff.mp hs)).nonempty
  · obtain ⟨s, hs, i, free, rfl⟩ := Population.seed_of_mem hc
    obtain ⟨x, hx, hlo⟩ := (hb.placed s (Array.mem_toList_iff.mp hs)).located
    rw [show (Network.assemble b.params b.material _ _).material = material from hb.material_eq]
    exact hlo hunit ▸ hx

theorem Built.eq_of_region [Scalar α] {n : Network α} (hn : n.Built) {c d : Cluster α} (hc : c ∈ n.clusters)
    (hd : d ∈ n.clusters) (h : c.region = d.region) : c = d := by
  have hlo := Region.contains_lo (hn.nonempty c hc)
  exact hn.sound.eq_of_contains hc hd hlo (h ▸ hlo)

end Network

/-! ### A small network -/

namespace Chain

/-- Helium along one axis: single atoms move, leave larger clusters and are lost to a sink. -/
def material : Material ℚ where
  name := "chain"
  space := ⟨[Axis.plain .helium]⟩
  rule :=
    { bounds := .ofInclusive [(1, 5)]
      intersects := fun _ => true
      selects := fun _ => true
      refine := fun r => r.widerThan 1 1
      countFits := fun _ => true }
  formationEnergy c := Scalar.ofNat c.total
  migrationEnergy c := if c.helium = 1 then some 1 else none
  diffusionFactor c := if c.helium = 1 then 1 else 0
  reactionRadius _ := 1
  coreRadius := 0
  atomicVolume := 1
  monomers := [.single .helium 1]
  canEmit parent _ := decide (2 ≤ parent.helium)
  sinkStrength c := if c.helium = 1 then 1 else 0
  dissociation := true
  motionFits _ := true
  emissionFits _ := true

/-- The clusters of `lo` to `hi` atoms share a seed. -/
def seed (lo hi : Int) (count : UInt32) : ClusterSeed ℚ :=
  let r := Region.ofInclusive [(lo, hi)]
  let c := Composition.single .helium count
  ⟨r, c, material.seedProperties r c⟩

/-- Single atoms, pairs, and one cluster for three to five atoms, which absorbs and sheds single ones. -/
def builder : Builder ℚ :=
  ((Builder.withMaterial .standard material).addAll [seed 1 1 1, seed 2 2 2, seed 3 5 4]).1

theorem reachable : builder.Reachable .standard material := Builder.Reachable.start.addAll

/-- Three clusters on four slots, with three productions and three dissociations, none at the origin. -/
theorem finish_ok : ∃ n, builder.finish = .ok n ∧ n.clusters.size = 3 ∧ n.dof = 4 ∧
    n.reactions.size = 6 ∧ n.owns Point.origin = false :=
  exists_eq_ok (by decide +kernel)

end Chain
end ClusterDynamics
