import ClusterDynamics.Material.DefectSpace

/-! Helium in alpha iron. A bubble of `n` vacancies holds at most `4 n` helium atoms, and dislocations
    absorb small vacancy clusters and single interstitials, the latter with a bias. -/

namespace ClusterDynamics
namespace Iron

variable {α : Type}

/-- The lattice constant, in nm. -/
def lattice [Scalar α] : α := 0.287

/-- The formation energy of one helium atom, in eV. -/
def heliumEnergy [Scalar α] : α := 4.08

/-- The formation energy of one vacancy, in eV. -/
def vacancyEnergy [Scalar α] : α := 1.9

/-- The formation energy of one interstitial, in eV. -/
def interstitialEnergy [Scalar α] : α := 3.52

/-- The energy that binds the first helium atom to vacancies. -/
def heliumVacancyBinding [Scalar α] : α := 2.3

/-- By how much the binding falls with the helium to vacancy ratio. -/
def heliumPressure [Scalar α] : α := 0.25

/-- How much more strongly dislocations absorb interstitials. -/
def sinkBias [Scalar α] : α := 1.05

/-- The sink strength of a run that configures none. -/
def standardSink [Scalar α] : α := 8.0e-4

/-- The most helium beside `n` vacancies is `4 n`. -/
def defects (p : NetworkParams α) : DefectSpace := .ofParams p 4 0

/-- The dislocation sink strength of a run. -/
def sink [Scalar α] (p : NetworkParams α) : α :=
  if 0 < p.sinkStrength then p.sinkStrength else standardSink

/-- Bubbles pay for their surface and for the pressure of their helium, other clusters for their surface. -/
def formationEnergy [Analytic α] (c : Composition) : α :=
  let he : α := Scalar.ofNat c.helium.toNat
  let v : α := Scalar.ofNat c.vacancy.toNat
  let i : α := Scalar.ofNat c.interstitial.toNat
  if 0 < c.vacancy then
    vacancyEnergy * RateLaw.surface v + he * (heliumEnergy - heliumVacancyBinding)
      + heliumPressure * he * (he - 1) / v
  else if 0 < c.interstitial then interstitialEnergy * RateLaw.surface i
  else heliumEnergy * RateLaw.surface he

/-- The pure clusters that move: helium up to three atoms, single vacancies, single interstitials. -/
inductive Mover
  | helium
  | vacancy
  | interstitial
deriving DecidableEq, Repr

/-- Which kind of moving cluster a composition is. -/
def mover? (c : Composition) : Option Mover :=
  if c.isMixed then none
  else if 1 ≤ c.helium ∧ c.helium ≤ 3 ∧ c.vacancy = 0 ∧ c.interstitial = 0 then some .helium
  else if c.helium = 0 ∧ c.vacancy = 1 ∧ c.interstitial = 0 then some .vacancy
  else if c.helium = 0 ∧ c.vacancy = 0 ∧ c.interstitial = 1 then some .interstitial
  else none

/-- The barrier that a moving cluster has to cross; `none` for one that stays. -/
def migrationEnergy [Scalar α] (c : Composition) : Option α :=
  (mover? c).map fun
    | .helium => 0.06
    | .vacancy => 0.67
    | .interstitial => 0.34

/-- The diffusion factor of a moving cluster; zero for one that stays. -/
def diffusionFactor [Scalar α] (c : Composition) : α :=
  match mover? c with
  | some .helium => 1.0e11
  | some .vacancy => 1.0e12
  | some .interstitial => 1.0e11
  | none => 0

/-- A parent of at least two defects emits what it holds. -/
def canEmit (parent monomer : Composition) : Bool :=
  decide (2 ≤ parent.total) && monomer.entries.all fun e => decide (0 < parent.get e.1)

/-- Up to four vacancies and single interstitials are absorbed. -/
def sinkStrength [Scalar α] (strength : α) (c : Composition) : α :=
  if c.isMixed then 0
  else if c.helium = 0 ∧ 1 ≤ c.vacancy ∧ c.vacancy ≤ 4 ∧ c.interstitial = 0 then strength
  else if c.helium = 0 ∧ c.vacancy = 0 ∧ c.interstitial = 1 then sinkBias * strength
  else 0

/-- Iron under given parameters. -/
def material [Analytic α] (p : NetworkParams α) : Material α where
  name := "iron"
  space := DefectSpace.space
  rule := (defects p).rule (p.grouping.map .ofGrouping)
  formationEnergy := formationEnergy
  migrationEnergy := migrationEnergy
  diffusionFactor := diffusionFactor
  reactionRadius := RateLaw.clusterRadius lattice
  coreRadius := 0.5 * lattice
  atomicVolume := 0.5 * Analytic.cube lattice
  monomers := RateLaw.defectMonomers
  canEmit := canEmit
  sinkStrength := sinkStrength (sink p)
  dissociation := p.dissociation
  motionFits _ := true
  emissionFits := Composition.totalFits

end Iron
end ClusterDynamics
