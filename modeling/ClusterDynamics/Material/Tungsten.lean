import ClusterDynamics.Material.DefectSpace

/-! Helium in tungsten. Small helium clusters are tabulated; a bubble of `m` helium atoms in `n`
    vacancies holds at most `4 n + 5` of them, and the energy that binds one more falls linearly with
    the ratio of the two. -/

namespace ClusterDynamics
namespace Tungsten

variable {α : Type}

/-- The lattice constant, in nm. -/
def lattice [Scalar α] : α := 0.317

/-- Formation energies of pure helium clusters, from one atom on. -/
def heliumFormation [Scalar α] : List α := [6.15, 11.44, 16.35, 21.0, 26.1, 30.24, 34.93, 38.80]

/-- Migration energies of the helium clusters that move, by size. -/
def heliumMigration [Scalar α] : List α := [0.13, 0.20, 0.25, 0.20, 0.12, 0.30, 0.40]

/-- Diffusion factors of the helium clusters that move, by size. -/
def heliumDiffusion [Scalar α] : List α :=
  [2.95e10, 3.24e10, 2.26e10, 1.68e10, 5.2e9, 1.2e10, 1.0e10]

/-- Migration energies of the interstitial clusters that move, by size. -/
def interstitialMigration [Scalar α] : List α := [0.01, 0.02, 0.03, 0.04, 0.05]

/-- The migration energy of one vacancy; larger vacancy clusters stay. -/
def vacancyMigration [Scalar α] : List α := [1.30]

/-- The diffusion factor of one vacancy. -/
def vacancyDiffusion [Scalar α] : α := 1.8e12

/-- The diffusion factor of one interstitial; a cluster of `n` has the `n`-th part. -/
def interstitialDiffusion [Scalar α] : α := 8.8e10

/-- The energy that binds the first helium atom to vacancies. -/
def heliumVacancyBinding [Scalar α] : α := 4.6

/-- By how much the binding falls with the helium to vacancy ratio. -/
def heliumPressure [Scalar α] : α := 0.25

/-- The most helium beside `n` vacancies is `4 n + 5`. -/
def defects (p : NetworkParams α) : DefectSpace := .ofParams p 4 5

/-- Surface energy of the vacancies and the helium bindings, summed atom by atom; the table for pure
    helium; the surface law for interstitials. -/
def formationEnergy [Analytic α] (c : Composition) : α :=
  let he := c.helium.toNat
  let v : α := Scalar.ofNat c.vacancy.toNat
  let i : α := Scalar.ofNat c.interstitial.toNat
  if 0 < c.vacancy then
    let m : α := Scalar.ofNat he
    3.6 * RateLaw.surface v + m * (6.15 - heliumVacancyBinding) + heliumPressure * m * (m - 1) / v
  else if 0 < c.interstitial then 10.0 * RateLaw.surface i
  else if he = 0 then 0
  else (heliumFormation[he - 1]?).getD Analytic.infinity

/-- Only small pure clusters migrate. -/
def migrationEnergy [Scalar α] (c : Composition) : Option α :=
  if c.isMixed || c.isEmpty then none
  else if 0 < c.helium then heliumMigration[c.total - 1]?
  else if 0 < c.interstitial then interstitialMigration[c.total - 1]?
  else vacancyMigration[c.total - 1]?

/-- The diffusion factor of a pure cluster that moves; zero for all others. -/
def diffusionFactor [Scalar α] (c : Composition) : α :=
  if c.isMixed || c.isEmpty then 0
  else if 0 < c.helium then (heliumDiffusion[c.total - 1]?).getD 0
  else if 0 < c.interstitial then
    if c.total ≤ 5 then interstitialDiffusion / Scalar.ofNat c.total else 0
  else if c.total = 1 then vacancyDiffusion
  else 0

/-- A parent of at least two defects emits what it holds. A mixed one also emits an interstitial and
    keeps the vacancy behind. -/
def canEmit (parent monomer : Composition) : Bool :=
  if parent.total < 2 then false
  else if 0 < monomer.helium then 0 < parent.helium
  else if 0 < monomer.vacancy then 0 < parent.vacancy
  else if 0 < monomer.interstitial then 0 < parent.interstitial || parent.isMixed
  else false

/-- Tungsten under given parameters. -/
def material [Analytic α] (p : NetworkParams α) : Material α where
  name := "tungsten"
  space := DefectSpace.space
  rule := (defects p).rule (p.grouping.map .ofGrouping)
  formationEnergy := formationEnergy
  migrationEnergy := migrationEnergy
  diffusionFactor := diffusionFactor
  reactionRadius := RateLaw.clusterRadius lattice
  coreRadius := 0
  atomicVolume := 0.5 * Analytic.cube lattice
  monomers := RateLaw.defectMonomers
  canEmit := canEmit
  sinkStrength _ := 0
  dissociation := p.dissociation
  motionFits := Composition.totalFits
  emissionFits := Composition.totalFits

end Tungsten
end ClusterDynamics
