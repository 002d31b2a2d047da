import ClusterDynamics.Scalar

/-! The rate laws that all materials share: Arrhenius diffusion, diffusion-limited encounters and
    dissociation by detailed balance. Temperatures are in K, energies in eV and lengths in nm. -/

namespace ClusterDynamics
namespace RateLaw

variable {α : Type} [Analytic α]

/-- The Boltzmann constant in eV/K. -/
def boltzmann : α := 8.617333262e-5

/-- The thermal energy `kB T`. -/
def thermalEnergy (temperature : α) : α := boltzmann * temperature

/-- The Arrhenius law `D0 exp (-Em / kB T)`. Without a prefactor or a finite migration energy the
    cluster rests, and the coefficient is exactly zero. -/
def diffusion (factor : α) (migration : Option α) (temperature : α) : α :=
  match migration with
  | none => 0
  | some energy =>
    if Scalar.isZero factor || !Scalar.isFinite energy then 0
    else factor * Analytic.exp (-energy / thermalEnergy temperature)

/-- The encounter rate `4 pi (rA + rB + rCore) (DA + DB)`. -/
def production (radiusA radiusB core diffusionA diffusionB : α) : α :=
  4.0 * Analytic.pi * (radiusA + radiusB + core) * (diffusionA + diffusionB)

/-- Detailed balance: the reverse rate times `exp (-Eb / kB T)` over the atomic volume. -/
def dissociation (reverse binding atomicVolume temperature : α) : α :=
  reverse * Analytic.exp (-binding / thermalEnergy temperature) / atomicVolume

/-- The encounter rate that detailed balance assigns to a dissociation rate. -/
def productionFromDissociation (rate binding atomicVolume temperature : α) : α :=
  rate * atomicVolume * Analytic.exp (binding / thermalEnergy temperature)

/-- The radius of a sphere that holds `n` units of a volume. -/
def sphereRadius (n unitVolume : α) : α :=
  Analytic.cbrt (3.0 * n * unitVolume / (4.0 * Analytic.pi))

end RateLaw
end ClusterDynamics
