import ClusterDynamics.Network
import ClusterDynamics.RateLaw

/-! Rate constants: one number per reaction, at one temperature. Productions follow from radii and
    diffusion coefficients, dissociations from the production that undoes them by detailed balance. -/

namespace ClusterDynamics

/-- The numbers that a network needs at one temperature. -/
structure RateConstants (α : Type) where
  temperature : α
  /-- The rate constant of each reaction. -/
  rates : Array α
  /-- The diffusion coefficient of each cluster. -/
  diffusion : Array α
  /-- The largest rate constant of a production. -/
  largestProduction : α
deriving Repr

namespace RateConstants

variable {α : Type}

/-- The number of reactions that the constants are for. -/
def size (k : RateConstants α) : Nat := k.rates.size

/-- The diffusion coefficient of a cluster; `none` for a cluster of another network. -/
def diffusion? (k : RateConstants α) (cluster : Nat) : Option α := k.diffusion[cluster]?

/-- The same constants with one of them replaced. -/
def setRate (k : RateConstants α) (reaction : Nat) (x : α) : RateConstants α :=
  { k with rates := k.rates.setIfInBounds reaction x }

section

variable [Scalar α]

/-- The rate constant of a reaction; zero for a number that none has. -/
def rate (k : RateConstants α) (reaction : Nat) : α := k.rates.getD reaction 0

/-- The same constants with every reaction switched off that does not pass a test. -/
def keepOnly (k : RateConstants α) (keep : Nat → Bool) : RateConstants α :=
  { k with rates := k.rates.mapIdx fun i x => if keep i then x else 0 }

end

/-! ### At a temperature -/

variable [Analytic α]

/-- The diffusion coefficient of each cluster at a temperature. -/
def diffusionOf (n : Network α) (temperature : α) : Array α :=
  n.clusters.map fun c =>
    RateLaw.diffusion c.properties.diffusionFactor c.properties.migrationEnergy temperature

/-- The reaction radius of a numbered cluster. -/
def radius (n : Network α) (id : Nat) : α :=
  (n.clusters[id]?.map (·.properties.reactionRadius)).getD 0

/-- The rate constant of a production; zero for a dissociation. -/
def productionRate (n : Network α) (diffusion : Array α) : Reaction α → α
  | .production first second =>
    RateLaw.production (radius n first) (radius n second) n.material.coreRadius
      (diffusion.getD first 0) (diffusion.getD second 0)
  | .dissociation .. => 0

/-- The rate constant of a dissociation, given those of the productions. -/
def dissociationRate (n : Network α) (temperature : α) (productions : Array α) :
    Reaction α → Option α
  | .production _ _ => none
  | .dissociation _ _ _ reverse binding =>
    some (RateLaw.dissociation (productions.getD reverse 0) binding n.material.atomicVolume
      temperature)

/-- The constants of a network at a temperature, which has to be finite and positive. -/
def compute (n : Network α) (temperature : α) : Except (NetworkFault α) (RateConstants α) :=
  if !Scalar.isFinite temperature || !decide (0 < temperature) then .error (.temperature temperature)
  else
    let diffusion := diffusionOf n temperature
    let productions := n.reactions.map (productionRate n diffusion)
    let rates :=
      if n.material.dissociation then
        Array.zipWith (fun r k => (dissociationRate n temperature productions r).getD k)
          n.reactions productions
      else productions
    .ok ⟨temperature, rates, diffusion, productions.foldl Scalar.larger 0⟩

end RateConstants
end ClusterDynamics
