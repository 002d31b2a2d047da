import ClusterDynamics.Material.Iron
import ClusterDynamics.Material.Tungsten
import ClusterDynamics.Material.Xenon

/-! From parameters to the material they name. -/

namespace ClusterDynamics

variable {α : Type} [Analytic α]

/-- The material of a kind, with the limits of its tables checked. -/
def MaterialKind.build (kind : MaterialKind) (p : NetworkParams α) :
    Except (ConfigFault α) (Material α) :=
  match kind with
  | .tungsten =>
    if ConfigFault.tabulatedHelium < p.maxHelium.toNat then .error (.heliumTable p.maxHelium)
    else .ok (Tungsten.material p)
  | .iron => .ok (Iron.material p)
  | .xenon => if p.maxXenon = 0 then .error .noXenon else .ok (Xenon.material p)

/-- The configured material, after the parameters have been validated. -/
def NetworkParams.chooseMaterial (p : NetworkParams α) : Except (ConfigFault α) (Material α) := do
  p.validate
  p.material.build p

end ClusterDynamics
