import ClusterDynamics.Jacobian

/-! One chemistry evaluation: rate constants for a temperature, then the flux and, on request, the
    Jacobian at a state. A time integrator needs no more of a network than this. -/

namespace ClusterDynamics

/-- What the time integrator asks for. -/
inductive Request
  | flux
  | fluxAndJacobian
deriving DecidableEq, Repr

/-- What an evaluation at one point gives. -/
structure EvaluationResult (α : Type) where
  flux : Array α
  /-- Values in the order of the evaluator's sparsity pattern. -/
  jacobian : Option (Array α)
  /-- The largest production rate constant. -/
  largestRate : α
deriving Repr

/-- The stage at which an evaluation failed, with the cause. -/
inductive EvaluationFault (α : Type)
  | rates (temperature : α) (cause : NetworkFault α)
  | flux (cause : NetworkFault α)
  | jacobian (cause : NetworkFault α)
deriving Repr

namespace EvaluationFault

variable {α : Type}

/-- What went wrong inside the stage. -/
def cause : EvaluationFault α → NetworkFault α
  | .rates _ c => c
  | .flux c => c
  | .jacobian c => c

/-- The stage alone. -/
def stage [ScalarText α] : EvaluationFault α → String
  | .rates t _ => "Failed to compute rate constants at " ++ ScalarText.plain t ++ " K"
  | .flux _ => "Flux evaluation failed"
  | .jacobian _ => "Jacobian evaluation failed"

/-- The stage that failed, with the text of its cause. -/
def message [ScalarText α] (f : EvaluationFault α) : String := f.stage ++ ": " ++ f.cause.message

end EvaluationFault

/-- The chemistry of one grid point, as a time integrator sees it. -/
structure Evaluator (α : Type) where
  name : String
  dof : Nat
  sparsity : SparsityPattern
  evaluate : (temperature : α) → (state : Array α) → Request →
    Except (EvaluationFault α) (EvaluationResult α)

namespace Network

variable {α : Type} [Analytic α]

/-- The Jacobian from zero, if it is asked for. -/
def requestedJacobian (n : Network α) (k : RateConstants α) (state : Array α) :
    Request → Except (Failure α (Array α)) (Option (Array α))
  | .flux => .ok none
  | .fluxAndJacobian => (n.addJacobian k state (State.zeros n.sparsity.size)).map some

/-- Rates, flux and Jacobian at a state. -/
def evaluate (n : Network α) (temperature : α) (state : Array α) (request : Request) :
    Except (EvaluationFault α) (EvaluationResult α) := do
  let k ← (RateConstants.compute n temperature).mapError (.rates temperature)
  let flux ← (n.addFluxes k state (State.zeros n.dof)).mapError (.flux ·.fault)
  let jacobian ← (n.requestedJacobian k state request).mapError (.jacobian ·.fault)
  return ⟨flux, jacobian, k.largestProduction⟩

/-- The evaluations of a network, under the name of its material. -/
def evaluator (n : Network α) : Evaluator α :=
  ⟨n.material.name, n.dof, n.sparsity, n.evaluate⟩

end Network
end ClusterDynamics
