import ClusterDynamics.Evaluation

/-! Sweeps over a spatial grid. Every point is evaluated on its own, at its own temperature and state;
    a point that cannot be evaluated is marked and counted, and the sweep goes on. -/

namespace ClusterDynamics

/-- How far a point has come. -/
inductive PointStatus
  | pending
  | evaluated
  | failed
deriving DecidableEq, Repr

/-- The written name of a status. -/
def PointStatus.text : PointStatus → String
  | .pending => "Pending"
  | .evaluated => "Evaluated"
  | .failed => "Failed"

/-- The state of a grid point and the results of its last evaluation. -/
structure GridPoint (α : Type) where
  temperature : α
  concentrations : Array α
  flux : Array α
  jacobian : Option (Array α)
  largestRate : α
  status : PointStatus
deriving Repr

/-- The summary of one sweep. -/
structure GridStats (α : Type) where
  points : Nat
  evaluated : Nat
  failed : Nat
  /-- The largest production rate constant over the evaluated points. -/
  largestRate : α
  /-- Wall time of the sweep, which the caller measures. -/
  elapsedSeconds : α
deriving Repr

/-- The summary of a grid without points. -/
def GridStats.none {α : Type} [Scalar α] : GridStats α := ⟨0, 0, 0, 0, 0⟩

namespace GridPoint

variable {α : Type} [Scalar α]

/-- A point that has not been evaluated yet. -/
def new (temperature : α) (concentrations : Array α) : GridPoint α :=
  ⟨temperature, concentrations, #[], .none, 0, .pending⟩

/-- The point after an evaluation. A failure clears flux and Jacobian and leaves the last rate. -/
def update (p : GridPoint α) : Except (EvaluationFault α) (EvaluationResult α) → GridPoint α
  | .ok r =>
    { p with flux := r.flux, jacobian := r.jacobian, largestRate := r.largestRate,
             status := .evaluated }
  | .error _ => { p with flux := #[], jacobian := .none, status := .failed }

end GridPoint

/-- An evaluator with the request that all points share. -/
structure GridSolver (α : Type) where
  evaluator : Evaluator α
  request : Request

namespace GridSolver

variable {α : Type} [Scalar α]

/-- The summary of points that have just been evaluated. -/
def summary (points : List (GridPoint α)) : GridStats α :=
  let done := points.filter fun p => p.status == .evaluated
  { points := points.length
    evaluated := done.length
    failed := points.length - done.length
    largestRate := (done.map (·.largestRate)).foldl Scalar.larger 0
    elapsedSeconds := 0 }

/-- Evaluates every point by itself and sums up what came out. -/
def sweep (s : GridSolver α) (points : List (GridPoint α)) : List (GridPoint α) × GridStats α :=
  let points := points.map fun p =>
    p.update (s.evaluator.evaluate p.temperature p.concentrations s.request)
  (points, summary points)

end GridSolver
end ClusterDynamics
