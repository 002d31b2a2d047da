/-! The species that defect clusters are made of. -/

namespace ClusterDynamics

/-- A point-defect species that is counted in a cluster. -/
inductive Species
  | helium
  | xenon
  | vacancy
  | interstitial
deriving DecidableEq, Repr, Inhabited, Hashable

namespace Species

/-- Every species, in the order in which compositions list them. -/
def all : List Species := [.helium, .xenon, .vacancy, .interstitial]

/-- The letters that stand for the species in cluster names. -/
def symbol : Species → String
  | .helium => "He"
  | .xenon => "Xe"
  | .vacancy => "V"
  | .interstitial => "I"

/-- The place of the species in `all`. -/
def index : Species → Nat
  | .helium => 0
  | .xenon => 1
  | .vacancy => 2
  | .interstitial => 3

theorem mem_all (s : Species) : s ∈ all := by cases s <;> simp [all]

end Species
end ClusterDynamics
