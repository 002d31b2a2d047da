import ClusterDynamics.Coordinate

/-! The functions of a moment basis are numbered: `0` is the constant function, whose coefficient is the
    mean concentration of a cluster, and `a + 1` is the first moment along axis `a`. -/

namespace ClusterDynamics

/-- The number of basis functions: the constant one and one per axis. -/
abbrev basisSize : Nat := maxAxes + 1

/-- The number of a basis function: zero is the constant one, `a + 1` the slope along axis `a`. -/
abbrev BasisIndex := Fin basisSize

/-- The axis of a first moment; the mean has none. -/
def BasisIndex.axis? : BasisIndex → Option Direction
  | ⟨0, _⟩ => none
  | ⟨a + 1, h⟩ => some ⟨a, Nat.lt_of_succ_lt_succ h⟩

/-- All basis functions, in order. -/
def basisIndices : List BasisIndex := [0, 1, 2, 3, 4]

theorem mem_basisIndices (k : BasisIndex) : k ∈ basisIndices := by
  revert k
  decide

end ClusterDynamics
