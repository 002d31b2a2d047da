import ClusterDynamics.Moment.Index
import ClusterDynamics.Scalar

/-! Vectors and matrices over the functions of a moment basis. -/

namespace ClusterDynamics

/-- One value per basis function. -/
abbrev MomentVector (α : Type) := Vector α basisSize

/-- Rows of values: how basis function `j` of one cluster feeds row `k` of another one. -/
abbrev MomentMatrix (α : Type) := Vector (MomentVector α) basisSize

namespace MomentVector

variable {α : Type} [Scalar α]

/-- The vector of zeros. -/
def zero : MomentVector α := Vector.replicate basisSize 0

/-- The sum of two vectors, entry by entry. -/
def add (v w : MomentVector α) : MomentVector α := Vector.ofFn fun k => v.get k + w.get k

/-- The difference of two vectors, entry by entry. -/
def sub (v w : MomentVector α) : MomentVector α := Vector.ofFn fun k => v.get k - w.get k

/-- Every entry times one number. -/
def scale (v : MomentVector α) (x : α) : MomentVector α := Vector.ofFn fun k => v.get k * x

/-- The sum of the products of matching entries, from the first to the last. -/
def dot (v w : MomentVector α) : α :=
  v[0] * w[0] + v[1] * w[1] + v[2] * w[2] + v[3] * w[3] + v[4] * w[4]

@[simp] theorem get_add (v w : MomentVector α) (k : BasisIndex) :
    (v.add w).get k = v.get k + w.get k :=
  get_ofFn _ k

@[simp] theorem get_sub (v w : MomentVector α) (k : BasisIndex) :
    (v.sub w).get k = v.get k - w.get k :=
  get_ofFn _ k

@[simp] theorem get_scale (v : MomentVector α) (x : α) (k : BasisIndex) :
    (v.scale x).get k = v.get k * x :=
  get_ofFn _ k

end MomentVector

namespace MomentMatrix

variable {α : Type} [Scalar α]

/-- The matrix with given entries. -/
def ofFn (f : BasisIndex → BasisIndex → α) : MomentMatrix α :=
  Vector.ofFn fun k => Vector.ofFn fun j => f k j

/-- The entry in row `k` and column `j`. -/
def entry (m : MomentMatrix α) (k j : BasisIndex) : α := (m.get k).get j

/-- The matrix of zeros. -/
def zero : MomentMatrix α := Vector.replicate basisSize MomentVector.zero

/-- The sum of two matrices, entry by entry. -/
def add (m n : MomentMatrix α) : MomentMatrix α := ofFn fun k j => m.entry k j + n.entry k j

/-- The matrix applied to a vector. -/
def mulVec (m : MomentMatrix α) (v : MomentVector α) : MomentVector α :=
  Vector.ofFn fun k => MomentVector.dot (m.get k) v

theorem entry_ofFn {α : Type} (f : BasisIndex → BasisIndex → α) (k j : BasisIndex) :
    (ofFn f).entry k j = f k j := by
  simp only [ofFn, entry, get_ofFn]

@[simp] theorem entry_add (m n : MomentMatrix α) (k j : BasisIndex) :
    (m.add n).entry k j = m.entry k j + n.entry k j :=
  entry_ofFn _ k j

@[simp] theorem get_mulVec (m : MomentMatrix α) (v : MomentVector α) (k : BasisIndex) :
    (m.mulVec v).get k = MomentVector.dot (m.get k) v :=
  get_ofFn _ k

end MomentMatrix
end ClusterDynamics
