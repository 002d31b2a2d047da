/-! Phase space is an integer lattice of four axes whose coordinates are signed 64-bit words. Geometry
    is computed over the unbounded integers; whether every intermediate value of a computation is
    still a word is a separate question, asked with `fits`. -/

namespace ClusterDynamics

/-- The most axes that a material can declare. -/
abbrev maxAxes : Nat := 4

/-- One of the four lattice directions. -/
abbrev Direction := Fin maxAxes

namespace Direction

/-- The first axis. -/
abbrev first : Direction := 0

/-- The second axis. -/
abbrev second : Direction := 1

/-- The third axis. -/
abbrev third : Direction := 2

/-- The fourth axis. -/
abbrev fourth : Direction := 3

end Direction

/-- All axes, in order. -/
def directions : List Direction :=
  [Direction.first, Direction.second, Direction.third, Direction.fourth]

/-- A lattice point. Axes that a material does not use are zero. -/
abbrev Point := Vector Int maxAxes

/-- One flag per lattice direction. -/
abbrev AxisMask := Vector Bool maxAxes

namespace Point

/-- The point with all coordinates zero. -/
def origin : Point := Vector.replicate maxAxes 0

/-- The sum of two points, axis by axis. -/
def add (p q : Point) : Point := Vector.ofFn fun a => p.get a + q.get a

/-- The point on the other side of the origin. -/
def neg (p : Point) : Point := Vector.ofFn fun a => -p.get a

end Point

/-- `n` is a signed 64-bit word: it lies between `-2 ^ 63` and `2 ^ 63 - 1`. -/
def fits (n : Int) : Bool := decide (-9223372036854775808 ≤ n ∧ n < 9223372036854775808)

/-- Every coordinate can change its sign. -/
def Point.negFits (p : Point) : Bool := directions.all fun a => fits (-p.get a)

theorem fits_iff {n : Int} : fits n = true ↔ -9223372036854775808 ≤ n ∧ n < 9223372036854775808 := by
  simp [fits]

/-- The vector of a function has the value of the function at each place. -/
theorem get_ofFn {α : Type} {n : Nat} (f : Fin n → α) (i : Fin n) : (Vector.ofFn f).get i = f i :=
  Vector.getElem_ofFn i.isLt

namespace Point

@[simp] theorem get_origin (a : Direction) : origin.get a = 0 := by
  simp [origin, Vector.get]

@[simp] theorem get_add (p q : Point) (a : Direction) : (p.add q).get a = p.get a + q.get a :=
  get_ofFn _ a

@[simp] theorem get_neg (p : Point) (a : Direction) : p.neg.get a = -p.get a :=
  get_ofFn _ a

/-- Points that agree on every axis are equal. -/
theorem ext_get {p q : Point} (h : ∀ a, p.get a = q.get a) : p = q :=
  Vector.ext fun i hi => h ⟨i, hi⟩

end Point

theorem mem_directions (a : Direction) : a ∈ directions := by
  revert a
  decide

end ClusterDynamics
