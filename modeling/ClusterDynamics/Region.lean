import ClusterDynamics.Coordinate

/-! Regions: half-open boxes of lattice points. A region stands for all compositions of one cluster,
    so the questions asked of it are which points it holds, how many they are and where their centre
    lies. Everything here is exact; `Region.Range` says when machine words suffice. -/

namespace ClusterDynamics

/-- The points `p` with `lo ≤ p < hi` on every axis. -/
structure Region where
  lo : Point
  hi : Point
deriving DecidableEq, Repr, Inhabited

namespace Region

/-! ### Making regions -/

/-- The box of exactly one point. -/
def unit (p : Point) : Region := ⟨p, Vector.ofFn fun a => p.get a + 1⟩

/-- The box with the given inclusive bounds on the first axes, and `0` on the others. -/
def ofInclusive (bounds : List (Int × Int)) : Region :=
  { lo := Vector.ofFn fun a => (bounds[a.val]?.map (·.1)).getD 0
    hi := Vector.ofFn fun a => (bounds[a.val]?.map (·.2 + 1)).getD 1 }

/-! ### Extent -/

/-- The number of lattice steps from the lower to the upper corner along one axis. -/
def width (r : Region) (a : Direction) : Int := r.hi.get a - r.lo.get a

/-- The number of points along one axis. -/
def extent (r : Region) (a : Direction) : Int := max (r.width a) 0

/-- The number of points in the box. -/
def volume (r : Region) : Int :=
  r.extent Direction.first * r.extent Direction.second * r.extent Direction.third
    * r.extent Direction.fourth

/-- Some axis holds no value. -/
def isEmpty (r : Region) : Bool := directions.any fun a => decide (r.width a ≤ 0)

/-- Every axis holds exactly one value. -/
def isUnit (r : Region) : Bool := directions.all fun a => decide (r.width a = 1)

/-- The axes along which the box holds more than one value. -/
def groupedAxes (r : Region) : List Direction := directions.filter fun a => decide (1 < r.width a)

/-! ### Points and other boxes -/

/-- A point lies in the box; upper ends do not belong to it. -/
def contains (r : Region) (p : Point) : Bool :=
  directions.all fun a => decide (r.lo.get a ≤ p.get a) && decide (p.get a < r.hi.get a)

/-- The corner-wise overlap of two boxes, which is empty when they share no point. -/
def meet (r s : Region) : Region :=
  { lo := Vector.ofFn fun a => max (r.lo.get a) (s.lo.get a)
    hi := Vector.ofFn fun a => min (r.hi.get a) (s.hi.get a) }

/-- Two boxes share a point. -/
def intersects (r s : Region) : Bool :=
  directions.all fun a => decide (max (r.lo.get a) (s.lo.get a) < min (r.hi.get a) (s.hi.get a))

/-- The box of the common points, if there are any. -/
def intersection? (r s : Region) : Option Region :=
  if r.intersects s then some (r.meet s) else none

/-- The smallest box around two boxes, which may hold points of neither. -/
def union (r s : Region) : Region :=
  { lo := Vector.ofFn fun a => min (r.lo.get a) (s.lo.get a)
    hi := Vector.ofFn fun a => max (r.hi.get a) (s.hi.get a) }

/-- The box moved by an offset. -/
def shifted (r : Region) (offset : Point) : Region := ⟨r.lo.add offset, r.hi.add offset⟩

/-! ### Centre -/

/-- Twice the mean coordinate of the points along one axis. -/
def twiceCenter (r : Region) (a : Direction) : Int := r.lo.get a + r.hi.get a - 1

/-- The centre of the box, with halves rounded up. -/
def representative (r : Region) : Point := Vector.ofFn fun a => (r.lo.get a + r.hi.get a).fdiv 2

/-- The point that gives the cluster on this box its composition: the only point of a unit box, the
    rounded centre of any other. -/
def anchor (r : Region) : Point := if r.isUnit then r.lo else r.representative

/-! ### Text -/

/-- One axis of the text: the value of a unit axis, otherwise the inclusive bounds. -/
def axisText (r : Region) (a : Direction) : String :=
  if r.width a = 1 then toString (r.lo.get a)
  else toString (r.lo.get a) ++ ".." ++ toString (r.hi.get a - 1)

/-- The bounds of all axes, such as `[2..5,-1,0,0]`. -/
def text (r : Region) : String := "[" ++ ",".intercalate (directions.map r.axisText) ++ "]"

/-! ### Elementary facts -/

theorem contains_iff {r : Region} {p : Point} :
    r.contains p = true ↔ ∀ a : Direction, r.lo.get a ≤ p.get a ∧ p.get a < r.hi.get a := by
  simp only [contains, List.all_eq_true, Bool.and_eq_true, decide_eq_true_eq]
  exact ⟨fun h a => h a (mem_directions a), fun h a _ => h a⟩

theorem isEmpty_iff {r : Region} : r.isEmpty = true ↔ ∃ a : Direction, r.width a ≤ 0 := by
  simp only [isEmpty, List.any_eq_true, decide_eq_true_eq]
  exact ⟨fun ⟨a, _, h⟩ => ⟨a, h⟩, fun ⟨a, h⟩ => ⟨a, mem_directions a, h⟩⟩

theorem isUnit_iff {r : Region} : r.isUnit = true ↔ ∀ a : Direction, r.width a = 1 := by
  simp only [isUnit, List.all_eq_true, decide_eq_true_eq]
  exact ⟨fun h a => h a (mem_directions a), fun h a _ => h a⟩

theorem intersects_iff {r s : Region} :
    r.intersects s = true ↔
      ∀ a : Direction, max (r.lo.get a) (s.lo.get a) < min (r.hi.get a) (s.hi.get a) := by
  simp only [intersects, List.all_eq_true, decide_eq_true_eq]
  exact ⟨fun h a => h a (mem_directions a), fun h a _ => h a⟩

end Region
end ClusterDynamics
