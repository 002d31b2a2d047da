import ClusterDynamics.Region

/-! The points of a region, one after the other. The last axis runs fastest: the next point grows the
    last coordinate that has room and sends the ones behind it back to the lower corner. -/

namespace ClusterDynamics
namespace Region

/-- Whether the coordinate on axis `a` can grow inside the region. -/
def hasRoom (r : Region) (p : Point) (a : Direction) : Bool := decide (p.get a + 1 < r.hi.get a)

/-- The point after `p` when axis `a` grows: earlier axes stay, later ones start again. -/
def grow (r : Region) (p : Point) (a : Direction) : Point :=
  Vector.ofFn fun b => if b < a then p.get b else if b = a then p.get b + 1 else r.lo.get b

/-- The point after `p`, or `none` behind the last one. -/
def next? (r : Region) (p : Point) : Option Point :=
  (directions.reverse.find? (r.hasRoom p)).map (r.grow p)

/-- At most `n` points, beginning with the given one. -/
def walk (r : Region) : Nat → Option Point → List Point
  | 0, _ => []
  | _, none => []
  | n + 1, some p => p :: r.walk n (r.next? p)

/-- The first point; an empty region has none. -/
def first? (r : Region) : Option Point := if r.isEmpty then none else some r.lo

/-- At most `n` points from the beginning. -/
def firstPoints (r : Region) (n : Nat) : List Point := r.walk n r.first?

/-- The points of a region in the order of an enumeration. -/
def points (r : Region) : List Point := r.firstPoints r.volume.toNat

end Region
end ClusterDynamics
