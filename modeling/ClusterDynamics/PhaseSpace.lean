import ClusterDynamics.Composition
import ClusterDynamics.Coordinate

/-! Phase space: which species is counted along which axis. A plain axis counts one species, a folded
    axis counts two that annihilate each other, one of them with a negative sign. `toPoint` and
    `toComposition` convert between counts and signed coordinates. -/

namespace ClusterDynamics

/-- An axis with the species of its positive coordinates and, on a folded axis, the species of the
    negative ones. -/
structure Axis where
  positive : Species
  negative : Option Species := none
deriving DecidableEq, Repr, Inhabited

namespace Axis

/-- An axis that counts one species. -/
def plain (s : Species) : Axis := ⟨s, none⟩

/-- An axis with one species on each side of the origin. -/
def folded (positive negative : Species) : Axis := ⟨positive, some negative⟩

/-- The species on the axis, the positive one first. -/
def species (x : Axis) : List Species := x.positive :: x.negative.toList

/-- The sign with which an axis counts a species. -/
def sign? (x : Axis) (s : Species) : Option Int :=
  if x.positive = s then some 1 else if x.negative = some s then some (-1) else none

/-- The species that a coordinate counts; zero counts none, nor does a negative coordinate on a plain
    axis. -/
def counted? (x : Axis) (n : Int) : Option Species :=
  if 0 < n then some x.positive else if n < 0 then x.negative else none

end Axis

/-- Why a list of axes is no phase space. -/
inductive AxisFault
  | count (n : Nat)
  | shared (s : Species)
deriving DecidableEq, Repr

/-- Why a composition has no place among the axes. -/
inductive TrackingFault
  /-- A species present in the composition is on no axis. -/
  | untracked
  /-- Both species of a folded axis are present. -/
  | foldedPair
deriving DecidableEq, Repr

/-- The axes of one material. -/
structure PhaseSpace where
  axes : List Axis
deriving DecidableEq, Repr, Inhabited

namespace PhaseSpace

/-- The first species that already occurred earlier in the list. -/
def firstRepeated : List Species → List Species → Option Species
  | _, [] => none
  | seen, s :: rest => if s ∈ seen then some s else firstRepeated (s :: seen) rest

/-- A phase space has one to four axes, and no species is on two of them. -/
def ofAxes (axes : List Axis) : Except AxisFault PhaseSpace :=
  if axes.isEmpty || decide (maxAxes < axes.length) then .error (.count axes.length)
  else
    match firstRepeated [] (axes.flatMap Axis.species) with
    | some s => .error (.shared s)
    | none => .ok ⟨axes⟩

/-- The number of axes in use. -/
def dim (space : PhaseSpace) : Nat := space.axes.length

/-- The first axis, counted from `a`, that carries a species, with its sign. -/
def locateFrom (s : Species) : Nat → List Axis → Option (Nat × Int)
  | _, [] => none
  | a, x :: rest =>
    match x.sign? s with
    | some sign => some (a, sign)
    | none => locateFrom s (a + 1) rest

/-- The axis that carries a species and the sign with which it is counted. -/
def locate (space : PhaseSpace) (s : Species) : Option (Nat × Int) := locateFrom s 0 space.axes

/-- Coordinates found so far, with the axes that are taken. -/
structure Placement where
  point : Point
  taken : List Nat

/-- Puts the count of one species on its axis. -/
def place (space : PhaseSpace) (p : Placement) (e : Species × UInt32) :
    Except TrackingFault Placement :=
  match space.locate e.1 with
  | none => .error .untracked
  | some (a, sign) =>
    if a ∈ p.taken then .error .foldedPair
    else .ok ⟨p.point.setIfInBounds a (sign * (e.2.toNat : Int)), a :: p.taken⟩

/-- The signed coordinates of a composition. Every species present needs an axis of its own. -/
def toPoint (space : PhaseSpace) (c : Composition) : Except TrackingFault Point :=
  (c.entries.foldlM space.place ⟨Point.origin, []⟩).map (·.point)

/-- The composition at a point, read axis by axis. A count keeps the low 32 bits of the magnitude. -/
def toCompositionFrom (p : Point) : Nat → List Axis → Composition → Composition
  | _, [], c => c
  | a, x :: rest, c =>
    let n := p[a]?.getD 0
    toCompositionFrom p (a + 1) rest
      (match x.counted? n with
        | some s => c.set s (UInt32.ofNat n.natAbs)
        | none => c)

/-- The composition at a point. Coordinates that no species can express are left out. -/
def toComposition (space : PhaseSpace) (p : Point) : Composition :=
  toCompositionFrom p 0 space.axes .empty

end PhaseSpace
end ClusterDynamics
