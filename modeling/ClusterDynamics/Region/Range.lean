import ClusterDynamics.Region.Bisection

/-! When geometry stays within machine words. Each check below covers the intermediate values of the
    operation it is named after, in the order in which they arise: a test that is settled by one axis
    does not look at the axes behind it. -/

namespace ClusterDynamics
namespace Region

/-- The width along one axis is a word. -/
def widthFits (r : Region) (a : Direction) : Bool := fits (r.width a)

/-- The widths along all axes are words. -/
def widthsFit (r : Region) : Bool := directions.all r.widthFits

/-- Every partial product of the extents is a word. -/
def volumeFits (r : Region) : Bool :=
  r.widthsFit && fits (r.extent Direction.first * r.extent Direction.second)
    && fits (r.extent Direction.first * r.extent Direction.second * r.extent Direction.third)
    && fits r.volume

/-- The widths that are looked at until one settles the question. -/
def settledFits (r : Region) (settles : Direction → Bool) : List Direction → Bool
  | [] => true
  | a :: as => r.widthFits a && (settles a || r.settledFits settles as)

/-- The test for emptiness stays within words. -/
def isEmptyFits (r : Region) : Bool := r.settledFits (fun a => decide (r.width a ≤ 0)) directions

/-- The test for a single point stays within words. -/
def isUnitFits (r : Region) : Bool := r.settledFits (fun a => decide (r.width a ≠ 1)) directions

/-- The sums of the corners and the mean coordinates are words. -/
def centerFits (r : Region) : Bool :=
  directions.all fun a => fits (r.lo.get a + r.hi.get a) && fits (r.twiceCenter a)

/-- The sums of the corners are words. -/
def representativeFits (r : Region) : Bool := directions.all fun a => fits (r.lo.get a + r.hi.get a)

/-- The anchor is found without leaving the words. -/
def anchorFits (r : Region) : Bool := r.isUnitFits && (r.isUnit || r.representativeFits)

/-- Widths and inclusive upper bounds of the text are words. -/
def textFits (r : Region) : Bool :=
  directions.all fun a => r.widthFits a && (decide (r.width a = 1) || fits (r.hi.get a - 1))

/-- Both corners stay within words under a shift. -/
def shiftFits (r : Region) (offset : Point) : Bool :=
  directions.all fun a => fits (r.lo.get a + offset.get a) && fits (r.hi.get a + offset.get a)

/-- The widths of the chosen axes are words; the middle lies between the corners. -/
def bisectFits (r : Region) (mask : AxisMask) : Bool :=
  directions.all fun a => !mask.get a || r.widthFits a

/-- The upper corner of the unit box is made of words. -/
def unitFits (p : Point) : Bool := directions.all fun a => fits (p.get a + 1)

/-- The upper corner of a box with inclusive bounds is made of words. -/
def ofInclusiveFits (bounds : List (Int × Int)) : Bool :=
  (bounds.take maxAxes).all fun b => fits (b.2 + 1)

end Region
end ClusterDynamics
