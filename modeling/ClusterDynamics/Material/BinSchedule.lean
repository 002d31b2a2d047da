import ClusterDynamics.Params
import ClusterDynamics.Region.Range

/-! Bin widths. Large clusters are grouped along a material's primary axis, in bins that grow with the
    size; `refineMask` says along which axes a region is still too wide for its bin. -/

namespace ClusterDynamics

/-- The widths of the bins along the primary axis. -/
structure BinSchedule (α : Type) where
  start : Int
  width : α
  growth : α
  minWidth : Int
deriving Repr, DecidableEq

namespace BinSchedule

variable {α : Type} [Analytic α]

/-- The schedule that grouping parameters ask for. -/
def ofGrouping (g : GroupingParams α) : BinSchedule α :=
  ⟨g.start.toNat, Scalar.ofNat g.width.toNat, g.growth, g.minWidth.toNat⟩

/-- The widest bin for a region whose lower primary coordinate is `x`. -/
def allowedWidth (s : BinSchedule α) (x : Int) : Int :=
  if x < s.start then 1
  else
    max (Analytic.floor
      (s.width * Analytic.pow (Scalar.ofInt x / Scalar.ofInt s.start) s.growth)) 1

end BinSchedule

/-- Some axis is chosen. -/
def AxisMask.any (mask : AxisMask) : Bool := directions.any fun a => mask.get a

namespace Region

/-- The first `dim` axes along which a region is wider than a limit. -/
def widerThan (r : Region) (dim : Nat) (limit : Int) : AxisMask :=
  Vector.ofFn fun a => decide (a.val < dim) && decide (limit < r.width a)

/-- The axes along which a region has to be cut. Below the first bin, and without a schedule, these
    are all axes with more than one value. Otherwise they are the axes wider than the bin; a region
    that fits its bin but holds inadmissible points is cut down to the minimum width. -/
def refineMask {α : Type} [Analytic α] (r : Region) (dim : Nat) (primary : Direction)
    (schedule : Option (BinSchedule α)) (fullyAdmissible : Bool) : AxisMask :=
  match schedule with
  | none => r.widerThan dim 1
  | some s =>
    if r.lo.get primary < s.start then r.widerThan dim 1
    else
      let mask := r.widerThan dim (s.allowedWidth (r.lo.get primary))
      if AxisMask.any mask || fullyAdmissible then mask else r.widerThan dim s.minWidth

/-- The widths that a schedule looks at are machine words. -/
def refineMaskFits (r : Region) (dim : Nat) : Bool :=
  directions.all fun a => decide (dim ≤ a.val) || r.widthFits a

end Region
end ClusterDynamics
