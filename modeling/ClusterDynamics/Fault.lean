import ClusterDynamics.Params
import ClusterDynamics.PhaseSpace
import ClusterDynamics.RegionTree

/-! Everything that can go wrong, as causes. The wording is in one function per kind of cause. A cause
    that names a composition or a region can only be reported when the numbers in the name are
    machine words; the functions `placementFault`, `ownershipFault` and `recordFault` see to that. -/

namespace ClusterDynamics

/-- A configuration that no network can be built from. -/
inductive ConfigFault (α : Type)
  | sinkStrength (k : α)
  | zeroWidth
  | zeroMinWidth
  | earlyStart (n : UInt32)
  | growth (g : α)
  | axes (fault : AxisFault)
  /-- Helium clusters of this size are not tabulated. -/
  | heliumTable (n : UInt32)
  | noXenon
  /-- A record of a snapshot came back under another number or as another kind. -/
  | recordMoved (id : Nat) (composition : Composition) (cluster : Nat) (kind : ClusterKind)
deriving Repr, DecidableEq

/-- A composition that cannot stand where it is put. -/
inductive PlacementFault
  | untracked (c : Composition)
  | foldedPair (c : Composition)
  | emptyRegion (r : Region) (c : Composition)
  | misplaced (c : Composition) (r : Region)
deriving Repr, DecidableEq

/-- Two clusters that would own the same composition. -/
inductive OwnershipFault
  | composition (c : Composition) (r : Region)
  | overlap (id other : Nat) (r : Region)
deriving Repr, DecidableEq

/-- A list whose length has to match. -/
inductive Quantity
  | concentrations
  | rateConstants
  | fluxOutput
  | jacobianValues
  | state
  | recordBounds
  | restoredDegrees
deriving Repr, DecidableEq

/-- Why a request to the library does not go through. -/
inductive NetworkFault (α : Type)
  /-- A number needed on the way leaves its machine word. -/
  | overflow
  | config (cause : ConfigFault α)
  | placement (cause : PlacementFault)
  | ownership (cause : OwnershipFault)
  /-- The named material admits no cluster. -/
  | noClusters (material : String)
  | dimension (what : Quantity) (expected actual : Nat)
  | temperature (t : α)
  /-- An index at or beyond the end of the numbers that it is to name one of. -/
  | outOfRange (index length : Nat)
  /-- A text is not the written form of the value it should hold. -/
  | malformed
  /-- A file cannot be read. -/
  | unreadable
deriving Repr, DecidableEq

/-- A call that did not go through: the cause, and what it leaves of what it was to write. -/
structure Failure (α σ : Type) where
  fault : NetworkFault α
  left : σ
deriving Repr

/-- A result, or a fault that leaves `s` behind. -/
def Failure.leaving {α β σ : Type} (s : σ) (r : Except (NetworkFault α) β) : Except (Failure α σ) β :=
  r.mapError fun fault => ⟨fault, s⟩

/-! ### Wording -/

namespace AxisFault

/-- The text that reports bad axes. -/
def message : AxisFault → String
  | .count n => "phase space needs 1..=" ++ toString maxAxes ++ " axes, got " ++ toString n
  | .shared s => "species " ++ s.symbol ++ " appears on more than one axis"

end AxisFault

namespace ConfigFault

/-- The largest helium cluster of the tungsten table. -/
def tabulatedHelium : Nat := 8

/-- The text that reports a bad configuration. -/
def message {α : Type} [ScalarText α] : ConfigFault α → String
  | .sinkStrength k => "sink strength must be finite and non-negative, got " ++ ScalarText.plain k
  | .zeroWidth => "grouping width must be positive"
  | .zeroMinWidth => "grouping minimum width must be positive"
  | .earlyStart n => "grouping must start at size 2 or above, got " ++ toString n.toNat
  | .growth g => "grouping growth must be finite and non-negative, got " ++ ScalarText.plain g
  | .axes fault => fault.message
  | .heliumTable n =>
    "tungsten tabulates helium clusters up to He_" ++ toString tabulatedHelium
      ++ ", got max_helium = " ++ toString n.toNat
  | .noXenon => "xenon network needs max_xenon >= 1"
  | .recordMoved id c cluster kind =>
    "snapshot record " ++ toString id ++ " (" ++ c.text ++ ") restored as cluster "
      ++ toString cluster ++ " (" ++ kind.text ++ ")"

end ConfigFault

namespace PlacementFault

/-- The numbers in the wording are machine words. -/
def nameable : PlacementFault → Bool
  | .untracked c => c.totalFits
  | .foldedPair c => c.totalFits
  | .emptyRegion r c => r.textFits && c.totalFits
  | .misplaced c r => r.textFits && c.totalFits

/-- The text that reports a misplaced composition. -/
def message : PlacementFault → String
  | .untracked c => c.text ++ " is not tracked in this phase space"
  | .foldedPair c => c.text ++ " mixes both species of a folded axis"
  | .emptyRegion r c => "empty region " ++ r.text ++ " for " ++ c.text
  | .misplaced c r => c.text ++ " does not sit at " ++ r.text

/-- The cause for which a phase space refuses a composition. -/
def ofTracking (c : Composition) : TrackingFault → PlacementFault
  | .untracked => .untracked c
  | .foldedPair => .foldedPair c

end PlacementFault

namespace OwnershipFault

/-- The numbers in the wording are machine words. -/
def nameable : OwnershipFault → Bool
  | .composition c r => r.textFits && c.totalFits
  | .overlap _ _ r => r.textFits

/-- The text that reports a composition with two owners. -/
def message : OwnershipFault → String
  | .composition c r => "Duplicate cluster " ++ c.text ++ " (region " ++ r.text ++ ") not added"
  | .overlap id other r =>
    "Duplicate cluster cluster " ++ toString id ++ " overlaps cluster " ++ toString other
      ++ " (region " ++ r.text ++ ") not added"

end OwnershipFault

/-- The name of a quantity in messages. -/
def Quantity.text : Quantity → String
  | .concentrations => "concentrations"
  | .rateConstants => "rate constants"
  | .fluxOutput => "flux output"
  | .jacobianValues => "Jacobian values"
  | .state => "state"
  | .recordBounds => "cluster record bounds"
  | .restoredDegrees => "restored degrees of freedom"

namespace NetworkFault

variable {α : Type}

/-- The text of a cause. -/
def message [ScalarText α] : NetworkFault α → String
  | .overflow => "a number leaves its machine word"
  | .config cause => "Configuration error: " ++ cause.message
  | .placement cause => "Invalid composition: " ++ cause.message
  | .ownership cause => cause.message
  | .noClusters material => "Material " ++ material ++ " admits no clusters"
  | .dimension what expected actual =>
    "Dimension mismatch for " ++ what.text ++ ": expected " ++ toString expected ++ ", got "
      ++ toString actual
  | .temperature t => "Invalid temperature: " ++ ScalarText.plain t ++ " K"
  | .outOfRange index length =>
    "index out of bounds: the len is " ++ toString length ++ " but the index is " ++ toString index
  | .malformed => "malformed text"
  | .unreadable => "unreadable file"

/-! ### Raising causes that carry names -/

/-- A misplaced composition, if it can be named; else the overflow of its name. -/
def placementFault (cause : PlacementFault) : NetworkFault α :=
  if cause.nameable then .placement cause else .overflow

/-- A composition with two owners, if it can be named; else the overflow of its name. -/
def ownershipFault (cause : OwnershipFault) : NetworkFault α :=
  if cause.nameable then .ownership cause else .overflow

/-- A record that came back elsewhere, if its composition can be named; else the overflow of its name. -/
def recordFault (id : Nat) (c : Composition) (cluster : Nat) (kind : ClusterKind) : NetworkFault α :=
  if c.totalFits then .config (.recordMoved id c cluster kind) else .overflow

/-- The cause behind a failed search tree. -/
def ofTree : RegionTree.Fault → NetworkFault α
  | .overflow => .overflow
  | .overlap id other r => .ownership (.overlap id other r)

/-- Goes on only if the numbers of the next step are machine words. -/
def require (ok : Bool) : Except (NetworkFault α) Unit := if ok then .ok () else .error .overflow

end NetworkFault

/-- The point of a composition, or the reason why the phase space refuses it. -/
def PhaseSpace.locatePoint {α : Type} (space : PhaseSpace) (c : Composition) :
    Except (NetworkFault α) Point :=
  match space.toPoint c with
  | .ok p => .ok p
  | .error fault => .error (.placementFault (.ofTracking c fault))

/-! ### Validation -/

/-- Rejects parameters that make no physical sense, before anything is built. -/
def NetworkParams.validate {α : Type} [Scalar α] (p : NetworkParams α) :
    Except (ConfigFault α) Unit := do
  if !Scalar.isFinite p.sinkStrength || decide (p.sinkStrength < 0) then
    throw (.sinkStrength p.sinkStrength)
  match p.grouping with
  | none => pure ()
  | some g =>
    if g.width = 0 then throw .zeroWidth
    if g.minWidth = 0 then throw .zeroMinWidth
    if g.start < 2 then throw (.earlyStart g.start)
    if !Scalar.isFinite g.growth || decide (g.growth < 0) then throw (.growth g.growth)

end ClusterDynamics
