import ClusterDynamics.Cluster

/-! What a run is configured with: a material, the bounds of phase space, how large clusters are
    grouped, and which mechanisms take part. -/

namespace ClusterDynamics

/-- The materials of the library. -/
inductive MaterialKind
  | tungsten
  | iron
  | xenon
deriving DecidableEq, Repr, Inhabited

/-- The written name of a material. -/
def MaterialKind.name : MaterialKind → String
  | .tungsten => "tungsten"
  | .iron => "iron"
  | .xenon => "xenon"

/-- How compositions are grouped: sizes from `start` on share clusters whose width is `width` at
    `start` and grows with the power `growth` of the size. -/
structure GroupingParams (α : Type) where
  start : UInt32
  width : UInt32
  growth : α
  /-- The width down to which a partly admissible region is refined. -/
  minWidth : UInt32
deriving Repr, DecidableEq, BEq

/-- The default grouping: bins from size ten on, four wide. -/
def GroupingParams.standard {α : Type} [Scalar α] : GroupingParams α := ⟨10, 4, 1, 1⟩

/-- What a network is built from. -/
structure NetworkParams (α : Type) where
  material : MaterialKind
  maxHelium : UInt32
  maxVacancy : UInt32
  maxInterstitial : UInt32
  maxXenon : UInt32
  /-- `none` tracks every composition by itself. -/
  grouping : Option (GroupingParams α)
  dissociation : Bool
  /-- Strength of the dislocation sink in nm^-2, for the materials that have one. -/
  sinkStrength : α
deriving Repr, DecidableEq, BEq

/-- The default parameters, which also stand for the fields that a file leaves out. -/
def NetworkParams.standard {α : Type} [Scalar α] : NetworkParams α :=
  ⟨.tungsten, 8, 20, 5, 0, none, true, 0⟩

end ClusterDynamics
