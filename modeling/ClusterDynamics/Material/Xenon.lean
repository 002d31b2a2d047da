import ClusterDynamics.Material.DefectSpace

/-! Fission-gas xenon in uranium dioxide: a single axis, grouped along itself. Only single atoms
    move. -/

namespace ClusterDynamics
namespace Xenon

variable {α : Type}

/-- Lattice constant in nm, which only the construction log shows. -/
def lattice [Scalar α] : α := 0.547

/-- A quarter of the cubic cell. -/
def atomicVolume [Scalar α] : α := 0.0409

/-- Gas clusters are counted along one axis. -/
def space : PhaseSpace := ⟨[Axis.plain .xenon]⟩

/-- The region leaves the xenon axis. -/
def offAxis (r : Region) : Bool :=
  [Direction.second, Direction.third, Direction.fourth].any fun a =>
    decide (0 < r.lo.get a) || decide (r.hi.get a ≤ 0)

/-- The number of points of a region that hold between one and `maxXenon` atoms. -/
def countAdmissible (maxXenon : Int) (r : Region) : Int :=
  if r.isEmpty || offAxis r then 0
  else max (min (r.hi.get Direction.first) (maxXenon + 1) - max (r.lo.get Direction.first) 1) 0

/-- The partition rule of the xenon axis. -/
def rule [Analytic α] (maxXenon : Int) (schedule : Option (BinSchedule α)) : PartitionRule where
  bounds := Region.ofInclusive [(1, maxXenon)]
  intersects r := decide (0 < countAdmissible maxXenon r)
  selects r := decide (countAdmissible maxXenon r = r.volume)
  refine r := r.refineMask 1 Direction.first schedule (decide (countAdmissible maxXenon r = r.volume))
  countFits := Region.isEmptyFits

/-- A gas cluster pays for its surface. -/
def formationEnergy [Analytic α] (c : Composition) : α :=
  7.0 * RateLaw.surface (Scalar.ofNat c.xenon.toNat)

/-- Xenon gas under given parameters. -/
def material [Analytic α] (p : NetworkParams α) : Material α where
  name := "xenon"
  space := space
  rule := rule p.maxXenon.toNat (p.grouping.map .ofGrouping)
  formationEnergy := formationEnergy
  migrationEnergy c := if c.xenon = 1 then some 3.04 else none
  diffusionFactor c := if c.xenon = 1 then 7.6e8 else 0
  reactionRadius c := RateLaw.sphereRadius (Scalar.ofNat c.xenon.toNat) atomicVolume
  coreRadius := 0
  atomicVolume := atomicVolume
  monomers := [.single .xenon 1]
  canEmit parent monomer := monomer.xenon == 1 && decide (2 ≤ parent.xenon)
  sinkStrength _ := 0
  dissociation := p.dissociation
  motionFits _ := true
  emissionFits _ := true

end Xenon
end ClusterDynamics
