import ClusterDynamics.Material
import ClusterDynamics.Material.BinSchedule

/-! The phase space that the body-centred cubic metals share: helium along the first axis, vacancies
    along the second one, folded against interstitials. Admissible are the pure clusters up to their
    maxima and the bubbles whose helium does not exceed `slope * n + intercept` for `n` vacancies.
    `countAdmissible` counts them column by column, without visiting the points. -/

namespace ClusterDynamics

/-- Maxima of the pure clusters and the helium limit of bubbles. -/
structure DefectSpace where
  maxHelium : Int
  maxVacancy : Int
  maxInterstitial : Int
  slope : Int
  intercept : Int
deriving DecidableEq, Repr

namespace DefectSpace

/-- The axis that counts helium. -/
def heliumAxis : Direction := Direction.first

/-- The axis of vacancies and interstitials, along which clusters are grouped. -/
def defectAxis : Direction := Direction.second

/-- Helium on a plain axis, vacancies folded against interstitials on the other one. -/
def space : PhaseSpace := ⟨[Axis.plain .helium, Axis.folded .vacancy .interstitial]⟩

/-- The defects that parameters allow, with the line that bounds the helium in a bubble. -/
def ofParams {α : Type} (p : NetworkParams α) (slope intercept : Int) : DefectSpace :=
  ⟨p.maxHelium.toNat, p.maxVacancy.toNat, p.maxInterstitial.toNat, slope, intercept⟩

/-- The most helium in a cluster with `n` vacancies. -/
def heliumCap (d : DefectSpace) (n : Int) : Int :=
  if d.maxHelium = 0 then 0 else if n = 0 then d.maxHelium else d.slope * n + d.intercept

/-- The smallest box with every admissible point. -/
def bounds (d : DefectSpace) : Region :=
  Region.ofInclusive
    [(0, max (d.heliumCap d.maxVacancy) d.maxHelium), (-d.maxInterstitial, d.maxVacancy)]

/-- A point of the box that is a pure helium cluster, an interstitial cluster or a bubble within its cap. -/
def isAdmissible (d : DefectSpace) (p : Point) : Bool :=
  let h := p.get heliumAxis
  let x := p.get defectAxis
  if p.get Direction.third ≠ 0 || p.get Direction.fourth ≠ 0 || h < 0 then false
  else if x = 0 then decide (1 ≤ h) && decide (h ≤ d.maxHelium)
  else if x < 0 then decide (h = 0) && decide (-x ≤ d.maxInterstitial)
  else decide (x ≤ d.maxVacancy) && decide (h ≤ d.heliumCap x)

/-! ### Counting -/

/-- The region leaves the plane of the two axes. -/
def offPlane (r : Region) : Bool :=
  [Direction.third, Direction.fourth].any fun a =>
    decide (0 < r.lo.get a) || decide (r.hi.get a ≤ 0)

/-- The least and the largest admissible amount of helium at a defect coordinate. -/
def column (d : DefectSpace) (x : Int) : Int × Int :=
  if x = 0 then (1, d.maxHelium) else if x < 0 then (0, 0) else (0, d.heliumCap x)

/-- The number of admissible points of a region at a defect coordinate. -/
def columnCount (d : DefectSpace) (r : Region) (x : Int) : Int :=
  let lo := max (d.column x).1 (max (r.lo.get heliumAxis) 0)
  let hi := min (d.column x).2 (r.hi.get heliumAxis - 1)
  if lo ≤ hi then hi - lo + 1 else 0

/-- The defect coordinates of a region that can carry admissible points. -/
def columns (d : DefectSpace) (r : Region) : List Int :=
  let lo := max (r.lo.get defectAxis) (-d.maxInterstitial)
  let hi := min (r.hi.get defectAxis) (d.maxVacancy + 1)
  (List.range (hi - lo).toNat).map fun (i : Nat) => lo + (i : Int)

/-- The number of admissible points of a region. -/
def countAdmissible (d : DefectSpace) (r : Region) : Int :=
  if r.isEmpty || offPlane r then 0
  else (d.columns r).foldl (fun n x => n + d.columnCount r x) 0

/-- Some point of a region is admissible. -/
def intersects (d : DefectSpace) (r : Region) : Bool := decide (0 < d.countAdmissible r)

/-- Every point of a region is admissible. -/
def selects (d : DefectSpace) (r : Region) : Bool := decide (d.countAdmissible r = r.volume)

/-! ### Range -/

/-- The helium limit is a machine word. -/
def heliumCapFits (d : DefectSpace) (n : Int) : Bool :=
  decide (d.maxHelium = 0) || decide (n = 0) ||
    (fits (d.slope * n) && fits (d.slope * n + d.intercept))

/-- The numbers on the way to the bounds stay within their words. -/
def boundsFit (d : DefectSpace) : Bool :=
  d.heliumCapFits d.maxVacancy &&
    Region.ofInclusiveFits
      [(0, max (d.heliumCap d.maxVacancy) d.maxHelium), (-d.maxInterstitial, d.maxVacancy)]

/-- The test of a point stays within machine words. -/
def isAdmissibleFits (d : DefectSpace) (p : Point) : Bool :=
  let h := p.get heliumAxis
  let x := p.get defectAxis
  if p.get Direction.third ≠ 0 || p.get Direction.fourth ≠ 0 || h < 0 || x = 0 then true
  else if x < 0 then decide (h ≠ 0) || fits (-x)
  else decide (d.maxVacancy < x) || d.heliumCapFits x

/-- The count of a region stays within machine words. Its partial sums only grow, so the last one
    decides. -/
def countFits (d : DefectSpace) (r : Region) : Bool :=
  r.isEmptyFits &&
    (r.isEmpty || offPlane r ||
      (((d.columns r).all fun x => decide (x ≤ 0) || d.heliumCapFits x) &&
        fits (d.countAdmissible r)))

/-- The partition rule of a metal, grouped along the defect axis. -/
def rule {α : Type} [Analytic α] (d : DefectSpace) (schedule : Option (BinSchedule α)) :
    PartitionRule where
  bounds := d.bounds
  intersects := d.intersects
  selects := d.selects
  refine r := r.refineMask 2 defectAxis schedule (d.selects r)
  countFits := d.countFits

end DefectSpace

/-! ### Sizes in a body-centred cubic lattice -/

namespace RateLaw

variable {α : Type} [Analytic α]

/-- The reaction radius of a cluster of `n` vacancies or interstitials. -/
def loopRadius (n lattice : α) : α :=
  let cell := Analytic.cube lattice
  Analytic.sqrt 3.0 / 4.0 * lattice + Analytic.cbrt (3.0 * cell * n / (8.0 * Analytic.pi))
    - Analytic.cbrt (3.0 * cell / (8.0 * Analytic.pi))

/-- The reaction radius of a bubble of `n` helium atoms. -/
def heliumRadius (n lattice : α) : α :=
  let cell := Analytic.cube lattice
  0.3 + Analytic.cbrt (3.0 * cell * n / (8.0 * Analytic.pi))
    - Analytic.cbrt (3.0 * cell / (8.0 * Analytic.pi))

/-- The radius of a defect cluster: by its vacancies, else by its interstitials, else by its helium. -/
def clusterRadius (lattice : α) (c : Composition) : α :=
  if 0 < c.vacancy then loopRadius (Scalar.ofNat c.vacancy.toNat) lattice
  else if 0 < c.interstitial then loopRadius (Scalar.ofNat c.interstitial.toNat) lattice
  else heliumRadius (Scalar.ofNat c.helium.toNat) lattice

/-- The surface law `n ^ (2/3)` of formation energies. -/
def surface (n : α) : α := Analytic.pow n (2.0 / 3.0)

/-- Helium, vacancies and interstitials leave one at a time. -/
def defectMonomers : List Composition :=
  [.single .helium 1, .single .vacancy 1, .single .interstitial 1]

end RateLaw
end ClusterDynamics
