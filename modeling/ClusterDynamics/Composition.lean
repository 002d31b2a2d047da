import ClusterDynamics.Species

/-! Compositions: how many defects of each species a cluster holds. Counts are 32-bit words; their
    total may need more room, so it is a natural number together with the check `totalFits`. -/

namespace ClusterDynamics

/-- One count per species. -/
structure Composition where
  helium : UInt32 := 0
  xenon : UInt32 := 0
  vacancy : UInt32 := 0
  interstitial : UInt32 := 0
deriving DecidableEq, Repr, Inhabited, Hashable

namespace Composition

/-- The cluster without any defect. -/
def empty : Composition := {}

/-- How many members of a species there are. -/
def get (c : Composition) : Species → UInt32
  | .helium => c.helium
  | .xenon => c.xenon
  | .vacancy => c.vacancy
  | .interstitial => c.interstitial

/-- The composition with the count of one species replaced. -/
def set (c : Composition) (s : Species) (n : UInt32) : Composition :=
  match s with
  | .helium => { c with helium := n }
  | .xenon => { c with xenon := n }
  | .vacancy => { c with vacancy := n }
  | .interstitial => { c with interstitial := n }

/-- A pure cluster of `n` defects of one species. -/
def single (s : Species) (n : UInt32) : Composition := empty.set s n

/-- The counts in canonical species order. -/
def counts (c : Composition) : List UInt32 := Species.all.map c.get

/-- The number of defects of all species together. -/
def total (c : Composition) : Nat :=
  c.helium.toNat + c.xenon.toNat + c.vacancy.toNat + c.interstitial.toNat

/-- The total is a count itself, that is, a 32-bit word below `2 ^ 32`. -/
def totalFits (c : Composition) : Bool := decide (c.total < 4294967296)

/-- Nothing is in the composition. -/
def isEmpty (c : Composition) : Bool := c.total == 0

/-- A single defect. -/
def isMonomer (c : Composition) : Bool := c.total == 1

/-- The species present with their counts, in canonical order. -/
def entries (c : Composition) : List (Species × UInt32) :=
  (Species.all.map fun s => (s, c.get s)).filter fun e => 0 < e.2

/-- More than one species is present. -/
def isMixed (c : Composition) : Bool := 1 < c.entries.length

/-- Symbol and count of each species present, such as `He_2V_3`; the empty cluster is `0`. -/
def text (c : Composition) : String :=
  if c.isEmpty then "0"
  else String.join (c.entries.map fun e => e.1.symbol ++ "_" ++ toString e.2.toNat)

/-- Compositions are ordered by their counts, helium first. -/
def le (c d : Composition) : Bool :=
  if c.helium ≠ d.helium then decide (c.helium < d.helium)
  else if c.xenon ≠ d.xenon then decide (c.xenon < d.xenon)
  else if c.vacancy ≠ d.vacancy then decide (c.vacancy < d.vacancy)
  else decide (c.interstitial ≤ d.interstitial)

/-- A list of compositions in ascending order. -/
def sorted (cs : List Composition) : List Composition := cs.mergeSort le

@[simp] theorem get_set_self (c : Composition) (s : Species) (n : UInt32) : (c.set s n).get s = n := by
  cases s <;> rfl

theorem get_set_of_ne (c : Composition) {s t : Species} (h : s ≠ t) (n : UInt32) :
    (c.set s n).get t = c.get t := by
  cases s <;> cases t <;> simp_all [set, get]

theorem ext_get {c d : Composition} (h : ∀ s, c.get s = d.get s) : c = d := by
  cases c
  cases d
  have hh := h .helium
  have hx := h .xenon
  have hv := h .vacancy
  have hi := h .interstitial
  simp only [get] at hh hx hv hi
  simp [hh, hx, hv, hi]

end Composition
end ClusterDynamics
