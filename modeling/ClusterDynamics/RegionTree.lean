import ClusterDynamics.Region.Range

/-! A spatial index over the regions of clusters. The tree keeps in every node a box around all regions
    below it, and a search leaves out each node whose box it cannot touch. `entries` is the view of a
    tree; `find?` and `query` answer questions about it. -/

namespace ClusterDynamics

/-- A region with the number of the cluster that owns it. -/
structure Entry where
  region : Region
  id : Nat
deriving DecidableEq, Repr, Inhabited

/-- A search tree over regions. -/
inductive RegionTree
  | empty
  | leaf (bounds : Region) (held : List Entry)
  | branch (bounds : Region) (left right : RegionTree)
deriving Repr, Inhabited

namespace RegionTree

/-- Why a list of entries has no tree. -/
inductive Fault
  /-- A number needed on the way is no machine word. -/
  | overflow
  /-- The region of the first cluster shares a point with the region of the second one. -/
  | overlap (id other : Nat) (region : Region)
deriving DecidableEq, Repr

/-! ### View and searches -/

/-- All entries below a node, from left to right. -/
def entries : RegionTree → List Entry
  | .empty => []
  | .leaf _ held => held
  | .branch _ left right => left.entries ++ right.entries

/-- The number of entries. -/
def size (t : RegionTree) : Nat := t.entries.length

/-- The tree holds no entry. -/
def isEmpty (t : RegionTree) : Bool := t.entries.isEmpty

/-- The first cluster from the left whose region holds a point. -/
def find? : RegionTree → Point → Option Nat
  | .empty, _ => none
  | .leaf bounds held, p =>
    if bounds.contains p then (held.find? (·.region.contains p)).map (·.id) else none
  | .branch bounds left right, p =>
    if bounds.contains p then
      match left.find? p with
      | some id => some id
      | none => right.find? p
    else none

/-- The clusters whose regions share a point with a box, from the left. -/
def query : RegionTree → Region → List Nat
  | .empty, _ => []
  | .leaf bounds held, box =>
    if bounds.intersects box then (held.filter (·.region.intersects box)).map (·.id) else []
  | .branch bounds left right, box =>
    if bounds.intersects box then left.query box ++ right.query box else []

/-! ### Building -/

/-- The most entries that one leaf holds. -/
def leafSize : Nat := 8

/-- The box around the regions of a list of entries. -/
def hull (e : Entry) (rest : List Entry) : Region := rest.foldl (fun b x => b.union x.region) e.region

/-- Twice the position of a region along an axis. -/
def position (r : Region) (a : Direction) : Int := r.lo.get a + r.hi.get a

/-- The least and the largest position of a list of entries along an axis. -/
def positionRange (e : Entry) (rest : List Entry) (a : Direction) : Int × Int :=
  rest.foldl (fun b x => (min b.1 (position x.region a), max b.2 (position x.region a)))
    (position e.region a, position e.region a)

/-- How far the positions lie apart along an axis. -/
def spread (e : Entry) (rest : List Entry) (a : Direction) : Int :=
  (positionRange e rest a).2 - (positionRange e rest a).1

/-- The axis with the widest spread, the last one of several. -/
def widestAxis (e : Entry) (rest : List Entry) : Direction :=
  directions.foldl (fun best a => if spread e rest best ≤ spread e rest a then a else best)
    Direction.first

/-- Order along an axis; entries at the same position are ordered by number. -/
def before (a : Direction) (x y : Entry) : Bool :=
  decide (position x.region a < position y.region a) ||
    (decide (position x.region a = position y.region a) && decide (x.id ≤ y.id))

/-- Splits a list of entries at the median of the widest axis until the parts fit into leaves. -/
def arrange : List Entry → RegionTree
  | [] => .empty
  | e :: rest =>
    if rest.length + 1 ≤ leafSize then .leaf (hull e rest) (e :: rest)
    else
      let sorted := (e :: rest).mergeSort (before (widestAxis e rest))
      let middle := (rest.length + 1) / 2
      .branch (hull e rest) (arrange (sorted.take middle)) (arrange (sorted.drop middle))
termination_by entries => entries.length
decreasing_by
  all_goals
    rename_i h
    simp only [leafSize] at h
    simp only [List.length_take, List.length_drop, List.length_mergeSort, List.length_cons]
    omega

/-- The positions that a split compares, and their spread, are words. -/
def positionsFit : List Entry → Bool
  | [] => true
  | e :: rest =>
    decide (rest.length + 1 ≤ leafSize) ||
      directions.all fun a =>
        ((e :: rest).all fun x => fits (position x.region a)) && fits (spread e rest a)

/-- The first entry that meets a region of another cluster, with the first such cluster. -/
def firstOverlap? (t : RegionTree) : Option (Entry × Nat) :=
  t.entries.findSome? fun e => ((t.query e.region).find? (· != e.id)).map fun other => (e, other)

/-- The tree over a list of entries, unless regions of two clusters overlap. -/
def build (list : List Entry) : Except Fault RegionTree :=
  if !positionsFit list then .error .overflow
  else
    let t := arrange list
    match t.firstOverlap? with
    | none => .ok t
    | some (e, other) =>
      if e.region.textFits then .error (.overlap e.id other e.region) else .error .overflow

end RegionTree
end ClusterDynamics
