/-! The non-zero structure of the Jacobian in compressed rows: the columns of all rows one after the
    other, with the offset at which each row begins. Values are stored in the same order, and
    `position?` finds the place of an entry. -/

namespace ClusterDynamics

/-- Compressed rows of strictly increasing columns. -/
structure SparsityPattern where
  offsets : Array Nat
  columns : Array Nat
deriving DecidableEq, Repr

namespace SparsityPattern

/-- The pattern without rows. -/
def empty : SparsityPattern := ⟨#[], #[]⟩

/-- Drops each number that equals the one before it. -/
def dropRepeats : List Nat → List Nat
  | [] => []
  | [c] => [c]
  | c :: d :: rest => if c = d then dropRepeats (d :: rest) else c :: dropRepeats (d :: rest)

/-- A row in ascending order, each column once. -/
def normalize (row : List Nat) : List Nat := dropRepeats (row.mergeSort (· ≤ ·))

/-- The offsets at which lists of the given lengths begin, and the end of the last one. -/
def offsetsFrom (start : Nat) : List Nat → List Nat
  | [] => [start]
  | n :: rest => start :: offsetsFrom (start + n) rest

/-- The pattern of a list of rows, whose columns may repeat and come in any order. -/
def ofRows (rows : List (List Nat)) : SparsityPattern :=
  let rows := rows.map normalize
  ⟨(offsetsFrom 0 (rows.map List.length)).toArray, rows.flatten.toArray⟩

/-- The number of rows. -/
def rowCount (p : SparsityPattern) : Nat := p.offsets.size - 1

/-- The number of stored positions. -/
def size (p : SparsityPattern) : Nat := p.columns.size

/-- The columns of a row; `none` behind the last row. -/
def row? (p : SparsityPattern) (r : Nat) : Option (List Nat) :=
  match p.offsets[r]?, p.offsets[r + 1]? with
  | some first, some last => some (p.columns.extract first last).toList
  | _, _ => none

/-- The place of a column among the ascending columns between two offsets. The search halves the range
    that can hold the column, and `fuel` bounds the number of halvings. -/
def search (columns : Array Nat) (c : Nat) : Nat → Nat → Nat → Option Nat
  | 0, _, _ => none
  | fuel + 1, first, last =>
    if first < last then
      let middle := (first + last) / 2
      match columns[middle]? with
      | none => none
      | some d =>
        if d = c then some middle
        else if d < c then search columns c fuel (middle + 1) last
        else search columns c fuel first middle
    else none

/-- The place of an entry in an array of values. -/
def position? (p : SparsityPattern) (r c : Nat) : Option Nat :=
  match p.offsets[r]?, p.offsets[r + 1]? with
  | some first, some last => search p.columns c (last - first) first last
  | _, _ => none

/-- All entries as pairs of row and column, in the order of storage. -/
def entries (p : SparsityPattern) : List (Nat × Nat) :=
  (List.range p.rowCount).flatMap fun r => ((p.row? r).getD []).map fun c => (r, c)

end SparsityPattern
end ClusterDynamics
