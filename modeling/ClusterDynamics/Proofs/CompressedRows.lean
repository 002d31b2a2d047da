import ClusterDynamics.SparsityPattern
import Mathlib

/-! Compressed rows. A row keeps its columns in ascending order and once each, the rows follow one another
    without gaps, and the search finds a column exactly when the row has it. So the entries, read row by row,
    ascend, and the place that is found for an entry is its number in this list. -/

namespace ClusterDynamics
namespace SparsityPattern

/-! ### Columns in ascending order -/

theorem mem_dropRepeats {c : Nat} (l : List Nat) : c ∈ dropRepeats l ↔ c ∈ l := by
  fun_induction dropRepeats l with
  | case1 => rfl
  | case2 d => rfl
  | case3 d rest ih =>
    rw [ih, List.mem_cons (a := c) (b := d) (l := d :: rest)]
    exact ⟨.inr, fun h => h.elim (fun h => h ▸ List.mem_cons_self) id⟩
  | case4 d e rest h ih => rw [List.mem_cons, ih, List.mem_cons (l := e :: rest)]

theorem mem_normalize {c : Nat} {row : List Nat} : c ∈ normalize row ↔ c ∈ row := by
  rw [normalize, mem_dropRepeats, List.mem_mergeSort]

theorem pairwise_dropRepeats {l : List Nat} (h : l.Pairwise (· ≤ ·)) :
    (dropRepeats l).Pairwise (· < ·) := by
  fun_induction dropRepeats l with
  | case1 => exact .nil
  | case2 d => exact List.pairwise_singleton _ d
  | case3 d rest ih => exact ih (List.pairwise_cons.mp h).2
  | case4 d e rest hne ih =>
    obtain ⟨hd, hrest⟩ := List.pairwise_cons.mp h
    refine List.pairwise_cons.mpr ⟨fun x hx => ?_, ih hrest⟩
    have hde := hd e List.mem_cons_self
    rcases List.mem_cons.mp ((mem_dropRepeats _).mp hx) with rfl | hx
    · omega
    · have := (List.pairwise_cons.mp hrest).1 x hx
      omega

theorem pairwise_normalize (row : List Nat) : (normalize row).Pairwise (· < ·) := by
  refine pairwise_dropRepeats ?_
  have h : (row.mergeSort fun a b => decide (a ≤ b)).Pairwise fun a b => decide (a ≤ b) = true :=
    List.pairwise_mergeSort (by simp; omega) (by simp; omega) row
  simpa using h

theorem dropRepeats_eq_self {l : List Nat} (h : l.Pairwise (· < ·)) : dropRepeats l = l := by
  fun_induction dropRepeats l with
  | case1 => rfl
  | case2 c => rfl
  | case3 c rest ih => exact absurd ((List.pairwise_cons.mp h).1 c List.mem_cons_self) (Nat.lt_irrefl c)
  | case4 c d rest hne ih => rw [ih (List.pairwise_cons.mp h).2]

theorem normalize_normalize (row : List Nat) : normalize (normalize row) = normalize row := by
  have h := pairwise_normalize row
  rw [normalize, List.mergeSort_of_pairwise, dropRepeats_eq_self h]
  exact h.imp fun hlt => by simpa using hlt.le

/-! ### Search -/

theorem search_eq_some {columns : Array Nat} {c : Nat} : ∀ {fuel first last i : Nat},
    search columns c fuel first last = some i → first ≤ i ∧ i < last ∧ columns[i]? = some c
  | 0, _, _, _, h => nomatch h
  | fuel + 1, first, last, i, h => by
    rw [search] at h
    split_ifs at h with hlt
    dsimp only at h
    cases hmiddle : columns[(first + last) / 2]? with
    | none => simp [hmiddle] at h
    | some d =>
      simp only [hmiddle] at h
      split_ifs at h with heq hless
      · cases h
        exact ⟨by omega, by omega, heq ▸ hmiddle⟩
      · obtain ⟨h1, h2, h3⟩ := search_eq_some h
        exact ⟨by omega, h2, h3⟩
      · obtain ⟨h1, h2, h3⟩ := search_eq_some h
        exact ⟨h1, by omega, h3⟩

/-- Between two offsets the columns ascend. -/
def Ascending (columns : Array Nat) (first last : Nat) : Prop :=
  ∀ i j d e, first ≤ i → i < j → j < last → columns[i]? = some d → columns[j]? = some e → d < e

theorem search_of_getElem? {columns : Array Nat} {c i : Nat} (hi : columns[i]? = some c) :
    ∀ {fuel first last : Nat}, Ascending columns first last → last ≤ columns.size →
      last - first ≤ fuel → first ≤ i → i < last → search columns c fuel first last = some i
  | 0, first, last, _, _, hfuel, h1, h2 => absurd hfuel (by omega)
  | fuel + 1, first, last, hasc, hsize, hfuel, h1, h2 => by
    obtain ⟨d, hmiddle⟩ : ∃ d, columns[(first + last) / 2]? = some d :=
      ⟨_, Array.getElem?_eq_getElem (by omega)⟩
    have hlt : (first + last) / 2 < i → d < c := fun h => hasc _ _ _ _ (by omega) h h2 hmiddle hi
    have hgt : i < (first + last) / 2 → c < d := fun h => hasc _ _ _ _ h1 h (by omega) hi hmiddle
    have heq : (first + last) / 2 = i → d = c := fun h => by
      rw [h, hi] at hmiddle
      exact (Option.some.inj hmiddle).symm
    rw [search, if_pos (by omega)]
    dsimp only
    rw [hmiddle]
    dsimp only
    split_ifs with hfound hless
    · exact congrArg some (by omega)
    · exact search_of_getElem? hi
        (fun a b d e ha => hasc a b d e (by omega)) hsize (by omega) (by omega) h2
    · exact search_of_getElem? hi
        (fun a b d e ha hab hb => hasc a b d e ha hab (by omega)) (by omega) (by omega) h1 (by omega)

/-! ### Offsets -/

/-- The number of entries in the rows before `r`. -/
def offset (rows : List (List Nat)) (r : Nat) : Nat := ((rows.map List.length).take r).sum

theorem offset_succ {rows : List (List Nat)} {r : Nat} {row : List Nat} (h : rows[r]? = some row) :
    offset rows (r + 1) = offset rows r + row.length := by
  rw [offset, List.take_add_one, List.getElem?_map, h, List.sum_append]
  rfl

theorem offset_mono (rows : List (List Nat)) {r t : Nat} (h : r ≤ t) : offset rows r ≤ offset rows t := by
  obtain ⟨d, rfl⟩ := Nat.exists_eq_add_of_le h
  rw [offset, offset, List.take_add, List.sum_append]
  exact Nat.le_add_right _ _

theorem offset_le_size (rows : List (List Nat)) (r : Nat) : offset rows r ≤ rows.flatten.length := by
  have := offset_mono rows (Nat.le_max_left r (rows.map List.length).length)
  rw [List.length_flatten]
  refine this.trans (Nat.le_of_eq ?_)
  rw [offset, List.take_of_length_le (Nat.le_max_right _ _)]

theorem getElem?_offsetsFrom : ∀ (lengths : List Nat) (start r : Nat),
    (offsetsFrom start lengths)[r]? =
      if r ≤ lengths.length then some (start + (lengths.take r).sum) else none
  | [], start, 0 => by simp [offsetsFrom]
  | [], start, r + 1 => by simp [offsetsFrom]
  | n :: rest, start, 0 => by simp [offsetsFrom]
  | n :: rest, start, r + 1 => by
    rw [offsetsFrom, List.getElem?_cons_succ, getElem?_offsetsFrom rest]
    simp only [List.length_cons, Nat.add_le_add_iff_right, List.take_succ_cons, List.sum_cons,
      Nat.add_assoc]

theorem length_offsetsFrom : ∀ (start : Nat) (lengths : List Nat),
    (offsetsFrom start lengths).length = lengths.length + 1
  | _, [] => rfl
  | start, n :: rest => by simp [offsetsFrom, length_offsetsFrom (start + n) rest]

/-- The rows stand one behind the other. -/
theorem getElem?_flatten {β : Type} : ∀ {rows : List (List β)} {r : Nat} {row : List β},
    rows[r]? = some row → ∀ i < row.length,
      rows.flatten[((rows.map List.length).take r).sum + i]? = row[i]?
  | head :: rest, 0, row, h, i, hi => by
    rw [List.getElem?_cons_zero, Option.some.injEq] at h
    rw [List.take_zero, List.sum_nil, Nat.zero_add, List.flatten_cons, h, List.getElem?_append_left hi]
  | head :: rest, r + 1, row, h, i, hi => by
    rw [List.getElem?_cons_succ] at h
    have ih := getElem?_flatten h i hi
    rw [List.map_cons, List.take_succ_cons, List.sum_cons, List.flatten_cons,
      List.getElem?_append_right (by omega), ← ih]
    congr 1
    omega

theorem take_drop_flatten {rows : List (List Nat)} {r : Nat} {row : List Nat} (h : rows[r]? = some row) :
    (rows.flatten.drop (offset rows r)).take row.length = row := by
  refine List.ext_getElem? fun i => ?_
  rw [List.getElem?_take, List.getElem?_drop]
  split_ifs with hi
  · exact getElem?_flatten h i hi
  · exact (List.getElem?_eq_none (not_lt.mp hi)).symm

variable {rows : List (List Nat)}

/-- The offset of a row is the number of columns before it. -/
theorem getElem?_offsets (t : Nat) : (ofRows rows).offsets[t]? =
    if t ≤ rows.length then some (offset (rows.map normalize) t) else none := by
  simp [ofRows, getElem?_offsetsFrom, offset]

/-! ### Rows -/

theorem rowCount_ofRows : (ofRows rows).rowCount = rows.length := by
  simp [rowCount, ofRows, length_offsetsFrom]

/-- A row is read back in ascending order. -/
theorem row?_ofRows (r : Nat) : (ofRows rows).row? r = (rows.map normalize)[r]? := by
  cases hrow : (rows.map normalize)[r]? with
  | none =>
    have hlen : rows.length ≤ r := by simpa using hrow
    rw [row?, getElem?_offsets (r + 1), if_neg (by omega)]
    split <;> simp_all
  | some row =>
    have hlen : r < rows.length := by simpa using (List.getElem?_eq_some_iff.mp hrow).1
    rw [row?, getElem?_offsets r, getElem?_offsets (r + 1), if_pos hlen.le, if_pos (by omega),
      offset_succ hrow]
    simp [ofRows, List.extract, take_drop_flatten hrow]

theorem getElem?_map_normalize {r : Nat} {row : List Nat} (h : rows[r]? = some row) :
    (rows.map normalize)[r]? = some (normalize row) := by
  rw [List.getElem?_map, h, Option.map_some]

/-! ### Entries -/

theorem mem_entries {r s : Nat} :
    (r, s) ∈ (ofRows rows).entries ↔ ∃ row, rows[r]? = some row ∧ s ∈ row := by
  simp only [entries, rowCount_ofRows, row?_ofRows, List.mem_flatMap, List.mem_map, List.mem_range,
    Prod.mk.injEq, List.getElem?_map]
  constructor
  · rintro ⟨r, hr, s, hs, rfl, rfl⟩
    rw [List.getElem?_eq_getElem hr] at hs
    exact ⟨_, List.getElem?_eq_getElem hr, mem_normalize.mp hs⟩
  · rintro ⟨row, hrow, hs⟩
    refine ⟨r, (List.getElem?_eq_some_iff.mp hrow).1, s, ?_, rfl, rfl⟩
    simpa [hrow] using mem_normalize.mpr hs

/-- The entries ascend, by rows first and by columns in each row. -/
theorem pairwise_entries (rows : List (List Nat)) :
    (ofRows rows).entries.Pairwise (Prod.Lex (· < ·) (· < ·)) := by
  refine List.pairwise_flatMap.mpr ⟨fun r _ => List.pairwise_map.mpr ?_, ?_⟩
  · rw [row?_ofRows, List.getElem?_map]
    cases rows[r]? with
    | none => exact .nil
    | some row => exact (pairwise_normalize row).imp fun h => .right _ h
  · refine List.pairwise_lt_range.imp fun {r t} h x hx y hy => ?_
    obtain ⟨c, -, rfl⟩ := List.mem_map.mp hx
    obtain ⟨d, -, rfl⟩ := List.mem_map.mp hy
    exact .left _ _ h

theorem nodup_entries (rows : List (List Nat)) : (ofRows rows).entries.Nodup := by
  refine (pairwise_entries rows).imp fun {x y} h => ?_
  rintro rfl
  exact irrefl_of (Prod.Lex (· < ·) (· < ·)) x h

/-- Read row by row, the entries stand one behind the other as the columns do. -/
theorem entries_eq (rows : List (List Nat)) : (ofRows rows).entries =
    ((rows.map normalize).mapIdx fun r row => row.map fun c => (r, c)).flatten := by
  rw [entries, List.flatMap_def]
  refine congrArg List.flatten (List.ext_getElem? fun r => ?_)
  rw [List.getElem?_map, List.getElem?_mapIdx, rowCount_ofRows]
  by_cases hr : r < rows.length
  · rw [List.getElem?_range hr, Option.map_some, row?_ofRows,
      List.getElem?_eq_getElem (by rwa [List.length_map])]
    rfl
  · rw [List.getElem?_eq_none (by simpa using hr), List.getElem?_eq_none (by simpa using hr)]
    rfl

theorem map_length_rows (rows : List (List Nat)) :
    ((rows.map normalize).mapIdx fun r row => row.map fun c => (r, c)).map List.length =
      (rows.map normalize).map List.length := by
  refine List.ext_getElem? fun r => ?_
  simp only [List.getElem?_map, List.getElem?_mapIdx, Option.map_map, Function.comp_def, List.length_map]

theorem length_entries (rows : List (List Nat)) : (ofRows rows).entries.length = (ofRows rows).size := by
  rw [entries_eq, List.length_flatten, map_length_rows, ← List.length_flatten]
  rfl

/-- An entry stands as far behind the offset of its row as its column in the row. -/
theorem getElem?_entries {r : Nat} {row : List Nat} (h : (rows.map normalize)[r]? = some row) {i : Nat}
    (hi : i < row.length) : (ofRows rows).entries[offset (rows.map normalize) r + i]? =
      row[i]?.map fun c => (r, c) := by
  have hrow : ((rows.map normalize).mapIdx fun r row => row.map fun c => (r, c))[r]? =
      some (row.map fun c => (r, c)) := by rw [List.getElem?_mapIdx, h, Option.map_some]
  have hentry := getElem?_flatten hrow i (by rwa [List.length_map])
  rwa [map_length_rows, List.getElem?_map, ← entries_eq] at hentry

/-! ### Places -/

/-- Where the columns of a row are searched for. -/
theorem position?_ofRows {r : Nat} {row : List Nat} (h : (rows.map normalize)[r]? = some row)
    (c : Nat) : (ofRows rows).position? r c =
      search (rows.map normalize).flatten.toArray c row.length (offset (rows.map normalize) r)
        (offset (rows.map normalize) r + row.length) := by
  have hlt : r < rows.length := by simpa using (List.getElem?_eq_some_iff.mp h).1
  rw [position?, getElem?_offsets r, getElem?_offsets (r + 1), if_pos hlt.le, if_pos (by omega), offset_succ h]
  dsimp only
  rw [Nat.add_sub_cancel_left]
  rfl

theorem position?_eq_none {r : Nat} (h : rows.length ≤ r) (c : Nat) : (ofRows rows).position? r c = none := by
  rw [position?, getElem?_offsets (r + 1), if_neg (by omega)]
  cases (ofRows rows).offsets[r]? <;> rfl

/-- A column of a row is found where it stands. -/
theorem position?_of_getElem? {r : Nat} {row : List Nat} (h : (rows.map normalize)[r]? = some row) {c j : Nat}
    (hc : row[j]? = some c) : (ofRows rows).position? r c = some (offset (rows.map normalize) r + j) := by
  have hcolumn : ∀ i < row.length,
      (rows.map normalize).flatten.toArray[offset (rows.map normalize) r + i]? = row[i]? := fun i hi => by
    rw [List.getElem?_toArray]
    exact getElem?_flatten h i hi
  have hsorted : row.Pairwise (· < ·) := by
    rw [List.getElem?_map] at h
    obtain ⟨_, -, rfl⟩ := Option.map_eq_some_iff.mp h
    exact pairwise_normalize _
  have hlt := (List.getElem?_eq_some_iff.mp hc).1
  have hsize := offset_le_size (rows.map normalize) (r + 1)
  rw [offset_succ h] at hsize
  rw [position?_ofRows h]
  refine search_of_getElem? ((hcolumn j hlt).trans hc) ?_ (by simpa using hsize) (by omega) (by omega)
    (by omega)
  intro a b d e ha hab hb hd he
  obtain ⟨a, rfl⟩ := Nat.exists_eq_add_of_le ha
  obtain ⟨b, rfl⟩ := Nat.exists_eq_add_of_le (ha.trans hab.le)
  rw [hcolumn a (by omega)] at hd
  rw [hcolumn b (by omega)] at he
  obtain ⟨ha', rfl⟩ := List.getElem?_eq_some_iff.mp hd
  obtain ⟨hb', rfl⟩ := List.getElem?_eq_some_iff.mp he
  exact List.pairwise_iff_getElem.mp hsorted a b ha' hb' (by omega)

/-- What is found is the number of the entry in the list of all entries. -/
theorem position?_eq_some_iff {r c i : Nat} :
    (ofRows rows).position? r c = some i ↔ (ofRows rows).entries[i]? = some (r, c) := by
  have hfound : ∀ {i}, (ofRows rows).position? r c = some i → (ofRows rows).entries[i]? = some (r, c) := by
    intro i h
    cases hrow : (rows.map normalize)[r]? with
    | none =>
      rw [position?_eq_none (by simpa using hrow)] at h
      cases h
    | some row =>
      rw [position?_ofRows hrow] at h
      obtain ⟨h1, h2, h3⟩ := search_eq_some h
      obtain ⟨j, rfl⟩ := Nat.exists_eq_add_of_le h1
      have hj : j < row.length := by omega
      have hcolumn : (rows.map normalize).flatten[offset (rows.map normalize) r + j]? = row[j]? :=
        getElem?_flatten hrow j hj
      rw [List.getElem?_toArray, hcolumn] at h3
      rw [getElem?_entries hrow hj, h3, Option.map_some]
  refine ⟨hfound, fun h => ?_⟩
  obtain ⟨row, hrow, hc⟩ := mem_entries.mp (List.mem_of_getElem? h)
  obtain ⟨j, hj⟩ := List.mem_iff_getElem?.mp (mem_normalize.mpr hc)
  have hposition := position?_of_getElem? (getElem?_map_normalize hrow) hj
  -- Only one entry of the list is this one.
  have hsame := (List.getElem?_inj (List.getElem?_eq_some_iff.mp h).1 (nodup_entries rows)).mp
    (h.trans (hfound hposition).symm)
  rw [hposition, hsame]

/-- A pattern finds the columns that a row was given, and no others. -/
theorem position?_isSome {r c : Nat} :
    ((ofRows rows).position? r c).isSome = true ↔ ∃ row, rows[r]? = some row ∧ c ∈ row := by
  rw [Option.isSome_iff_exists, ← mem_entries, List.mem_iff_getElem?]
  simp only [position?_eq_some_iff]

/-- Entries at one place are the same entry. -/
theorem position?_injective {r t c d i : Nat} (h : (ofRows rows).position? r c = some i)
    (h' : (ofRows rows).position? t d = some i) : r = t ∧ c = d := by
  rw [position?_eq_some_iff] at h h'
  exact Prod.mk.inj (Option.some.inj (h.symm.trans h'))

theorem position?_lt {r c i : Nat} (h : (ofRows rows).position? r c = some i) :
    i < (ofRows rows).size := by
  rw [← length_entries]
  exact (List.getElem?_eq_some_iff.mp (position?_eq_some_iff.mp h)).1

/-! ### Representation -/

/-- The pattern represents the rows: it keeps the columns of each, and addresses the entries by their number. -/
structure Represents (p : SparsityPattern) (rows : List (List Nat)) : Prop where
  rowCount : p.rowCount = rows.length
  /-- A row has the columns that it was given, in ascending order and once each. -/
  row : ∀ r row, rows[r]? = some row →
    ∃ columns, p.row? r = some columns ∧ columns.Pairwise (· < ·) ∧ ∀ c, c ∈ columns ↔ c ∈ row
  size : p.size = ((List.range p.rowCount).map fun r => ((p.row? r).getD []).length).sum
  length : p.entries.length = p.size
  /-- The entries ascend, by rows first. -/
  ascending : p.entries.Pairwise (Prod.Lex (· < ·) (· < ·))
  mem_iff : ∀ r c, (r, c) ∈ p.entries ↔ ∃ row, rows[r]? = some row ∧ c ∈ row
  /-- The place of an entry is its number. -/
  position : ∀ r c i, p.position? r c = some i ↔ p.entries[i]? = some (r, c)
  absent : ∀ r c, p.position? r c = none ↔ (r, c) ∉ p.entries
  beyond : ∀ r c, p.rowCount ≤ r → p.position? r c = none

/-- Every list of rows is represented by its pattern. -/
theorem represents_ofRows (rows : List (List Nat)) : (ofRows rows).Represents rows where
  rowCount := rowCount_ofRows
  row r row h := ⟨normalize row, by rw [row?_ofRows, getElem?_map_normalize h], pairwise_normalize row,
    fun _ => mem_normalize⟩
  size := by
    rw [← length_entries, entries, List.length_flatMap]
    simp only [List.length_map]
  length := length_entries rows
  ascending := pairwise_entries rows
  mem_iff _ _ := mem_entries
  position _ _ _ := position?_eq_some_iff
  absent r c := by
    rw [mem_entries, ← position?_isSome, ← Option.not_isSome_iff_eq_none]
  beyond r c hr := position?_eq_none (rowCount_ofRows ▸ hr) c

/-- A repeated column, an empty row, and places behind the last row. -/
example :
    let p := ofRows [[3, 1, 3], [], [2]]
    p.entries = [(0, 1), (0, 3), (2, 2)] ∧ p.position? 2 2 = some 2 ∧ p.position? 1 0 = none ∧
      p.position? 3 0 = none := by cbv

end SparsityPattern
end ClusterDynamics
