import ClusterDynamics.Proofs.Lattice
import ClusterDynamics.RegionTree

/-! The spatial index answers exactly. Every node's box covers the regions below it, so leaving a node
    out loses nothing: a query lists the entries that meet the box, a search finds the first entry that
    holds the point. A tree is only built when no two of its entries share a point. -/

namespace ClusterDynamics

/-- Every point of `r` lies between the corners of `b`. -/
def Region.Within (r b : Region) : Prop :=
  ∀ a : Direction, b.lo.get a ≤ r.lo.get a ∧ r.hi.get a ≤ b.hi.get a

namespace Region
variable {r b c : Region}

theorem Within.refl (r : Region) : r.Within r := fun _ => ⟨le_refl _, le_refl _⟩

theorem Within.trans (h : r.Within b) (h' : b.Within c) : r.Within c := fun a =>
  ⟨(h' a).1.trans (h a).1, (h a).2.trans (h' a).2⟩

theorem within_union_left (r s : Region) : r.Within (r.union s) := fun a => by
  simp only [union, get_ofFn]
  omega

theorem within_union_right (r s : Region) : s.Within (r.union s) := fun a => by
  simp only [union, get_ofFn]
  omega

theorem Within.contains (h : r.Within b) {p : Point} (hp : r.contains p = true) :
    b.contains p = true :=
  contains_iff.mpr fun a => by
    have h1 := h a
    have h2 := contains_iff.mp hp a
    omega

theorem Within.intersects (h : r.Within b) {q : Region} (hq : r.intersects q = true) :
    b.intersects q = true :=
  intersects_iff.mpr fun a => by
    have h1 := h a
    have h2 := intersects_iff.mp hq a
    omega

end Region

namespace RegionTree

/-- Each node's box covers the regions of all entries below it. -/
def Bounded : RegionTree → Prop
  | .empty => True
  | .leaf bounds held => ∀ e ∈ held, e.region.Within bounds
  | .branch bounds left right =>
    (∀ e ∈ left.entries ++ right.entries, e.region.Within bounds) ∧ left.Bounded ∧ right.Bounded

/-! ### What arranging keeps -/

theorem within_foldl_union (rest : List Entry) :
    ∀ b : Region, b.Within (rest.foldl (fun b x => b.union x.region) b) ∧
      ∀ x ∈ rest, x.region.Within (rest.foldl (fun b x => b.union x.region) b) := by
  induction rest with
  | nil => exact fun b => ⟨.refl b, fun _ h => absurd h List.not_mem_nil⟩
  | cons y rest ih =>
    intro b
    obtain ⟨hb, hrest⟩ := ih (b.union y.region)
    refine ⟨(Region.within_union_left b y.region).trans hb, fun x hx => ?_⟩
    rcases List.mem_cons.mp hx with rfl | hx
    · exact (Region.within_union_right b x.region).trans hb
    · exact hrest x hx

theorem within_hull {e : Entry} {rest : List Entry} : ∀ x ∈ e :: rest, x.region.Within (hull e rest) := by
  intro x hx
  obtain ⟨he, hrest⟩ := within_foldl_union rest e.region
  rcases List.mem_cons.mp hx with rfl | hx
  · exact he
  · exact hrest x hx

/-- A way to bring the entries of a slice in order around its median along an axis. Of the order nothing is
    known but that the slice is permuted. -/
structure Selection where
  select : Direction → List Entry → List Entry
  perm : ∀ a slice, (select a slice).Perm slice

/-- The selection that sorts the whole slice. -/
def Selection.sorting : Selection where
  select a slice := slice.mergeSort (before a)
  perm _ _ := List.mergeSort_perm _ _

/-- Splits a list of entries in the middle of what the selection makes of it, until the parts fit into
    leaves. -/
def arrangeBy (s : Selection) : List Entry → RegionTree
  | [] => .empty
  | e :: rest =>
    if rest.length + 1 ≤ leafSize then .leaf (hull e rest) (e :: rest)
    else
      let order := s.select (widestAxis e rest) (e :: rest)
      let middle := (rest.length + 1) / 2
      .branch (hull e rest) (arrangeBy s (order.take middle)) (arrangeBy s (order.drop middle))
termination_by entries => entries.length
decreasing_by
  all_goals
    rename_i h
    have hlength := (s.perm (widestAxis e rest) (e :: rest)).length_eq
    simp only [leafSize] at h
    simp only [List.length_take, List.length_drop, hlength, List.length_cons]
    omega

theorem arrange_eq_arrangeBy (list : List Entry) : arrange list = arrangeBy .sorting list := by
  fun_induction arrange list with
  | case1 => rw [arrangeBy]
  | case2 e rest h => rw [arrangeBy, if_pos h]
  | case3 e rest h sorted middle ihl ihr => rw [arrangeBy, if_neg h, ihl, ihr]; rfl

/-- Arranging reorders the entries and neither loses nor adds any. -/
theorem entries_arrangeBy (s : Selection) (list : List Entry) : (arrangeBy s list).entries.Perm list := by
  fun_induction arrangeBy s list with
  | case1 => exact .nil
  | case2 e rest h => exact .refl _
  | case3 e rest h order middle ihl ihr =>
    have hsplit : (order.take middle ++ order.drop middle).Perm (e :: rest) := by
      rw [List.take_append_drop]
      exact s.perm _ _
    exact (ihl.append ihr).trans hsplit

theorem bounded_arrangeBy (s : Selection) (list : List Entry) : (arrangeBy s list).Bounded := by
  fun_induction arrangeBy s list with
  | case1 => trivial
  | case2 e rest h => exact within_hull
  | case3 e rest h order middle ihl ihr =>
    refine ⟨fun x hx => within_hull x ?_, ihl, ihr⟩
    have hsplit : x ∈ order.take middle ++ order.drop middle :=
      ((entries_arrangeBy s _).append (entries_arrangeBy s _)).mem_iff.mp hx
    rw [List.take_append_drop] at hsplit
    exact (s.perm _ _).mem_iff.mp hsplit

theorem entries_arrange (list : List Entry) : (arrange list).entries.Perm list := by
  rw [arrange_eq_arrangeBy]
  exact entries_arrangeBy _ list

theorem bounded_arrange (list : List Entry) : (arrange list).Bounded := by
  rw [arrange_eq_arrangeBy]
  exact bounded_arrangeBy _ list

/-! ### Searches -/

/-- A query lists the entries that meet the box, from the left. -/
theorem query_eq_filter (box : Region) : ∀ {t : RegionTree}, t.Bounded →
    t.query box = (t.entries.filter (·.region.intersects box)).map (·.id)
  | .empty, _ => rfl
  | .leaf bounds held, h => by
    rw [query, entries]
    split_ifs with hb
    · rfl
    · have hnone : held.filter (·.region.intersects box) = [] :=
        List.filter_eq_nil_iff.mpr fun e he hm => hb ((h e he).intersects hm)
      rw [hnone, List.map_nil]
  | .branch bounds left right, h => by
    rw [query, entries]
    split_ifs with hb
    · rw [query_eq_filter box h.2.1, query_eq_filter box h.2.2, List.filter_append, List.map_append]
    · have hnone : (left.entries ++ right.entries).filter (·.region.intersects box) = [] :=
        List.filter_eq_nil_iff.mpr fun e he hm => hb ((h.1 e he).intersects hm)
      rw [hnone, List.map_nil]

/-- A search finds the first entry from the left that holds the point. -/
theorem find?_eq_find? (p : Point) : ∀ {t : RegionTree}, t.Bounded →
    t.find? p = (t.entries.find? (·.region.contains p)).map (·.id)
  | .empty, _ => rfl
  | .leaf bounds held, h => by
    rw [find?, entries]
    split_ifs with hb
    · rfl
    · have hnone : held.find? (·.region.contains p) = none :=
        List.find?_eq_none.mpr fun e he hm => hb ((h e he).contains hm)
      rw [hnone, Option.map_none]
  | .branch bounds left right, h => by
    rw [find?, entries]
    split_ifs with hb
    · rw [find?_eq_find? p h.2.1, find?_eq_find? p h.2.2, List.find?_append]
      cases left.entries.find? (·.region.contains p) <;> rfl
    · have hnone : (left.entries ++ right.entries).find? (·.region.contains p) = none :=
        List.find?_eq_none.mpr fun e he hm => hb ((h.1 e he).contains hm)
      rw [hnone, Option.map_none]

/-- No entry meets a region with another number exactly when entries that share a point have one number. -/
theorem firstOverlap?_eq_none {t : RegionTree} (h : t.Bounded) : t.firstOverlap? = none ↔
    ∀ e ∈ t.entries, ∀ f ∈ t.entries, f.region.intersects e.region = true → f.id = e.id := by
  rw [firstOverlap?, List.findSome?_eq_none_iff]
  refine forall₂_congr fun e _ => ?_
  rw [Option.map_eq_none_iff, List.find?_eq_none, query_eq_filter e.region h, List.forall_mem_map]
  simp only [List.mem_filter, and_imp, bne_iff_ne, ne_eq, not_not]

theorem firstOverlap?_eq_some {t : RegionTree} {e : Entry} {other : Nat} (hb : t.Bounded)
    (h : t.firstOverlap? = some (e, other)) :
    e ∈ t.entries ∧ ∃ f ∈ t.entries, f.id = other ∧ f.id ≠ e.id ∧ f.region.intersects e.region = true := by
  obtain ⟨e', he, hfirst⟩ := List.exists_of_findSome?_eq_some h
  obtain ⟨id, hid, hpair⟩ := Option.map_eq_some_iff.mp hfirst
  cases hpair
  have hne := List.find?_some hid
  have hmem := List.mem_of_find?_eq_some hid
  rw [query_eq_filter _ hb] at hmem
  obtain ⟨f, hf, rfl⟩ := List.mem_map.mp hmem
  obtain ⟨hf, hmeet⟩ := List.mem_filter.mp hf
  exact ⟨he, f, hf, rfl, bne_iff_ne.mp hne, hmeet⟩

/-! ### Built trees -/

variable {list : List Entry} {t : RegionTree}

theorem build_eq_ok (h : build list = .ok t) : t = arrange list ∧ t.firstOverlap? = none := by
  unfold build at h
  split_ifs at h with hfit
  simp only at h
  split at h
  · cases h
    exact ⟨rfl, ‹_›⟩
  · split_ifs at h

theorem bounded_of_build (h : build list = .ok t) : t.Bounded :=
  (build_eq_ok h).1 ▸ bounded_arrange list

theorem entries_of_build (h : build list = .ok t) : t.entries.Perm list :=
  (build_eq_ok h).1 ▸ entries_arrange list

/-- Entries of a built tree that share a point have the same number. -/
theorem id_eq_of_build (h : build list = .ok t) {e f : Entry} (he : e ∈ list) (hf : f ∈ list)
    (hm : f.region.intersects e.region = true) : f.id = e.id := by
  have hperm := entries_of_build h
  exact (firstOverlap?_eq_none (bounded_of_build h)).mp (build_eq_ok h).2 e (hperm.mem_iff.mpr he) f
    (hperm.mem_iff.mpr hf) hm

/-- A query of a built tree lists the numbers of the entries that meet the box, in some order. -/
theorem query_perm (h : build list = .ok t) (box : Region) :
    (t.query box).Perm ((list.filter (·.region.intersects box)).map (·.id)) := by
  rw [query_eq_filter box (bounded_of_build h)]
  exact ((entries_of_build h).filter _).map _

end RegionTree
end ClusterDynamics
