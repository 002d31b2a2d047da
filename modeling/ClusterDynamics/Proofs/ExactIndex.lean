import ClusterDynamics.Proofs.SpatialIndex

/-! The index as it is run. A selection leaves the entries of a slice in an order of its own, and a search works
    off a stack of the nodes still to be seen. Neither shows in an answer: whatever the selection, a tree is
    built exactly when no two entries share a point, and the loops over the stack answer for every point and
    every box as a look at all entries would. -/

namespace ClusterDynamics
namespace RegionTree

/-! ### Searches over a stack -/

/-- How many nodes a tree has, its leaves counted. -/
def nodes : RegionTree → Nat
  | .empty => 1
  | .leaf _ _ => 1
  | .branch _ left right => left.nodes + right.nodes + 1

/-- The numbers of the entries of a leaf that meet a box. -/
def hits (box : Region) (held : List Entry) : List Nat := (held.filter (·.region.intersects box)).map (·.id)

/-- The query with the nodes still to be seen on a stack; what it finds goes behind `out`. -/
def queryLoop (box : Region) (stack : List RegionTree) (out : List Nat) : List Nat :=
  match stack with
  | [] => out
  | .empty :: stack => queryLoop box stack out
  | .leaf bounds held :: stack =>
    if bounds.intersects box then queryLoop box stack (out ++ hits box held) else queryLoop box stack out
  | .branch bounds left right :: stack =>
    if bounds.intersects box then queryLoop box (left :: right :: stack) out else queryLoop box stack out
termination_by (stack.map nodes).sum
decreasing_by
  all_goals
    simp only [List.map_cons, List.sum_cons, nodes]
    omega

/-- The search for a point with the nodes still to be seen on a stack; it ends at the first hit. -/
def findLoop (p : Point) (stack : List RegionTree) : Option Nat :=
  match stack with
  | [] => none
  | .empty :: stack => findLoop p stack
  | .leaf bounds held :: stack =>
    if bounds.contains p then
      match held.find? (·.region.contains p) with
      | some e => some e.id
      | none => findLoop p stack
    else findLoop p stack
  | .branch bounds left right :: stack =>
    if bounds.contains p then findLoop p (left :: right :: stack) else findLoop p stack
termination_by (stack.map nodes).sum
decreasing_by
  all_goals
    simp only [List.map_cons, List.sum_cons, nodes]
    omega

/-- The loop adds what the query of each tree on the stack lists. -/
theorem queryLoop_eq (box : Region) (stack : List RegionTree) (out : List Nat) :
    queryLoop box stack out = out ++ stack.flatMap (·.query box) := by
  fun_induction queryLoop box stack out with
  | case1 out => exact (List.append_nil out).symm
  | case2 out stack ih => exact ih
  | case3 out bounds held stack hb ih => rw [ih, List.flatMap_cons, query, if_pos hb, List.append_assoc, hits]
  | case4 out bounds held stack hb ih => rw [ih, List.flatMap_cons, query, if_neg hb, List.nil_append]
  | case5 out bounds left right stack hb ih =>
    rw [ih, List.flatMap_cons, List.flatMap_cons, List.flatMap_cons, query, if_pos hb, List.append_assoc]
  | case6 out bounds left right stack hb ih => rw [ih, List.flatMap_cons, query, if_neg hb, List.nil_append]

/-- The loop finds what the first tree on the stack finds that finds anything. -/
theorem findLoop_eq (p : Point) (stack : List RegionTree) : findLoop p stack = stack.findSome? (·.find? p) := by
  fun_induction findLoop p stack with
  | case1 => rfl
  | case2 stack ih => exact ih
  | case3 bounds held stack hb e he => rw [List.findSome?_cons, find?, if_pos hb, he]; rfl
  | case4 bounds held stack hb he ih => rw [ih, List.findSome?_cons, find?, if_pos hb, he]; rfl
  | case5 bounds held stack hb ih => rw [ih, List.findSome?_cons, find?, if_neg hb]
  | case6 bounds left right stack hb ih =>
    rw [ih, List.findSome?_cons, List.findSome?_cons, List.findSome?_cons, find?, if_pos hb]
    cases left.find? p <;> rfl
  | case7 bounds left right stack hb ih => rw [ih, List.findSome?_cons, find?, if_neg hb]

/-! ### Entries with numbers of their own -/

/-- No two entries of the list share a point. -/
def Scattered (list : List Entry) : Prop :=
  list.Pairwise fun e f => ¬∃ p, e.region.contains p = true ∧ f.region.contains p = true

section
variable {list : List Entry} {t : RegionTree}

theorem Scattered.eq_of_contains (h : Scattered list) {e f : Entry} (he : e ∈ list) (hf : f ∈ list)
    {p : Point} (hep : e.region.contains p = true) (hfp : f.region.contains p = true) : e = f := by
  have hsymm : Std.Symm fun e f : Entry => ¬∃ p, e.region.contains p = true ∧ f.region.contains p = true :=
    ⟨fun _ _ h ⟨p, hf, he⟩ => h ⟨p, he, hf⟩⟩
  by_contra hne
  exact h.forall he hf hne ⟨p, hep, hfp⟩

/-- With numbers that differ, entries that share a point only if they have one number share none. -/
theorem scattered_iff (hids : (list.map (·.id)).Nodup) : Scattered list ↔
    ∀ e ∈ list, ∀ f ∈ list, f.region.intersects e.region = true → f.id = e.id := by
  constructor
  · intro h e he f hf hmeet
    obtain ⟨p, hfp, hep⟩ := Region.intersects_iff_exists.mp hmeet
    rw [h.eq_of_contains he hf hep hfp]
  · intro h
    refine hids.of_map.pairwise_of_forall_ne fun e he f hf hne hmeet => hne ?_
    have hid := h f hf e he (Region.intersects_iff_exists.mpr hmeet)
    exact List.inj_on_of_nodup_map hids he hf hid

/-- The tree answers for the entries of the list: a search finds the entry that holds the point, and a query lists
    the entries that share a point with the box, each once. Run over a stack, the search finds the same and the
    query adds the same behind what `out` holds already. -/
structure Indexes (list : List Entry) (t : RegionTree) : Prop where
  find : ∀ p id, t.find? p = some id ↔ ∃ e ∈ list, e.id = id ∧ e.region.contains p = true
  find_none : ∀ p, t.find? p = none ↔ ∀ e ∈ list, e.region.contains p = false
  find_loop : ∀ p, findLoop p [t] = t.find? p
  nodup_query : ∀ box, (t.query box).Nodup
  mem_query : ∀ box id, id ∈ t.query box ↔
    ∃ e ∈ list, e.id = id ∧ ∃ p, e.region.contains p = true ∧ box.contains p = true
  query_loop : ∀ box out, queryLoop box [t] out = out ++ t.query box

theorem indexes_of_scattered (hb : t.Bounded) (hperm : t.entries.Perm list) (hids : (list.map (·.id)).Nodup)
    (h : Scattered list) : Indexes list t where
  find p id := by
    rw [find?_eq_find? p hb]
    constructor
    · intro hfound
      obtain ⟨e, he, rfl⟩ := Option.map_eq_some_iff.mp hfound
      have hep := List.find?_some he
      exact ⟨e, hperm.mem_iff.mp (List.mem_of_find?_eq_some he), rfl, hep⟩
    · rintro ⟨e, he, rfl, hep⟩
      obtain ⟨f, hf⟩ : ∃ f, t.entries.find? (·.region.contains p) = some f := by
        rw [← Option.isSome_iff_exists, List.find?_isSome]
        exact ⟨e, hperm.mem_iff.mpr he, hep⟩
      have hfp := List.find?_some hf
      rw [hf, h.eq_of_contains he (hperm.mem_iff.mp (List.mem_of_find?_eq_some hf)) hep hfp]
      rfl
  find_none p := by
    rw [find?_eq_find? p hb, Option.map_eq_none_iff, List.find?_eq_none]
    simp only [hperm.mem_iff, Bool.not_eq_true]
  find_loop p := by rw [findLoop_eq, List.findSome?_singleton]
  nodup_query box := by
    rw [query_eq_filter box hb]
    exact ((hperm.map _).nodup_iff.mpr hids).sublist (List.filter_sublist.map _)
  mem_query box id := by
    rw [query_eq_filter box hb, List.mem_map]
    simp only [List.mem_filter, hperm.mem_iff, Region.intersects_iff_exists]
    constructor
    · rintro ⟨e, ⟨he, hmeet⟩, hid⟩
      exact ⟨e, he, hid, hmeet⟩
    · rintro ⟨e, he, hid, hmeet⟩
      exact ⟨e, ⟨he, hmeet⟩, hid⟩
  query_loop box out := by rw [queryLoop_eq, List.flatMap_singleton]

/-! ### Building with any selection -/

/-- The tree over a list of entries that a selection leads to, unless regions of two clusters overlap. -/
def buildBy (s : Selection) (list : List Entry) : Except Fault RegionTree :=
  if !positionsFit list then .error .overflow
  else
    let t := arrangeBy s list
    match t.firstOverlap? with
    | none => .ok t
    | some (e, other) =>
      if e.region.textFits then .error (.overlap e.id other e.region) else .error .overflow

theorem build_eq_buildBy (list : List Entry) : build list = buildBy .sorting list := by
  rw [buildBy, ← arrange_eq_arrangeBy]
  rfl

/-- While the positions are words, building ends in a tree or names two entries that share a point. -/
theorem buildBy_cases (hfit : positionsFit list = true) (s : Selection) :
    ((arrangeBy s list).firstOverlap? = none ∧ buildBy s list = .ok (arrangeBy s list)) ∨
      ∃ e ∈ list, ∃ f ∈ list, f.id ≠ e.id ∧ f.region.intersects e.region = true ∧
        buildBy s list = if e.region.textFits then .error (.overlap e.id f.id e.region) else .error .overflow := by
  have hperm := entries_arrangeBy s list
  unfold buildBy
  simp only [hfit, Bool.not_true, Bool.false_eq_true, if_false]
  cases hover : (arrangeBy s list).firstOverlap? with
  | none => exact .inl ⟨rfl, rfl⟩
  | some pair =>
    obtain ⟨e, other⟩ := pair
    obtain ⟨he, f, hf, rfl, hne, hmeet⟩ := firstOverlap?_eq_some (bounded_arrangeBy s list) hover
    exact .inr ⟨e, hperm.mem_iff.mp he, f, hperm.mem_iff.mp hf, hne, hmeet, rfl⟩

end

/-- The spatial index is exact. While the positions of the entries are words and their numbers differ, building
    with any selection gives a tree exactly when no two entries share a point, and every tree it gives answers
    for the entries. Otherwise the error names two entries that share a point, as long as it can be written. -/
theorem build_exact {list : List Entry} (hids : (list.map (·.id)).Nodup) (hfit : positionsFit list = true) :
    build list = buildBy .sorting list ∧ ∀ s : Selection,
      ((∃ t, buildBy s list = .ok t) ↔ Scattered list) ∧
      (∀ t, buildBy s list = .ok t → Indexes list t) ∧
      ((∀ e ∈ list, e.region.textFits = true) → ∀ fault, buildBy s list = .error fault →
        ∃ e ∈ list, ∃ f ∈ list, e.id ≠ f.id ∧ (∃ p, e.region.contains p = true ∧ f.region.contains p = true) ∧
          fault = .overlap e.id f.id e.region) := by
  refine ⟨build_eq_buildBy list, fun s => ?_⟩
  have hperm := entries_arrangeBy s list
  have hb := bounded_arrangeBy s list
  have hnone : (arrangeBy s list).firstOverlap? = none ↔ Scattered list := by
    rw [firstOverlap?_eq_none hb, scattered_iff hids]
    simp only [hperm.mem_iff]
  obtain ⟨hover, hok⟩ | ⟨e, he, f, hf, hne, hmeet, herr⟩ := buildBy_cases hfit s
  · have hscattered := hnone.mp hover
    rw [hok]
    refine ⟨iff_of_true ⟨_, rfl⟩ hscattered, fun t ht => ?_, fun _ fault h => nomatch h⟩
    cases ht
    exact indexes_of_scattered hb hperm hids hscattered
  · have hnot : ¬∃ t, buildBy s list = .ok t := by
      rintro ⟨t, ht⟩
      rw [herr] at ht
      split_ifs at ht
    have hnotscattered : ¬Scattered list := fun h => hne ((scattered_iff hids).mp h e he f hf hmeet)
    refine ⟨iff_of_false hnot hnotscattered, fun t ht => absurd ⟨t, ht⟩ hnot, fun htext fault h => ?_⟩
    rw [herr, if_pos (htext e he)] at h
    cases h
    obtain ⟨p, hfp, hep⟩ := Region.intersects_iff_exists.mp hmeet
    exact ⟨e, he, f, hf, hne.symm, ⟨p, hep, hfp⟩, rfl⟩

/-- Nine points in a row and a box without points between them: more entries than a leaf holds. -/
def row : List Entry :=
  ⟨⟨#v[3, 0, 0, 0], #v[3, 1, 1, 1]⟩, 9⟩ ::
    (List.range 9).map fun (i : Nat) => ⟨Region.unit #v[(i : Int), 0, 0, 0], i⟩

/-- The row has a tree, which finds each point of it; with one of the points a second time it has none. -/
theorem build_exact_row :
    (∃ t, build row = .ok t ∧ t.find? #v[3, 0, 0, 0] = some 3 ∧ t.find? #v[9, 0, 0, 0] = none) ∧
      ∃ fault, build (⟨Region.unit #v[3, 0, 0, 0], 10⟩ :: row) = .error fault := by
  have hids : (row.map (·.id)).Nodup := by decide
  have hids' : ((⟨Region.unit #v[3, 0, 0, 0], 10⟩ :: row).map (·.id)).Nodup := by decide
  obtain ⟨hsorting, hall⟩ := build_exact hids (by decide)
  obtain ⟨hsorting', hall'⟩ := build_exact hids' (by decide)
  rw [hsorting, hsorting']
  obtain ⟨hiff, hindexes, -⟩ := hall .sorting
  obtain ⟨hiff', -, -⟩ := hall' .sorting
  constructor
  · obtain ⟨t, ht⟩ := hiff.mpr ((scattered_iff hids).mpr (by decide))
    have I := hindexes t ht
    exact ⟨t, ht, (I.find _ _).mpr (by decide), (I.find_none _).mpr (by decide)⟩
  · have hnot := mt hiff'.mp (mt (scattered_iff hids').mp (by decide))
    cases hrun : buildBy .sorting (⟨Region.unit #v[3, 0, 0, 0], 10⟩ :: row) with
    | ok t => exact absurd ⟨t, hrun⟩ hnot
    | error fault => exact ⟨fault, rfl⟩

end RegionTree
end ClusterDynamics
