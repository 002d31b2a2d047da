import ClusterDynamics.Proofs.Construction

/-! Where the species of a composition sit. In a phase space as `ofAxes` accepts it, a species lies on at
    most one axis, with one sign. A composition has a point exactly when its species lie on axes of their
    own (`Separates`), and the point then holds each of their counts with its sign, and zero on all other
    axes (`Places`). The run over the species is summed up once, in `foldlM_place`. -/

namespace ClusterDynamics

/-! ### One axis -/

namespace Axis
variable {x : Axis} {s t : Species} {sign n : Int}

theorem sign?_cases (h : x.sign? s = some sign) :
    sign = 1 ∧ x.positive = s ∨ sign = -1 ∧ x.negative = some s := by
  unfold sign? at h
  split_ifs at h with hp hn
  · cases h
    exact .inl ⟨rfl, hp⟩
  · cases h
    exact .inr ⟨rfl, hn⟩

/-- An axis counts one species with each sign. -/
theorem eq_of_sign? (hs : x.sign? s = some sign) (ht : x.sign? t = some sign) : s = t := by
  rcases sign?_cases hs with ⟨rfl, hp⟩ | ⟨rfl, hn⟩
  · rcases sign?_cases ht with ⟨-, hp'⟩ | ⟨hsign, -⟩
    · exact hp.symm.trans hp'
    · cases hsign
  · rcases sign?_cases ht with ⟨hsign, -⟩ | ⟨-, hn'⟩
    · cases hsign
    · exact Option.some.inj (hn.symm.trans hn')

theorem mem_species : s ∈ x.species ↔ ∃ sign, x.sign? s = some sign := by
  unfold species sign?
  rw [List.mem_cons, Option.mem_toList]
  split_ifs with hp hn
  · exact iff_of_true (.inl hp.symm) ⟨1, rfl⟩
  · exact iff_of_true (.inr hn) ⟨-1, rfl⟩
  · refine iff_of_false ?_ fun ⟨_, h⟩ => nomatch h
    rintro (h | h)
    · exact hp h.symm
    · exact hn h

/-- A coordinate counts the species whose sign it has. -/
theorem counted?_eq_some_iff (hs : x.sign? s = some sign) (hx : x.species.Nodup) :
    x.counted? n = some s ↔ 0 < sign * n := by
  have hne : x.positive ∉ x.negative.toList := (List.nodup_cons.mp hx).1
  unfold counted?
  rcases sign?_cases hs with ⟨rfl, rfl⟩ | ⟨rfl, hneg⟩
  · split_ifs with hpos hlt
    · exact iff_of_true rfl (by omega)
    · refine iff_of_false (fun h => hne (Option.mem_toList.mpr h)) (by omega)
    · exact iff_of_false (fun h => nomatch h) (by omega)
  · split_ifs with hpos hlt
    · refine iff_of_false (fun h => hne ?_) (by omega)
      rw [Option.some.inj h]
      exact Option.mem_toList.mpr hneg
    · exact iff_of_true hneg (by omega)
    · exact iff_of_false (fun h => nomatch h) (by omega)

theorem sign?_of_counted? (h : x.counted? n = some s) : ∃ sign, x.sign? s = some sign := by
  rw [← mem_species]
  unfold counted? at h
  split_ifs at h
  · cases h
    exact List.mem_cons_self
  · exact List.mem_cons_of_mem _ (Option.mem_toList.mpr h)

end Axis

/-! ### Places of species -/

namespace PhaseSpace
variable {space : PhaseSpace} {s t : Species} {x : Axis} {sign : Int} {c d : Composition} {p : Point}

/-- What `ofAxes` asks for: one to four axes, and no species on two of them or twice on one. -/
structure Valid (space : PhaseSpace) : Prop where
  nonempty : space.axes ≠ []
  dim_le : space.dim ≤ maxAxes
  nodup : (space.axes.flatMap Axis.species).Nodup

theorem firstRepeated_eq_none : ∀ {l seen : List Species},
    firstRepeated seen l = none ↔ l.Nodup ∧ ∀ s ∈ l, s ∉ seen
  | [], seen => by simp [firstRepeated]
  | s :: rest, seen => by
    rw [firstRepeated]
    split_ifs with h
    · exact iff_of_false (fun h' => nomatch h') fun h' => h'.2 s List.mem_cons_self h
    · rw [firstRepeated_eq_none, List.nodup_cons, List.forall_mem_cons]
      constructor
      · rintro ⟨hnodup, hnew⟩
        exact ⟨⟨fun hs => hnew s hs List.mem_cons_self, hnodup⟩, h,
          fun t ht hseen => hnew t ht (List.mem_cons_of_mem s hseen)⟩
      · rintro ⟨⟨hs, hnodup⟩, -, hnew⟩
        refine ⟨hnodup, fun t ht hseen => ?_⟩
        rcases List.mem_cons.mp hseen with rfl | hseen
        · exact hs ht
        · exact hnew t ht hseen

theorem ofAxes_eq_ok_iff {axes : List Axis} : ofAxes axes = .ok space ↔ space.axes = axes ∧ space.Valid := by
  unfold ofAxes
  split_ifs with hcount
  · refine iff_of_false (fun h => nomatch h) ?_
    rintro ⟨rfl, hvalid⟩
    rcases Bool.or_eq_true_iff.mp hcount with h | h
    · exact hvalid.nonempty (List.isEmpty_iff.mp h)
    · exact absurd hvalid.dim_le (Nat.not_le.mpr (of_decide_eq_true h))
  · rw [Bool.or_eq_true, not_or, List.isEmpty_iff, decide_eq_true_iff, Nat.not_lt] at hcount
    cases hrep : firstRepeated [] (axes.flatMap Axis.species) with
    | some s =>
      refine iff_of_false (fun h => nomatch h) ?_
      rintro ⟨rfl, hvalid⟩
      rw [firstRepeated_eq_none.mpr ⟨hvalid.nodup, fun _ _ => List.not_mem_nil⟩] at hrep
      cases hrep
    | none =>
      constructor
      · intro h
        cases h
        exact ⟨rfl, hcount.1, hcount.2, (firstRepeated_eq_none.mp hrep).1⟩
      · rintro ⟨rfl, -⟩
        rfl

theorem locateFrom_eq_none : ∀ {l : List Axis} {i : Nat},
    locateFrom s i l = none ↔ ∀ x ∈ l, s ∉ x.species
  | [], i => by simp [locateFrom]
  | x :: rest, i => by
    rw [locateFrom, List.forall_mem_cons, Axis.mem_species]
    cases hx : x.sign? s with
    | some sign => exact iff_of_false (fun h => nomatch h) fun h => h.1 ⟨sign, rfl⟩
    | none =>
      have hno : ¬∃ sign, (none : Option Int) = some sign := fun ⟨_, h⟩ => nomatch h
      rw [and_iff_right hno]
      exact locateFrom_eq_none

theorem exists_of_locateFrom {a : Nat} : ∀ {l : List Axis} {i : Nat}, locateFrom s i l = some (a, sign) →
    ∃ k x, a = i + k ∧ l[k]? = some x ∧ x.sign? s = some sign
  | [], i, h => by simp [locateFrom] at h
  | x :: rest, i, h => by
    rw [locateFrom] at h
    cases hx : x.sign? s with
    | some sign' =>
      rw [hx] at h
      cases h
      exact ⟨0, x, rfl, rfl, hx⟩
    | none =>
      rw [hx] at h
      obtain ⟨k, y, rfl, hy, hs⟩ := exists_of_locateFrom h
      exact ⟨k + 1, y, by omega, hy, hs⟩

theorem locateFrom_of_getElem? : ∀ {l : List Axis} {i k : Nat}, (l.flatMap Axis.species).Nodup →
    l[k]? = some x → x.sign? s = some sign → locateFrom s i l = some (i + k, sign)
  | [], i, k, _, hx, _ => by cases hx
  | y :: rest, i, 0, _, hx, hs => by
    cases hx
    rw [locateFrom, hs]
    rfl
  | y :: rest, i, k + 1, hnodup, hx, hs => by
    rw [List.flatMap_cons, List.nodup_append] at hnodup
    obtain ⟨-, hrest, hapart⟩ := hnodup
    have hmem : s ∈ rest.flatMap Axis.species :=
      List.mem_flatMap.mpr ⟨x, List.mem_of_getElem? hx, Axis.mem_species.mpr ⟨sign, hs⟩⟩
    have hy : y.sign? s = none := by
      rw [Option.eq_none_iff_forall_ne_some]
      intro sign' h
      exact hapart s (Axis.mem_species.mpr ⟨sign', h⟩) s hmem rfl
    have hstep : i + (k + 1) = i + 1 + k := by omega
    rw [locateFrom, hy, hstep]
    exact locateFrom_of_getElem? hrest hx hs

/-- A species sits where some axis carries it. -/
theorem locate_eq_some_iff (hspace : space.Valid) {a : Nat} :
    space.locate s = some (a, sign) ↔ ∃ x, space.axes[a]? = some x ∧ x.sign? s = some sign := by
  constructor
  · intro h
    obtain ⟨k, x, rfl, hx, hs⟩ := exists_of_locateFrom h
    rw [Nat.zero_add]
    exact ⟨x, hx, hs⟩
  · rintro ⟨x, hx, hs⟩
    rw [locate, locateFrom_of_getElem? hspace.nodup hx hs, Nat.zero_add]

theorem locate_eq_none : space.locate s = none ↔ ∀ x ∈ space.axes, s ∉ x.species := locateFrom_eq_none

theorem sign_of_locate (hspace : space.Valid) {a : Nat} (h : space.locate s = some (a, sign)) :
    sign = 1 ∨ sign = -1 := by
  obtain ⟨x, -, hs⟩ := (locate_eq_some_iff hspace).mp h
  rcases Axis.sign?_cases hs with ⟨rfl, -⟩ | ⟨rfl, -⟩
  · exact .inl rfl
  · exact .inr rfl

/-- One coordinate counts one species: two on its axis have different signs. -/
theorem eq_of_locate (hspace : space.Valid) {a : Nat} {sign' n : Int} (hs : space.locate s = some (a, sign))
    (ht : space.locate t = some (a, sign')) (hn : 0 < sign * n) (hn' : 0 < sign' * n) : s = t := by
  have hsign : sign = sign' := by
    rcases sign_of_locate hspace hs with rfl | rfl <;> rcases sign_of_locate hspace ht with rfl | rfl <;> omega
  obtain ⟨x, hx, hs⟩ := (locate_eq_some_iff hspace).mp hs
  obtain ⟨y, hy, ht⟩ := (locate_eq_some_iff hspace).mp ht
  rw [hx] at hy
  cases hy
  exact Axis.eq_of_sign? hs (hsign ▸ ht)

theorem exists_direction (hspace : space.Valid) {a : Nat} (h : space.locate s = some (a, sign)) :
    ∃ b : Direction, b.val = a := by
  obtain ⟨x, hx, -⟩ := (locate_eq_some_iff hspace).mp h
  have hlt : a < space.dim := (List.getElem?_eq_some_iff.mp hx).1
  exact ⟨⟨a, hlt.trans_le hspace.dim_le⟩, rfl⟩

/-! ### From compositions to points -/

/-- Every species present lies on an axis, and no axis carries two of them. -/
structure Separates (space : PhaseSpace) (c : Composition) : Prop where
  tracked : ∀ s, 0 < c.get s → ∃ x ∈ space.axes, s ∈ x.species
  apart : ∀ x ∈ space.axes, ∀ s ∈ x.species, ∀ t ∈ x.species, 0 < c.get s → 0 < c.get t → s = t

/-- The point holds the count of each species present, with its sign, and zero on the axes of no such
    species. -/
structure Places (space : PhaseSpace) (c : Composition) (p : Point) : Prop where
  placed : ∀ s, 0 < c.get s → ∃ (a : Direction) (sign : Int), space.locate s = some (a.val, sign) ∧
    p.get a = sign * (c.get s).toNat
  blank : ∀ a : Direction, (∀ s sign, space.locate s = some (a.val, sign) → c.get s = 0) → p.get a = 0

theorem mem_entries {e : Species × UInt32} : e ∈ c.entries ↔ e.2 = c.get e.1 ∧ 0 < e.2 := by
  obtain ⟨s, n⟩ := e
  rw [Composition.entries, List.mem_filter, List.mem_map, decide_eq_true_iff]
  refine and_congr_left fun _ => ⟨?_, fun h => ⟨s, s.mem_all, congrArg (Prod.mk s) h.symm⟩⟩
  rintro ⟨t, -, h⟩
  cases h
  rfl

theorem pairwise_entries (c : Composition) : c.entries.Pairwise fun e f => e.1 ≠ f.1 := by
  refine List.Pairwise.filter _ (List.pairwise_map.mpr ?_)
  show Species.all.Pairwise fun s t => s ≠ t
  decide

theorem place_eq_ok {q r : Placement} {e : Species × UInt32} (h : space.place q e = .ok r) :
    ∃ i sign, space.locate e.1 = some (i, sign) ∧ i ∉ q.taken ∧
      r = ⟨q.point.setIfInBounds i (sign * (e.2.toNat : Int)), i :: q.taken⟩ := by
  unfold place at h
  split at h
  · cases h
  · rename_i i sign hlocate
    split_ifs at h with htaken
    cases h
    exact ⟨i, sign, hlocate, htaken, rfl⟩

theorem get_setIfInBounds (p : Point) (i : Nat) (v : Int) (a : Direction) :
    (p.setIfInBounds i v).get a = if i = a.val then v else p.get a := by
  rw [Vector.get_eq_getElem, Vector.getElem_setIfInBounds, Vector.get_eq_getElem]

/-- A run puts every entry on an axis that was free, and leaves the axes of no entry alone. -/
theorem foldlM_place : ∀ {l : List (Species × UInt32)} {q r : Placement}, l.foldlM space.place q = .ok r →
    (∀ e ∈ l, ∃ i sign, space.locate e.1 = some (i, sign) ∧ i ∉ q.taken ∧
      ∀ a : Direction, a.val = i → r.point.get a = sign * e.2.toNat) ∧
    ∀ a : Direction, (∀ e ∈ l, ∀ sign, space.locate e.1 ≠ some (a.val, sign)) → r.point.get a = q.point.get a
  | [], q, r, h => by
    cases h
    refine ⟨fun e he => ?_, fun _ _ => rfl⟩
    cases he
  | e :: rest, q, r, h => by
    rw [List.foldlM_cons] at h
    obtain ⟨next, hnext, h⟩ := bind_eq_ok.mp h
    obtain ⟨i, sign, hlocate, hfree, rfl⟩ := place_eq_ok hnext
    obtain ⟨hplaced, hframe⟩ := foldlM_place h
    constructor
    · rintro f hf
      rcases List.mem_cons.mp hf with rfl | hf
      · refine ⟨i, sign, hlocate, hfree, fun a ha => ?_⟩
        -- No later entry comes to the axis: it is taken by now.
        rw [hframe a fun g hg sign' hg' => ?_, get_setIfInBounds, if_pos ha.symm]
        obtain ⟨j, _, hj, hjfree, -⟩ := hplaced g hg
        rw [hg', ha] at hj
        cases hj
        exact hjfree List.mem_cons_self
      · obtain ⟨j, sign', hj, hjfree, hvalue⟩ := hplaced f hf
        exact ⟨j, sign', hj, fun hmem => hjfree (List.mem_cons_of_mem i hmem), hvalue⟩
    · intro a ha
      have hi : i ≠ a.val := by
        rintro rfl
        exact ha e List.mem_cons_self sign hlocate
      rw [hframe a fun g hg => ha g (List.mem_cons_of_mem e hg), get_setIfInBounds, if_neg hi]

/-- Entries with free axes of their own can all be placed. -/
theorem exists_foldlM_place : ∀ {l : List (Species × UInt32)} {q : Placement},
    (∀ e ∈ l, ∃ i sign, space.locate e.1 = some (i, sign) ∧ i ∉ q.taken) →
    (l.Pairwise fun e f => ∀ i sign sign', space.locate e.1 = some (i, sign) →
      space.locate f.1 ≠ some (i, sign')) → ∃ r, l.foldlM space.place q = .ok r
  | [], q, _, _ => ⟨q, rfl⟩
  | e :: rest, q, hfree, hapart => by
    obtain ⟨hhead, hapart⟩ := List.pairwise_cons.mp hapart
    obtain ⟨i, sign, hlocate, hi⟩ := hfree e List.mem_cons_self
    have hplace : space.place q e =
        .ok ⟨q.point.setIfInBounds i (sign * (e.2.toNat : Int)), i :: q.taken⟩ := by
      rw [place, hlocate]
      exact if_neg hi
    rw [List.foldlM_cons, hplace]
    refine exists_foldlM_place (fun f hf => ?_) hapart
    obtain ⟨j, sign', hj, hjfree⟩ := hfree f (List.mem_cons_of_mem e hf)
    refine ⟨j, sign', hj, fun hmem => ?_⟩
    rcases List.mem_cons.mp hmem with rfl | hmem
    · exact hhead f hf j sign sign' hlocate hj
    · exact hjfree hmem

theorem toPoint_eq_ok : space.toPoint c = .ok p ↔
    ∃ r, c.entries.foldlM space.place ⟨Point.origin, []⟩ = .ok r ∧ r.point = p := by
  unfold toPoint
  cases c.entries.foldlM space.place ⟨Point.origin, []⟩ with
  | error fault => exact iff_of_false (fun h => nomatch h) fun ⟨_, h, _⟩ => nomatch h
  | ok r =>
    constructor
    · intro h
      cases h
      exact ⟨r, rfl, rfl⟩
    · rintro ⟨_, h, rfl⟩
      cases h
      rfl

/-- What holds of the origin, and of a point after each entry that has been put on its axis, holds of the point of
    a composition. -/
theorem toPoint_induction {P : Point → Prop} (horigin : P Point.origin)
    (hstep : ∀ (q : Point) (e : Species × UInt32) (i : Nat) (sign : Int), space.locate e.1 = some (i, sign) → P q →
      P (q.setIfInBounds i (sign * (e.2.toNat : Int)))) (h : space.toPoint c = .ok p) : P p := by
  have hrun : ∀ {l : List (Species × UInt32)} {q r : Placement}, l.foldlM space.place q = .ok r →
      P q.point → P r.point := by
    intro l
    induction l with
    | nil =>
      rintro q r ⟨⟩ hq
      exact hq
    | cons e rest ih =>
      intro q r h hq
      rw [List.foldlM_cons] at h
      obtain ⟨next, hnext, h⟩ := bind_eq_ok.mp h
      obtain ⟨i, sign, hlocate, -, rfl⟩ := place_eq_ok hnext
      exact ih h (hstep q.point e i sign hlocate hq)
  obtain ⟨r, hr, rfl⟩ := toPoint_eq_ok.mp h
  exact hrun hr horigin

theorem places_of_toPoint (hspace : space.Valid) (h : space.toPoint c = .ok p) : space.Places c p := by
  obtain ⟨r, hrun, rfl⟩ := toPoint_eq_ok.mp h
  obtain ⟨hplaced, hframe⟩ := foldlM_place hrun
  refine ⟨fun s hs => ?_, fun a ha => ?_⟩
  · obtain ⟨i, sign, hlocate, -, hvalue⟩ := hplaced (s, c.get s) (mem_entries.mpr ⟨rfl, hs⟩)
    obtain ⟨a, rfl⟩ := exists_direction hspace hlocate
    exact ⟨a, sign, hlocate, hvalue a rfl⟩
  · rw [hframe a fun e he sign hlocate => ?_, Point.get_origin]
    obtain ⟨hcount, hpos⟩ := mem_entries.mp he
    rw [hcount, ha e.1 sign hlocate] at hpos
    exact absurd hpos (by decide)

namespace Places
variable {a : Direction}

theorem coordinate (h : space.Places c p) (hs : 0 < c.get s) (hlocate : space.locate s = some (a.val, sign)) :
    p.get a = sign * (c.get s).toNat := by
  obtain ⟨b, sign', hb, hvalue⟩ := h.placed s hs
  rw [hlocate] at hb
  obtain ⟨hab, rfl⟩ := Prod.mk.inj (Option.some.inj hb)
  rw [Fin.ext hab]
  exact hvalue

theorem sign_mul_pos (hspace : space.Valid) (h : space.Places c p) (hs : 0 < c.get s)
    (hlocate : space.locate s = some (a.val, sign)) : 0 < sign * p.get a := by
  have hvalue := h.coordinate hs hlocate
  have hcount : 0 < (c.get s).toNat := UInt32.lt_iff_toNat_lt.mp hs
  rcases sign_of_locate hspace hlocate with rfl | rfl <;> omega

theorem exists_of_ne_zero (h : space.Places c p) (ha : p.get a ≠ 0) :
    ∃ s sign, space.locate s = some (a.val, sign) ∧ 0 < c.get s := by
  by_contra hnone
  push Not at hnone
  refine ha (h.blank a fun s sign hlocate => ?_)
  by_contra hs
  exact hnone s sign hlocate (UInt32.pos_iff_ne_zero.mpr hs)

theorem unique {q : Point} (hp : space.Places c p) (hq : space.Places c q) : p = q := by
  refine Point.ext_get fun a => ?_
  by_cases h : ∀ s sign, space.locate s = some (a.val, sign) → c.get s = 0
  · rw [hp.blank a h, hq.blank a h]
  · push Not at h
    obtain ⟨s, sign, hlocate, hs⟩ := h
    have hpos := UInt32.pos_iff_ne_zero.mpr hs
    rw [hp.coordinate hpos hlocate, hq.coordinate hpos hlocate]

theorem separates (hspace : space.Valid) (h : space.Places c p) : space.Separates c := by
  constructor
  · intro s hs
    obtain ⟨a, sign, hlocate, -⟩ := h.placed s hs
    obtain ⟨x, hx, hsign⟩ := (locate_eq_some_iff hspace).mp hlocate
    exact ⟨x, List.mem_of_getElem? hx, Axis.mem_species.mpr ⟨sign, hsign⟩⟩
  · intro x hx s hs t ht hspos htpos
    obtain ⟨i, hi⟩ := List.mem_iff_getElem?.mp hx
    obtain ⟨sign, hs⟩ := Axis.mem_species.mp hs
    obtain ⟨sign', ht⟩ := Axis.mem_species.mp ht
    have hs := (locate_eq_some_iff hspace).mpr ⟨x, hi, hs⟩
    have ht := (locate_eq_some_iff hspace).mpr ⟨x, hi, ht⟩
    obtain ⟨a, rfl⟩ := exists_direction hspace hs
    exact eq_of_locate hspace hs ht (h.sign_mul_pos hspace hspos hs) (h.sign_mul_pos hspace htpos ht)

end Places

theorem Separates.exists_toPoint (hspace : space.Valid) (h : space.Separates c) :
    ∃ p, space.toPoint c = .ok p := by
  have hfree : ∀ e ∈ c.entries, ∃ i sign, space.locate e.1 = some (i, sign) ∧
      i ∉ (⟨Point.origin, []⟩ : Placement).taken := by
    intro e he
    obtain ⟨hcount, hpos⟩ := mem_entries.mp he
    obtain ⟨x, hx, hmem⟩ := h.tracked e.1 (hcount ▸ hpos)
    obtain ⟨i, hi⟩ := List.mem_iff_getElem?.mp hx
    obtain ⟨sign, hsign⟩ := Axis.mem_species.mp hmem
    exact ⟨i, sign, (locate_eq_some_iff hspace).mpr ⟨x, hi, hsign⟩, fun hmem => nomatch hmem⟩
  have hapart : c.entries.Pairwise fun e f => ∀ i sign sign', space.locate e.1 = some (i, sign) →
      space.locate f.1 ≠ some (i, sign') := by
    refine (pairwise_entries c).imp_of_mem fun {e f} he hf hne i sign sign' hei hfi => hne ?_
    obtain ⟨hecount, hepos⟩ := mem_entries.mp he
    obtain ⟨hfcount, hfpos⟩ := mem_entries.mp hf
    obtain ⟨x, hx, hex⟩ := (locate_eq_some_iff hspace).mp hei
    obtain ⟨y, hy, hfy⟩ := (locate_eq_some_iff hspace).mp hfi
    rw [hx] at hy
    cases hy
    exact h.apart x (List.mem_of_getElem? hx) _ (Axis.mem_species.mpr ⟨_, hex⟩) _
      (Axis.mem_species.mpr ⟨_, hfy⟩) (hecount ▸ hepos) (hfcount ▸ hfpos)
  obtain ⟨r, hr⟩ := exists_foldlM_place hfree hapart
  exact ⟨r.point, toPoint_eq_ok.mpr ⟨r, hr, rfl⟩⟩

theorem exists_toPoint_iff (hspace : space.Valid) : (∃ p, space.toPoint c = .ok p) ↔ space.Separates c :=
  ⟨fun ⟨_, h⟩ => (places_of_toPoint hspace h).separates hspace, Separates.exists_toPoint hspace⟩

theorem toPoint_eq_ok_iff (hspace : space.Valid) : space.toPoint c = .ok p ↔ space.Places c p := by
  refine ⟨places_of_toPoint hspace, fun h => ?_⟩
  obtain ⟨q, hq⟩ := (h.separates hspace).exists_toPoint hspace
  rw [h.unique (places_of_toPoint hspace hq)]
  exact hq

end PhaseSpace
end ClusterDynamics
