import ClusterDynamics.Proofs.Places

/-! Compositions and signed points. Reading the point of a composition axis by axis gives the composition
    back. Read at any point whatever, a composition has a point again, which keeps of the first one what
    words can count on the axes of the space (`truncated`): all of it exactly when the point is zero beyond
    the axes, not negative on plain ones and within words (`Expresses`). -/

namespace ClusterDynamics
namespace PhaseSpace
variable {space : PhaseSpace} {s t : Species} {x : Axis} {sign : Int} {c d : Composition} {p : Point}

/-! ### From points to compositions -/

theorem get_toCompositionFrom_of_notMem {l : List Axis} : ∀ {i : Nat} {c : Composition},
    (∀ x ∈ l, s ∉ x.species) → (toCompositionFrom p i l c).get s = c.get s := by
  induction l with
  | nil => exact fun _ => rfl
  | cons x rest ih =>
    intro i c h
    obtain ⟨hx, hrest⟩ := List.forall_mem_cons.mp h
    rw [toCompositionFrom, ih hrest]
    split
    · rename_i t ht
      refine Composition.get_set_of_ne _ ?_ _
      rintro rfl
      exact hx (Axis.mem_species.mpr (Axis.sign?_of_counted? ht))
    · rfl

theorem get_toCompositionFrom {l : List Axis} : ∀ {i k : Nat} {c : Composition}, (l.flatMap Axis.species).Nodup →
    l[k]? = some x → x.sign? s = some sign → c.get s = 0 →
      (toCompositionFrom p i l c).get s =
        if 0 < sign * p[i + k]?.getD 0 then UInt32.ofNat (p[i + k]?.getD 0).natAbs else 0 := by
  induction l with
  | nil =>
    intro i k c _ hx
    cases hx
  | cons y rest ih =>
    intro i k c hnodup hx hs hc
    rw [List.flatMap_cons, List.nodup_append] at hnodup
    obtain ⟨hy, hrest, hapart⟩ := hnodup
    have hmem := Axis.mem_species.mpr ⟨sign, hs⟩
    rw [toCompositionFrom]
    cases k with
    | zero =>
      cases hx
      -- The species is read off here and left alone from here on.
      rw [get_toCompositionFrom_of_notMem fun z hz hsz =>
        hapart s hmem s (List.mem_flatMap.mpr ⟨z, hz, hsz⟩) rfl, Nat.add_zero]
      have hiff := Axis.counted?_eq_some_iff (n := p[i]?.getD 0) hs hy
      split_ifs with hpos
      · simp only [hiff.mpr hpos, Composition.get_set_self]
      · split
        · rename_i t ht
          rw [Composition.get_set_of_ne _ ?_, hc]
          rintro rfl
          exact hpos (hiff.mp ht)
        · exact hc
    | succ k =>
      have hstep : i + 1 + k = i + (k + 1) := by omega
      rw [← hstep]
      refine ih hrest hx hs ?_
      split
      · rename_i t ht
        rw [Composition.get_set_of_ne _ ?_, hc]
        rintro rfl
        refine hapart _ (Axis.mem_species.mpr (Axis.sign?_of_counted? ht)) _
          (List.mem_flatMap.mpr ⟨x, List.mem_of_getElem? hx, hmem⟩) rfl
      · exact hc

theorem get_toComposition_of_untracked (h : space.locate s = none) : (space.toComposition p).get s = 0 := by
  rw [toComposition, get_toCompositionFrom_of_notMem (locate_eq_none.mp h)]
  cases s <;> rfl

/-- The count of a species is read off its axis, when the coordinate has the sign of the species. -/
theorem get_toComposition (hspace : space.Valid) {a : Direction} (h : space.locate s = some (a.val, sign)) :
    (space.toComposition p).get s = if 0 < sign * p.get a then UInt32.ofNat (p.get a).natAbs else 0 := by
  obtain ⟨x, hx, hs⟩ := (locate_eq_some_iff hspace).mp h
  have hzero : Composition.empty.get s = 0 := by cases s <;> rfl
  have hcoordinate : p[0 + a.val]?.getD 0 = p.get a := by
    rw [Nat.zero_add, Vector.getElem?_eq_getElem a.isLt]
    rfl
  rw [toComposition, get_toCompositionFrom hspace.nodup hx hs hzero, hcoordinate]

theorem exists_of_get_pos (hspace : space.Valid) (h : 0 < (space.toComposition p).get s) :
    ∃ (a : Direction) (sign : Int), space.locate s = some (a.val, sign) ∧ 0 < sign * p.get a ∧
      (space.toComposition p).get s = UInt32.ofNat (p.get a).natAbs := by
  cases hlocate : space.locate s with
  | none =>
    rw [get_toComposition_of_untracked hlocate] at h
    exact absurd h (by decide)
  | some place =>
    obtain ⟨i, sign⟩ := place
    obtain ⟨a, rfl⟩ := exists_direction hspace hlocate
    have hget := get_toComposition (p := p) hspace hlocate
    split_ifs at hget with hpos
    · exact ⟨a, sign, rfl, hpos, hget⟩
    · rw [hget] at h
      exact absurd h (by decide)

/-! ### Back and forth -/

/-- The composition of a point is the one that has this point. -/
theorem Places.toComposition_eq (hspace : space.Valid) (h : space.Places c p) : space.toComposition p = c := by
  refine Composition.ext_get fun s => ?_
  by_cases hs : 0 < c.get s
  · obtain ⟨a, sign, hlocate, hvalue⟩ := h.placed s hs
    have habs : (p.get a).natAbs = (c.get s).toNat := by
      rcases sign_of_locate hspace hlocate with rfl | rfl <;> omega
    rw [get_toComposition hspace hlocate, if_pos (h.sign_mul_pos hspace hs hlocate), habs, UInt32.ofNat_toNat]
  · by_contra hne
    have hzero : c.get s = 0 := not_not.mp fun hc => hs (UInt32.pos_iff_ne_zero.mpr hc)
    rw [hzero] at hne
    obtain ⟨a, sign, hlocate, hpos, -⟩ := exists_of_get_pos hspace (UInt32.pos_iff_ne_zero.mpr hne)
    -- The coordinate is not zero, so it counts a species; with this sign that can only be `s`.
    have ha : p.get a ≠ 0 := fun ha => by simp [ha] at hpos
    obtain ⟨t, sign', ht, htpos⟩ := h.exists_of_ne_zero ha
    rw [← eq_of_locate hspace hlocate ht hpos (h.sign_mul_pos hspace htpos ht)] at htpos
    exact hs htpos

/-- What the composition at a point keeps of it: a coordinate that counts a species, modulo `2 ^ 32`, and
    zero in place of any other. -/
def truncated (space : PhaseSpace) (p : Point) : Point :=
  Vector.ofFn fun a =>
    match space.axes[a.val]?.bind fun x => x.counted? (p.get a) with
    | some _ => (p.get a).sign * ((p.get a).natAbs % 4294967296 : Nat)
    | none => 0

theorem places_truncated (hspace : space.Valid) (p : Point) :
    space.Places (space.toComposition p) (space.truncated p) := by
  have hnodup : ∀ {a : Nat} {x : Axis}, space.axes[a]? = some x → x.species.Nodup := fun hx =>
    (List.nodup_flatMap.mp hspace.nodup).1 _ (List.mem_of_getElem? hx)
  refine ⟨fun s hs => ?_, fun a ha => ?_⟩
  · obtain ⟨a, sign, hlocate, hpos, hget⟩ := exists_of_get_pos hspace hs
    obtain ⟨x, hx, hsign⟩ := (locate_eq_some_iff hspace).mp hlocate
    have hcounted := (Axis.counted?_eq_some_iff hsign (hnodup hx)).mpr hpos
    have hsgn : (p.get a).sign = sign := by
      rcases sign_of_locate hspace hlocate with rfl | rfl
      · exact Int.sign_eq_one_of_pos (by omega)
      · exact Int.sign_eq_neg_one_of_neg (by omega)
    refine ⟨a, sign, hlocate, ?_⟩
    rw [truncated, get_ofFn, hx, Option.bind_some, hcounted, hget, hsgn]
    rfl
  · rw [truncated, get_ofFn]
    split
    · rename_i s hs
      obtain ⟨x, hx, hcounted⟩ := Option.bind_eq_some_iff.mp hs
      obtain ⟨sign, hsign⟩ := Axis.sign?_of_counted? hcounted
      have hlocate := (locate_eq_some_iff hspace).mpr ⟨x, hx, hsign⟩
      have hget := ha s sign hlocate
      rw [get_toComposition hspace hlocate,
        if_pos ((Axis.counted?_eq_some_iff hsign (hnodup hx)).mp hcounted)] at hget
      have hword : (p.get a).natAbs % 4294967296 = 0 := congrArg UInt32.toNat hget
      rw [hword, Nat.cast_zero, mul_zero]
    · rfl

/-- The composition at a point has a point again. -/
theorem toPoint_toComposition (hspace : space.Valid) (p : Point) :
    space.toPoint (space.toComposition p) = .ok (space.truncated p) :=
  (toPoint_eq_ok_iff hspace).mpr (places_truncated hspace p)

/-- Counts can express the point: it is zero beyond the axes, no plain axis carries a negative coordinate,
    and every magnitude is a word. -/
structure Expresses (space : PhaseSpace) (p : Point) : Prop where
  beyond : ∀ a : Direction, space.dim ≤ a.val → p.get a = 0
  plain : ∀ (a : Direction) (x : Axis), space.axes[a.val]? = some x → x.negative = none → 0 ≤ p.get a
  words : ∀ a : Direction, (p.get a).natAbs ≤ 4294967295

theorem natAbs_le_of_sign_mul {n : Int} {m : Nat} (h : n.sign * (m : Int) = n) : n.natAbs ≤ m := by
  have habs := congrArg Int.natAbs h
  rw [Int.natAbs_mul, Int.natAbs_sign, Int.natAbs_natCast] at habs
  split_ifs at habs <;> omega

theorem truncated_eq_self_iff : space.truncated p = p ↔ space.Expresses p := by
  have hget : ∀ a, (space.truncated p).get a =
      match space.axes[a.val]?.bind fun x => x.counted? (p.get a) with
      | some _ => (p.get a).sign * ((p.get a).natAbs % 4294967296 : Nat)
      | none => 0 := fun a => get_ofFn _ a
  constructor
  · intro h
    have hself := fun a => (hget a).symm.trans (congrArg (fun q : Point => q.get a) h)
    refine ⟨fun a ha => ?_, fun a x hx hplain => ?_, fun a => ?_⟩
    · rw [← hself a, List.getElem?_eq_none (show space.axes.length ≤ a.val from ha), Option.bind_none]
    · by_contra hneg
      have hnone : x.counted? (p.get a) = none := by
        rw [Axis.counted?, if_neg (by omega), if_pos (by omega), hplain]
      have hzero := hself a
      rw [hx, Option.bind_some, hnone] at hzero
      change 0 = p.get a at hzero
      omega
    · have hvalue := hself a
      split at hvalue
      · exact (natAbs_le_of_sign_mul hvalue).trans
          (Nat.le_of_lt_succ (Nat.mod_lt _ (show 0 < 4294967296 by decide)))
      · rw [← hvalue]
        decide
  · intro h
    refine Point.ext_get fun a => ?_
    rw [hget a]
    split
    · rw [Nat.mod_eq_of_lt (Nat.lt_succ_of_le (h.words a)), Int.sign_mul_natAbs]
    · rename_i hnone
      -- Nothing is counted on the axis, so there is nothing to count.
      cases hx : space.axes[a.val]? with
      | none => exact (h.beyond a (List.getElem?_eq_none_iff.mp hx)).symm
      | some x =>
        rw [hx, Option.bind_some, Axis.counted?] at hnone
        split_ifs at hnone with hpos hneg
        · have := h.plain a x hx hnone
          omega
        · omega

theorem toPoint_of_expresses (hspace : space.Valid) (h : space.Expresses p) :
    space.toPoint (space.toComposition p) = .ok p := by
  rw [toPoint_toComposition hspace, truncated_eq_self_iff.mpr h]

/-- The two conversions are inverse to each other: from compositions whose species lie on axes of their own to
    the points that counts can express, and back. -/
structure Converts (space : PhaseSpace) : Prop where
  exists_toPoint_iff : ∀ c, (∃ p, space.toPoint c = .ok p) ↔ space.Separates c
  toComposition_eq : ∀ c p, space.toPoint c = .ok p → space.toComposition p = c
  injective : ∀ c d p, space.toPoint c = .ok p → space.toPoint d = .ok p → c = d
  toPoint_eq_iff : ∀ p, space.toPoint (space.toComposition p) = .ok p ↔ space.Expresses p

/-- Every phase space converts without a loss wherever it converts at all. -/
theorem converts_of_ofAxes {axes : List Axis} (h : ofAxes axes = .ok space) : space.Converts := by
  obtain ⟨-, hspace⟩ := ofAxes_eq_ok_iff.mp h
  have hback : ∀ c p, space.toPoint c = .ok p → space.toComposition p = c := fun c p hp =>
    (places_of_toPoint hspace hp).toComposition_eq hspace
  refine ⟨fun c => PhaseSpace.exists_toPoint_iff hspace, hback, fun c d p hc hd => ?_, fun p => ?_⟩
  · rw [← hback c p hc, hback d p hd]
  · rw [toPoint_toComposition hspace, Except.ok.injEq, truncated_eq_self_iff]

/-- Two folded axes, in another order than compositions list their species. The most interstitials beside two
    helium atoms have a point and are found again; a vacancy beside an interstitial has none; and of a point
    beyond the words one coordinate is lost. -/
theorem converts_folded :
    let space : PhaseSpace := ⟨[Axis.folded .vacancy .interstitial, Axis.folded .xenon .helium]⟩
    let c : Composition := { helium := 2, interstitial := 4294967295 }
    let p : Point := #v[-4294967295, -2, 0, 0]
    ofAxes space.axes = .ok space ∧ space.toPoint c = .ok p ∧ space.toComposition p = c ∧
      (¬∃ q, space.toPoint { vacancy := 1, interstitial := 1 } = .ok q) ∧
      space.toPoint (space.toComposition #v[4294967296, 3, 0, 0]) ≠ .ok #v[4294967296, 3, 0, 0] := by
  intro space c p
  have C := converts_of_ofAxes (show ofAxes space.axes = .ok space from rfl)
  have hplace : space.toPoint c = .ok p := by decide +kernel
  refine ⟨rfl, hplace, C.toComposition_eq c p hplace, ?_, ?_⟩
  · rw [C.exists_toPoint_iff]
    intro h
    cases h.apart _ List.mem_cons_self .vacancy (by decide) .interstitial (by decide) (by decide) (by decide)
  · rw [ne_eq, C.toPoint_eq_iff]
    intro h
    exact absurd (h.words Direction.first) (by decide)

end PhaseSpace
end ClusterDynamics
