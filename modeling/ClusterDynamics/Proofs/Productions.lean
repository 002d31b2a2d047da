import ClusterDynamics.Proofs.Enumeration

/-! Which productions a network has. The pairs of clusters are looked at from their mobile members, and a
    pair of two mobile clusters only from the one with the lower number, so no pair is met twice; a pair
    makes something when two of its compositions annihilate or have an owner for their sum. Every such
    pair has one production, no other pair has any, and the clusters that the production makes are the
    owners of the sums. -/

namespace ClusterDynamics

variable {α : Type}

/-! ### Pairs -/

namespace Encounter

/-- The two clusters of an encounter, in no order. -/
def pair (e : Encounter) : Sym2 Nat := s(e.first, e.second)

variable {p : Population α} {e : Encounter} {g s : Cluster α}

theorem joins_iff_pair {a b : Nat} : e.joins a b = true ↔ e.pair = s(a, b) := by
  rw [joins_iff, pair, Sym2.eq_iff]

theorem first_of_operands {a b : Cluster α} (h : operands a b = some (g, s)) :
    g.isGrouped = true ∨ g.id ≤ s.id := by
  unfold operands at h
  split_ifs at h with hboth ha hb hle <;> cases h
  · exact .inl ha
  · exact .inl hb
  · exact .inr hle
  · exact .inr (Nat.le_of_not_le hle)

theorem pair_of_operands {a b : Cluster α} (h : operands a b = some (g, s)) :
    (ofOperands p g s).pair = s(a.id, b.id) := by
  obtain ⟨⟨rfl, rfl⟩ | ⟨rfl, rfl⟩, -⟩ := operands_eq_some h
  · rfl
  · exact Sym2.eq_swap

section
variable [Scalar α]

theorem exists_of_mem_ofMobile {m : Cluster α} (h : e ∈ ofMobile p m) :
    ∃ c ∈ p.clusters, facing m c = true ∧ ∃ g s, operands m c = some (g, s) ∧ e = ofOperands p g s := by
  obtain ⟨c, hc, he⟩ := List.mem_filterMap.mp h
  obtain ⟨hc, hface⟩ := List.mem_filter.mp hc
  obtain ⟨⟨g, s⟩, ho, rfl⟩ := Option.map_eq_some_iff.mp he
  exact ⟨c, Array.mem_toList_iff.mp hc, hface, g, s, ho, rfl⟩

theorem pair_of_mem_ofMobile {m : Cluster α} (h : e ∈ ofMobile p m) :
    ∃ c ∈ p.clusters, facing m c = true ∧ e.pair = s(m.id, c.id) := by
  obtain ⟨c, hc, hface, g, s, ho, rfl⟩ := exists_of_mem_ofMobile h
  exact ⟨c, hc, hface, pair_of_operands ho⟩

/-- Of two mobile clusters only the one with the lower number looks at the pair. -/
theorem le_of_facing {m c : Cluster α} (h : facing m c = true) (hc : c.isMobile = true) : m.id ≤ c.id := by
  simpa [facing, hc] using h

/-- No two encounters are about the same pair. -/
theorem pairwise_pair (S : p.Sound) : (Encounter.all p).Pairwise fun e f => e.pair ≠ f.pair := by
  have hid : p.clusters.toList.Pairwise fun a b => a.id ≠ b.id := List.pairwise_map.mp S.nodup_ids
  refine List.pairwise_flatMap.mpr ⟨fun m _ => ?_, ?_⟩
  · refine List.pairwise_filterMap.mpr ((hid.filter _).imp fun {c d} hcd e he f hf hpair => hcd ?_)
    obtain ⟨_, ho, rfl⟩ := Option.map_eq_some_iff.mp he
    obtain ⟨_, ho', rfl⟩ := Option.map_eq_some_iff.mp hf
    rw [pair_of_operands ho, pair_of_operands ho'] at hpair
    exact Sym2.congr_right.mp hpair
  · refine ((List.pairwise_filter.mpr (hid.imp fun h _ _ => h)).imp_of_mem ?_)
    intro m m' hm hm' hne e he f hf hpair
    obtain ⟨c, hc, hface, hec⟩ := pair_of_mem_ofMobile he
    obtain ⟨c', hc', hface', hfc⟩ := pair_of_mem_ofMobile hf
    obtain ⟨hm, hmobile⟩ := List.mem_filter.mp hm
    obtain ⟨hm', hmobile'⟩ := List.mem_filter.mp hm'
    rw [hec, hfc, Sym2.eq_iff] at hpair
    rcases hpair with ⟨h, -⟩ | ⟨h, h'⟩
    · exact hne h
    · -- Each of the two clusters would have to come before the other one.
      obtain rfl := S.eq_of_id hc (Array.mem_toList_iff.mp hm') h'
      obtain rfl := S.eq_of_id hc' (Array.mem_toList_iff.mp hm) h.symm
      exact hne (Nat.le_antisymm (le_of_facing hface hmobile') (le_of_facing hface' hmobile))

end

/-! ### Products -/

/-- An encounter makes something when one of its products annihilates or has an owner. -/
theorem pieces_ne_nil_iff (S : p.Sound) : (ofOperands p g s).pieces ≠ [] ↔
    ∃ y, g.region.contains y = true ∧
      (y.add s.region.lo = Point.origin ∨ p.owns (y.add s.region.lo) = true) := by
  constructor
  · intro h
    obtain ⟨q, hq⟩ := List.exists_mem_of_ne_nil _ h
    rcases of_mem_pieces S hq with ⟨-, -, hin⟩ | ⟨c, hc, -, hbox⟩
    · exact ⟨_, hin, .inl (Point.neg_add _)⟩
    · obtain ⟨y, hy, hcy⟩ :=
        Region.intersects_iff_exists.mp (Region.intersection?_eq_some.mp hbox).1
      exact ⟨y, hy, .inr (Population.owns_iff.mpr ⟨c, hc, Region.contains_shifted_neg.mp hcy⟩)⟩
  · rintro ⟨y, hy, horigin | howned⟩
    · have htarget : (g.region.shifted s.region.lo).contains Point.origin = true := by
        rw [Region.contains_shifted, Point.add_comm, Point.add_origin, ← Point.add_eq_origin.mp horigin]
        exact hy
      have hmem : (⟨none, Region.unit s.region.lo.neg⟩ : Piece) ∈
          recombination (g.region.shifted s.region.lo) s.region.lo := by
        rw [recombination, if_pos htarget]
        exact List.mem_cons_self
      exact List.ne_nil_of_mem (List.mem_append_left _ hmem)
    · obtain ⟨c, hc, hcy⟩ := Population.owns_iff.mp howned
      exact pieces_ne_nil S hc hy hcy

/-- The products of one encounter are different clusters. -/
theorem pairwise_product (S : p.Sound) : (ofOperands p g s).pieces.Pairwise fun q q' =>
    ∀ id, q.product = some id → q'.product ≠ some id := by
  -- A recombination has no product, so only the owners that the search finds can be equal.
  refine List.pairwise_append.mpr ⟨?_, ?_, fun q hq q' _ id hid => ?_⟩
  · unfold recombination
    split_ifs
    · exact List.pairwise_singleton _ _
    · exact .nil
  · refine List.pairwise_filterMap.mpr
      ((S.nodup_query _).imp fun {j k} hjk q hq q' hq' id hid hid' => hjk ?_)
    obtain ⟨_, -, hq⟩ := Option.bind_eq_some_iff.mp hq
    obtain ⟨_, -, hq⟩ := Option.bind_eq_some_iff.mp hq
    obtain ⟨_, -, hq'⟩ := Option.bind_eq_some_iff.mp hq'
    obtain ⟨_, -, hq'⟩ := Option.bind_eq_some_iff.mp hq'
    cases hq
    cases hq'
    exact (Option.some.inj hid).trans (Option.some.inj hid').symm
  · unfold recombination at hq
    split_ifs at hq
    · rw [List.mem_singleton.mp hq] at hid
      cases hid
    · exact absurd hq List.not_mem_nil

end Encounter

/-- A composition of `a` and one of `b` add up to `x`. -/
def Cluster.Makes (a b : Cluster α) (x : Point) : Prop :=
  ∃ y z, a.region.contains y = true ∧ b.region.contains z = true ∧ y.add z = x

namespace Cluster

theorem Makes.symm {a b : Cluster α} {x : Point} (h : a.Makes b x) : b.Makes a x := by
  obtain ⟨y, z, hy, hz, rfl⟩ := h
  exact ⟨z, y, hz, hy, Point.add_comm z y⟩

theorem makes_iff_of_operands {a c g s : Cluster α} (h : g = a ∧ s = c ∨ g = c ∧ s = a) {x : Point} :
    g.Makes s x ↔ a.Makes c x := by
  rcases h with ⟨rfl, rfl⟩ | ⟨rfl, rfl⟩
  · exact Iff.rfl
  · exact ⟨Makes.symm, Makes.symm⟩

/-- A cluster on one point adds this point to each composition of the other one. -/
theorem makes_iff_of_isUnit {g s : Cluster α} (hs : s.region.isUnit = true) {x : Point} :
    g.Makes s x ↔ ∃ y, g.region.contains y = true ∧ y.add s.region.lo = x := by
  constructor
  · rintro ⟨y, z, hy, hz, rfl⟩
    rw [(Region.contains_of_isUnit hs).mp hz]
    exact ⟨y, hy, rfl⟩
  · rintro ⟨y, hy, rfl⟩
    exact ⟨y, _, hy, (Region.contains_of_isUnit hs).mpr rfl, rfl⟩

end Cluster

/-! ### Records -/

namespace Record

variable {ρ : Type} [Scalar α]

theorem insert_of_notMem {x : Nat × Record ρ α} : ∀ {acc : List (Nat × Record ρ α)},
    x.1 ∉ acc.map (·.1) → insert acc x = acc ++ [x]
  | [], _ => rfl
  | y :: acc, h => by
    rw [List.map_cons, List.mem_cons, not_or] at h
    rw [insert, if_neg fun he => h.1 he.symm, insert_of_notMem h.2, List.cons_append]

theorem foldl_insert_of_nodup : ∀ {rest acc : List (Nat × Record ρ α)},
    ((acc ++ rest).map (·.1)).Nodup → rest.foldl insert acc = acc ++ rest
  | [], acc, _ => by rw [List.foldl_nil, List.append_nil]
  | x :: rest, acc, h => by
    have hx : x.1 ∉ acc.map (·.1) := by
      rw [List.map_append, List.map_cons] at h
      exact fun hmem => (List.nodup_append.mp h).2.2 _ hmem _ List.mem_cons_self rfl
    rw [List.foldl_cons, insert_of_notMem hx, foldl_insert_of_nodup (by rwa [List.append_assoc]),
      List.append_assoc]
    rfl

/-- Contributions to different owners are kept as they are. -/
theorem collect_of_nodup {l : List (Nat × Record ρ α)} (h : (l.map (·.1)).Nodup) : collect l = l := by
  show l.foldl insert [] = [] ++ l
  exact foldl_insert_of_nodup h

end Record

namespace ReactionPlan

theorem mem_records {ρ ε : Type} [Scalar α] {contributions : Nat → ε → List (Nat × Record ρ α)}
    {n i : Nat} (hi : i < n) {start : Nat} {events : List ε} {r : Record ρ α} :
    r ∈ (records n start events contributions).getD i [] ↔
      ∃ k e, events[k]? = some e ∧ (i, r) ∈ Record.collect (contributions (start + k) e) := by
  rw [records, Array.getD_eq_getD_getElem?, getElem?_bucket hi, Option.getD_some, List.mem_map]
  constructor
  · rintro ⟨⟨j, r⟩, hx, rfl⟩
    obtain ⟨hx, hj⟩ := List.mem_filter.mp hx
    obtain ⟨⟨e, k⟩, he, hr⟩ := List.mem_flatMap.mp hx
    obtain ⟨hle, hk⟩ := List.mk_mem_zipIdx_iff_le_and_getElem?_sub.mp he
    refine ⟨k - start, e, hk, ?_⟩
    rw [Nat.add_sub_cancel' hle, ← of_decide_eq_true hj]
    exact hr
  · rintro ⟨k, e, hk, hr⟩
    refine ⟨(i, r), List.mem_filter.mpr ⟨List.mem_flatMap.mpr ⟨(e, start + k), ?_, hr⟩, by simp⟩, rfl⟩
    refine List.mk_mem_zipIdx_iff_le_and_getElem?_sub.mpr ⟨Nat.le_add_right _ _, ?_⟩
    rwa [Nat.add_sub_cancel_left]

variable [Scalar α] {p : Population α} {g s : Cluster α}

theorem nodup_productionRecords (S : p.Sound) (i : Nat) :
    ((productionRecords p i (.ofOperands p g s)).map (·.1)).Nodup := by
  unfold productionRecords
  split
  · exact List.nodup_nil
  · refine List.pairwise_map.mpr (List.pairwise_filterMap.mpr ((Encounter.pairwise_product S).imp ?_))
    intro q q' hqq x hx y hy hxy
    obtain ⟨j, hj, hx⟩ := Option.bind_eq_some_iff.mp hx
    obtain ⟨_, -, hx⟩ := Option.bind_eq_some_iff.mp hx
    obtain ⟨k, hk, hy⟩ := Option.bind_eq_some_iff.mp hy
    obtain ⟨_, -, hy⟩ := Option.bind_eq_some_iff.mp hy
    cases hx
    cases hy
    exact hqq j hj (hk.trans (congrArg some hxy.symm))

/-- A cluster has a record of an encounter when it owns the product of one of the pieces. -/
theorem mem_productionRecords (S : p.Sound) (hg : g ∈ p.clusters) {d : Cluster α} (hd : d ∈ p.clusters)
    {i : Nat} {r : Record Couple α} :
    (d.id, r) ∈ productionRecords p i (.ofOperands p g s) ↔
      ∃ box, g.region.intersection? (d.region.shifted s.region.lo.neg) = some box ∧
        r = ⟨i, ⟨g.id, s.id⟩, Moment.coefficients d.region s.region.lo g.region box⟩ := by
  have hregion : p.region? (Encounter.ofOperands p g s).first = some g.region := S.region?_id hg
  unfold productionRecords
  rw [hregion]
  simp only [List.mem_filterMap]
  constructor
  · rintro ⟨q, hq, hr⟩
    obtain ⟨j, hj, hr⟩ := Option.bind_eq_some_iff.mp hr
    obtain ⟨r', hr', hr⟩ := Option.bind_eq_some_iff.mp hr
    cases hr
    rw [S.region?_id hd] at hr'
    cases hr'
    rcases Encounter.of_mem_pieces S hq with ⟨hnone, -⟩ | ⟨c, hc, hsome, hbox⟩
    · rw [hnone] at hj
      cases hj
    · rw [hsome] at hj
      rw [S.eq_of_id hc hd (Option.some.inj hj)] at hbox
      exact ⟨q.box, hbox, rfl⟩
  · rintro ⟨box, hbox, rfl⟩
    refine ⟨⟨some d.id, box⟩, Encounter.mem_pieces S hd hbox, ?_⟩
    show ((p.region? d.id).bind fun r => some (d.id, (⟨i, ⟨g.id, s.id⟩,
      Moment.coefficients r s.region.lo g.region box⟩ : Record Couple α))) = _
    rw [S.region?_id hd]
    rfl

end ReactionPlan

/-! ### Productions -/

namespace Network

/-- Two clusters react when one of them moves, at most one is grouped, and two of their compositions
    annihilate or make something that the network tracks. -/
structure Reactive [Scalar α] (n : Network α) (a b : Cluster α) : Prop where
  mobile : a.isMobile = true ∨ b.isMobile = true
  single : a.isGrouped = false ∨ b.isGrouped = false
  product : ∃ x, a.Makes b x ∧ (x = Point.origin ∨ n.owns x = true)

/-- Reaction `i` is the production of two clusters. -/
def Combines (n : Network α) (i a b : Nat) : Prop :=
  ∃ first second, n.reactions[i]? = some (.production first second) ∧ s(first, second) = s(a, b)

variable [Scalar α] {n : Network α} {a c g s : Cluster α} {i : Nat}

omit [Scalar α] in
theorem mem_of_operands (ha : a ∈ n.clusters) (hc : c ∈ n.clusters)
    (h : g = a ∧ s = c ∨ g = c ∧ s = a) : g ∈ n.clusters ∧ s ∈ n.clusters := by
  rcases h with ⟨rfl, rfl⟩ | ⟨rfl, rfl⟩
  · exact ⟨ha, hc⟩
  · exact ⟨hc, ha⟩

theorem Built.combines_iff (hn : n.Built) {a b : Nat} :
    n.Combines i a b ↔ ∃ e, n.plan.productions[i]? = some e ∧ e.pair = s(a, b) := by
  unfold Combines
  rw [← Array.getElem?_toList, hn.reactions, ReactionPlan.reactions, List.getElem?_append]
  constructor
  · rintro ⟨first, second, h, hpair⟩
    split_ifs at h with hi
    · rw [List.getElem?_map] at h
      obtain ⟨e, he, hp⟩ := Option.map_eq_some_iff.mp h
      cases hp
      exact ⟨e, he, hpair⟩
    · obtain ⟨d, -, hd⟩ := List.mem_map.mp (List.mem_of_getElem? h)
      cases hd
  · rintro ⟨e, he, hpair⟩
    have hi : i < (n.plan.productions.map fun e => (.production e.first e.second : Reaction α)).length := by
      rw [List.length_map]
      exact (List.getElem?_eq_some_iff.mp he).1
    rw [if_pos hi, List.getElem?_map, he]
    exact ⟨_, _, rfl, hpair⟩

theorem Built.eq_of_combines (hn : n.Built) {a b i j : Nat} (hi : n.Combines i a b)
    (hj : n.Combines j a b) : i = j := by
  obtain ⟨e, he, hpe⟩ := hn.combines_iff.mp hi
  obtain ⟨f, hf, hpf⟩ := hn.combines_iff.mp hj
  have hnodup : (n.plan.productions.map Encounter.pair).Nodup :=
    List.pairwise_map.mpr ((Encounter.pairwise_pair hn.sound).filter _)
  have hlt : i < (n.plan.productions.map Encounter.pair).length := by
    rw [List.length_map]
    exact (List.getElem?_eq_some_iff.mp he).1
  refine (List.getElem?_inj hlt hnodup).mp ?_
  rw [List.getElem?_map, List.getElem?_map, he, hf, Option.map_some, Option.map_some, hpe, hpf]

/-- An encounter is a production when something comes of it. -/
theorem Built.mem_productions (hn : n.Built) (hs : s ∈ n.clusters) (hsingle : s.isGrouped = false) :
    Encounter.ofOperands n.toPopulation g s ∈ n.plan.productions ↔
      Encounter.ofOperands n.toPopulation g s ∈ Encounter.all n.toPopulation ∧
        ∃ x, g.Makes s x ∧ (x = Point.origin ∨ n.owns x = true) := by
  have hpieces : (Encounter.ofOperands n.toPopulation g s).pieces ≠ [] ↔
      ∃ x, g.Makes s x ∧ (x = Point.origin ∨ n.owns x = true) := by
    rw [Encounter.pieces_ne_nil_iff hn.sound]
    simp only [Cluster.makes_iff_of_isUnit (hn.sound.isUnit hs hsingle)]
    constructor
    · rintro ⟨y, hy, h⟩
      exact ⟨_, ⟨y, hy, rfl⟩, h⟩
    · rintro ⟨x, ⟨y, hy, rfl⟩, h⟩
      exact ⟨y, hy, h⟩
  rw [← hpieces, ReactionPlan.productions, ReactionPlan.productive, List.mem_filter]
  simp [plan, ReactionPlan.ofPopulation]

/-- The encounter behind a production: which of the two clusters comes first, and that one of them
    moves. -/
theorem Built.of_combines (hn : n.Built) (ha : a ∈ n.clusters) (hc : c ∈ n.clusters)
    (h : n.Combines i a.id c.id) :
    ∃ g s, (g = a ∧ s = c ∨ g = c ∧ s = a) ∧ s.isGrouped = false ∧
      (g.isGrouped = true ∨ g.id ≤ s.id) ∧ (a.isMobile = true ∨ c.isMobile = true) ∧
        n.plan.productions[i]? = some (.ofOperands n.toPopulation g s) := by
  obtain ⟨e, he, hpair⟩ := hn.combines_iff.mp h
  obtain ⟨m, hm, hmem⟩ := List.mem_flatMap.mp (List.mem_filter.mp (List.mem_of_getElem? he)).1
  obtain ⟨hm, hmobile⟩ := List.mem_filter.mp hm
  obtain ⟨k, hk, -, g, s, ho, rfl⟩ := Encounter.exists_of_mem_ofMobile hmem
  obtain ⟨hcase, hsingle⟩ := Encounter.operands_eq_some ho
  have hfirst := Encounter.first_of_operands ho
  rw [Encounter.pair_of_operands ho, Sym2.eq_iff] at hpair
  rcases hpair with ⟨h1, h2⟩ | ⟨h1, h2⟩
  · obtain rfl := hn.sound.eq_of_id (Array.mem_toList_iff.mp hm) ha h1
    obtain rfl := hn.sound.eq_of_id hk hc h2
    exact ⟨g, s, hcase, hsingle, hfirst, .inl hmobile, he⟩
  · obtain rfl := hn.sound.eq_of_id (Array.mem_toList_iff.mp hm) hc h1
    obtain rfl := hn.sound.eq_of_id hk ha h2
    exact ⟨g, s, hcase.symm, hsingle, hfirst, .inr hmobile, he⟩

theorem Built.reactive_of_combines (hn : n.Built) (ha : a ∈ n.clusters) (hc : c ∈ n.clusters)
    (h : n.Combines i a.id c.id) : n.Reactive a c := by
  obtain ⟨g, s, hcase, hsingle, -, hmobile, he⟩ := hn.of_combines ha hc h
  have hs := (mem_of_operands ha hc hcase).2
  obtain ⟨x, hx, hkept⟩ := ((hn.mem_productions hs hsingle).mp (List.mem_of_getElem? he)).2
  refine ⟨hmobile, ?_, x, (Cluster.makes_iff_of_operands hcase).mp hx, hkept⟩
  rcases hcase with ⟨-, rfl⟩ | ⟨-, rfl⟩
  · exact .inr hsingle
  · exact .inl hsingle

theorem Built.exists_combines (hn : n.Built) (ha : a ∈ n.clusters) (hc : c ∈ n.clusters)
    (h : n.Reactive a c) : ∃ i, n.Combines i a.id c.id := by
  have hboth : (a.isGrouped && c.isGrouped) = false := Bool.and_eq_false_iff.mpr h.single
  obtain ⟨g, s, hall, hsingle, hcase⟩ := Encounter.exists_of_isMobile ha hc h.mobile hboth
  have hs := (mem_of_operands ha hc hcase).2
  obtain ⟨x, hx, hkept⟩ := h.product
  have hmem := (hn.mem_productions hs hsingle).mpr
    ⟨hall, x, (Cluster.makes_iff_of_operands hcase).mpr hx, hkept⟩
  obtain ⟨i, hi⟩ := List.mem_iff_getElem?.mp hmem
  refine ⟨i, hn.combines_iff.mpr ⟨_, hi, ?_⟩⟩
  rcases hcase with ⟨rfl, rfl⟩ | ⟨rfl, rfl⟩
  · rfl
  · exact Sym2.eq_swap

/-- The production records of a cluster: one for each production and box of which it owns the products. -/
theorem Built.mem_production (hn : n.Built) {d : Cluster α} (hd : d ∈ n.clusters) {r : Record Couple α} :
    r ∈ (n.linksOf d.id).production ↔
      ∃ k, ∃ g ∈ n.clusters, ∃ s ∈ n.clusters, ∃ box,
        n.plan.productions[k]? = some (.ofOperands n.toPopulation g s) ∧
          g.region.intersection? (d.region.shifted s.region.lo.neg) = some box ∧
            r = ⟨k, ⟨g.id, s.id⟩, Moment.coefficients d.region s.region.lo g.region box⟩ := by
  obtain ⟨hlt, -⟩ := Array.getElem?_eq_some_iff.mp (hn.sound.getElem?_id hd)
  rw [hn.linksOf hd, ReactionPlan.mem_records hlt]
  simp only [Nat.zero_add]
  constructor
  · rintro ⟨k, e, he, hr⟩
    obtain ⟨g, hg, s, hs, -, rfl⟩ := of_mem_productions (List.mem_of_getElem? he)
    rw [Record.collect_of_nodup (ReactionPlan.nodup_productionRecords hn.sound k)] at hr
    obtain ⟨box, hbox, hr⟩ := (ReactionPlan.mem_productionRecords hn.sound hg hd).mp hr
    exact ⟨k, g, hg, s, hs, box, he, hbox, hr⟩
  · rintro ⟨k, g, hg, s, -, box, he, hbox, hr⟩
    refine ⟨k, _, he, ?_⟩
    rw [Record.collect_of_nodup (ReactionPlan.nodup_productionRecords hn.sound k)]
    exact (ReactionPlan.mem_productionRecords hn.sound hg hd).mpr ⟨box, hbox, hr⟩

theorem Built.exists_production_iff (hn : n.Built) (hg : g ∈ n.clusters) (hs : s ∈ n.clusters)
    (hsingle : s.isGrouped = false)
    (he : n.plan.productions[i]? = some (.ofOperands n.toPopulation g s)) {d : Cluster α}
    (hd : d ∈ n.clusters) :
    (∃ r ∈ (n.linksOf d.id).production, r.reaction = i) ↔
      ∃ x, g.Makes s x ∧ d.region.contains x = true := by
  simp only [Cluster.makes_iff_of_isUnit (hn.sound.isUnit hs hsingle)]
  constructor
  · rintro ⟨r, hr, hri⟩
    obtain ⟨k, g', hg', s', hs', box, he', hbox, rfl⟩ := (hn.mem_production hd).mp hr
    obtain rfl : k = i := hri
    rw [he] at he'
    have hid := Option.some.inj he'
    obtain rfl := hn.sound.eq_of_id hg hg' (congrArg Encounter.first hid)
    obtain rfl := hn.sound.eq_of_id hs hs' (congrArg Encounter.second hid)
    obtain ⟨y, hy, hdy⟩ := Region.intersects_iff_exists.mp (Region.intersection?_eq_some.mp hbox).1
    exact ⟨_, ⟨y, hy, rfl⟩, Region.contains_shifted_neg.mp hdy⟩
  · rintro ⟨x, ⟨y, hy, rfl⟩, hdx⟩
    have hmeet : g.region.intersects (d.region.shifted s.region.lo.neg) = true :=
      Region.intersects_iff_exists.mpr ⟨y, hy, Region.contains_shifted_neg.mpr hdx⟩
    exact ⟨_, (hn.mem_production hd).mpr ⟨i, g, hg, s, hs, _, he,
      Region.intersection?_eq_some.mpr ⟨hmeet, rfl⟩, rfl⟩, rfl⟩

/-- The clusters that a production makes are the owners of the sums. -/
theorem Built.exists_record_iff (hn : n.Built) (ha : a ∈ n.clusters) (hc : c ∈ n.clusters)
    (h : n.Combines i a.id c.id) {d : Cluster α} (hd : d ∈ n.clusters) :
    (∃ r ∈ (n.linksOf d.id).production, r.reaction = i) ↔
      ∃ x, a.Makes c x ∧ d.region.contains x = true := by
  obtain ⟨g, s, hcase, hsingle, -, -, he⟩ := hn.of_combines ha hc h
  obtain ⟨hg, hs⟩ := mem_of_operands ha hc hcase
  rw [hn.exists_production_iff hg hs hsingle he hd]
  simp only [Cluster.makes_iff_of_operands hcase]

/-- In a finished network two clusters have one production if they react and none otherwise. Its first
    operand is the grouped cluster or the one with the lower number, and the clusters that it makes are
    the owners of the sums. -/
theorem combines_of_finish {params : NetworkParams α} {material : Material α} {b : Builder α}
    (hb : b.Reachable params material) (hfinish : b.finish = .ok n) (ha : a ∈ n.clusters)
    (hc : c ∈ n.clusters) :
    (n.Reactive a c → ∃! i, n.Combines i a.id c.id) ∧
    (¬n.Reactive a c → ∀ i, ¬n.Combines i a.id c.id) ∧
    ∀ i, n.Combines i a.id c.id →
      (∃ g s, (g = a ∧ s = c ∨ g = c ∧ s = a) ∧
        n.reactions[i]? = some (.production g.id s.id) ∧ s.isGrouped = false ∧
          (g.isGrouped = true ∨ g.id ≤ s.id)) ∧
      ∀ d ∈ n.clusters, (∃ r ∈ (n.linksOf d.id).production, r.reaction = i) ↔
        ∃ x, a.Makes c x ∧ d.region.contains x = true := by
  obtain ⟨hn, -, -⟩ := built_of_finish hb hfinish
  refine ⟨fun h => ?_, fun h i hi => h (hn.reactive_of_combines ha hc hi), fun i hi => ?_⟩
  · obtain ⟨i, hi⟩ := hn.exists_combines ha hc h
    exact ⟨i, hi, fun j hj => hn.eq_of_combines hj hi⟩
  · obtain ⟨g, s, hcase, hsingle, hfirst, -, he⟩ := hn.of_combines ha hc hi
    refine ⟨⟨g, s, hcase, ?_, hsingle, hfirst⟩, fun d hd => hn.exists_record_iff ha hc hi hd⟩
    rw [← Array.getElem?_toList, hn.reactions, ReactionPlan.reactions, List.getElem?_append_left,
      List.getElem?_map, he]
    · rfl
    · rw [List.length_map]
      exact (List.getElem?_eq_some_iff.mp he).1

end Network

/-- A single atom and the grouped cluster have one production, and the grouped cluster is one of its
    products. -/
theorem Chain.combines_once : ∃ n, builder.finish = .ok n ∧ ∃ a ∈ n.clusters, ∃ c ∈ n.clusters,
    a.isGrouped = false ∧ c.isGrouped = true ∧ (∃! i, n.Combines i a.id c.id) ∧
      ∀ i, n.Combines i a.id c.id → ∃ r ∈ (n.linksOf c.id).production, r.reaction = i := by
  obtain ⟨n, hn, a, ha, c, hc, hmoves, hsingle, hgrouped, hone, hthree, hfour⟩ :
      ∃ n, builder.finish = .ok n ∧ ∃ a ∈ n.clusters, ∃ c ∈ n.clusters, a.isMobile = true ∧
        a.isGrouped = false ∧ c.isGrouped = true ∧ a.region.contains #v[1, 0, 0, 0] = true ∧
          c.region.contains #v[3, 0, 0, 0] = true ∧ c.region.contains #v[4, 0, 0, 0] = true :=
    exists_eq_ok (by decide +kernel)
  have hmakes : a.Makes c #v[4, 0, 0, 0] := ⟨_, _, hone, hthree, by decide⟩
  have hreactive : n.Reactive a c :=
    ⟨.inl hmoves, .inl hsingle, _, hmakes, .inr (Population.owns_iff.mpr ⟨c, hc, hfour⟩)⟩
  obtain ⟨honce, -, hrecords⟩ := Network.combines_of_finish reachable hn ha hc
  exact ⟨n, hn, a, ha, c, hc, hsingle, hgrouped, honce hreactive, fun i hi =>
    ((hrecords i hi).2 c hc).mpr ⟨_, hmakes, hfour⟩⟩

end ClusterDynamics
