import ClusterDynamics.Proofs.Reversal

/-! What the records of a cluster say of the reactions. All contributions of one event to one owner end up in
    one record, whose coefficients are their sum in the order of the pieces; so a cluster that meets its like,
    or is left twice, still has a single record, with a contribution for each of its parts. Read the other way
    round, the records of a cluster name exactly the reactions that it takes part in. -/

namespace ClusterDynamics

variable {α : Type}

/-- The sum of matrices, from the first to the last. -/
def MomentMatrix.total [Scalar α] : List (MomentMatrix α) → MomentMatrix α
  | [] => zero
  | m :: rest => rest.foldl add m

theorem MomentMatrix.total_concat [Scalar α] (m : MomentMatrix α) :
    ∀ {l : List (MomentMatrix α)}, l ≠ [] → total (l ++ [m]) = (total l).add m
  | [], h => absurd rfl h
  | _ :: _, _ => List.foldl_concat _ _ _ _

/-! ### Collecting -/

namespace Record

variable {ρ : Type} {reaction : Nat} {others : Nat → ρ} {i : Nat} {r : Record ρ α} {x : Nat × Record ρ α}
  {l acc seen : List (Nat × Record ρ α)}

/-- The coefficients of the contributions to one owner. -/
def contributed (i : Nat) (l : List (Nat × Record ρ α)) : List (MomentMatrix α) :=
  (l.filter fun x => x.1 = i).map fun x => x.2.coefs

theorem contributed_append (i : Nat) (l l' : List (Nat × Record ρ α)) :
    contributed i (l ++ l') = contributed i l ++ contributed i l' := by
  rw [contributed, List.filter_append, List.map_append]
  rfl

theorem contributed_flatMap {β : Type} (i : Nat) (f : β → List (Nat × Record ρ α)) (l : List β) :
    contributed i (l.flatMap f) = l.flatMap fun y => contributed i (f y) := by
  rw [contributed, List.filter_flatMap, List.map_flatMap]
  rfl

theorem contributed_ne_nil : contributed i l ≠ [] ↔ i ∈ l.map (·.1) := by
  simp [contributed]

variable [Scalar α]

theorem mem_owners_insert : i ∈ (insert acc x).map (·.1) ↔ i ∈ acc.map (·.1) ∨ i = x.1 := by
  induction acc with
  | nil => simp [insert]
  | cons y rest ih =>
    rw [insert]
    split_ifs with h
    · rw [List.map_cons, List.map_cons, List.mem_cons, ← h]
      constructor
      · intro hi
        exact .inl hi
      · rintro (hi | hi)
        · exact hi
        · exact .inl hi
    · rw [List.map_cons, List.mem_cons, ih, List.map_cons, List.mem_cons, or_assoc]

theorem nodup_insert (h : (acc.map (·.1)).Nodup) : ((insert acc x).map (·.1)).Nodup := by
  induction acc with
  | nil => exact List.nodup_singleton _
  | cons y rest ih =>
    obtain ⟨hy, hrest⟩ := List.nodup_cons.mp h
    rw [insert]
    split_ifs with hyx
    · exact h
    · refine List.nodup_cons.mpr ⟨fun hmem => ?_, ih hrest⟩
      rcases mem_owners_insert.mp hmem with hmem | hmem
      · exact hy hmem
      · exact hyx hmem

/-- The records of other owners stay as they are. -/
theorem mem_insert_of_ne (hi : i ≠ x.1) : (i, r) ∈ insert acc x ↔ (i, r) ∈ acc := by
  have hne : ∀ y : Nat × Record ρ α, y.1 = x.1 → (i, r) ≠ y := fun y hy h => hi ((congrArg Prod.fst h).trans hy)
  induction acc with
  | nil => exact iff_of_false (fun h => hne x rfl (List.mem_singleton.mp h)) List.not_mem_nil
  | cons y rest ih =>
    rw [insert]
    split_ifs with hy
    · rw [List.mem_cons, List.mem_cons, or_iff_right (hne (y.1, y.2.add x.2) hy),
        or_iff_right (hne y hy)]
    · rw [List.mem_cons, List.mem_cons]
      exact or_congr_right ih

/-- The record of the owner is opened, or takes in the contribution. -/
theorem mem_insert_self (h : (acc.map (·.1)).Nodup) : (x.1, r) ∈ insert acc x ↔
    x.1 ∉ acc.map (·.1) ∧ r = x.2 ∨ ∃ s, (x.1, s) ∈ acc ∧ r = s.add x.2 := by
  induction acc with
  | nil => simp [insert, Prod.ext_iff]
  | cons y rest ih =>
    obtain ⟨j, s⟩ := y
    obtain ⟨hj, hrest⟩ := List.nodup_cons.mp h
    rw [insert]
    split_ifs with hjx
    · obtain rfl : j = x.1 := hjx
      have hnone : ∀ t, (x.1, t) ∉ rest := fun t ht => hj (List.mem_map.mpr ⟨_, ht, rfl⟩)
      simp [hnone, eq_comm]
    · have hxj : x.1 ≠ j := fun he => hjx he.symm
      simp only [List.mem_cons, List.map_cons, Prod.mk.injEq, hxj, false_and, false_or]
      exact ih hrest

/-- What has been collected of the contributions seen so far: one record per owner, with all of its
    coefficients. -/
structure Collected (reaction : Nat) (others : Nat → ρ) (seen acc : List (Nat × Record ρ α)) : Prop where
  nodup : (acc.map (·.1)).Nodup
  mem : ∀ i r, (i, r) ∈ acc ↔ i ∈ seen.map (·.1) ∧ r = ⟨reaction, others i, .total (contributed i seen)⟩

theorem Collected.owners (h : Collected reaction others seen acc) :
    i ∈ acc.map (·.1) ↔ i ∈ seen.map (·.1) := by
  constructor
  · intro hi
    obtain ⟨⟨j, s⟩, hs, rfl⟩ := List.mem_map.mp hi
    exact ((h.mem j s).mp hs).1
  · intro hi
    exact List.mem_map.mpr ⟨_, (h.mem i _).mpr ⟨hi, rfl⟩, rfl⟩

theorem Collected.insert (h : Collected reaction others seen acc)
    (hx : x.2.reaction = reaction ∧ x.2.participants = others x.1) :
    Collected reaction others (seen ++ [x]) (insert acc x) := by
  refine ⟨nodup_insert h.nodup, fun i r => ?_⟩
  rw [List.map_append, List.mem_append, contributed_append, List.map_singleton, List.mem_singleton]
  by_cases hi : i = x.1
  · subst hi
    have hlast : contributed x.1 [x] = [x.2.coefs] := by simp [contributed]
    rw [mem_insert_self h.nodup, hlast, and_iff_right (Or.inr rfl)]
    by_cases hown : x.1 ∈ acc.map (·.1)
    · -- The owner is known: its record is the total so far.
      have hseen := h.owners.mp hown
      have hmem : ∀ s, (x.1, s) ∈ acc ↔ s = ⟨reaction, others x.1, .total (contributed x.1 seen)⟩ :=
        fun s => (h.mem x.1 s).trans (and_iff_right hseen)
      rw [MomentMatrix.total_concat _ (contributed_ne_nil.mpr hseen)]
      simp only [hmem, exists_eq_left, hown, not_true_eq_false, false_and, false_or]
      rfl
    · have hnone : contributed x.1 seen = [] :=
        not_not.mp fun hne => hown (h.owners.mpr (contributed_ne_nil.mp hne))
      have hx2 : x.2 = ⟨reaction, others x.1, .total [x.2.coefs]⟩ := by
        rw [← hx.1, ← hx.2]
        rfl
      rw [hnone, List.nil_append, ← hx2, and_iff_right hown]
      refine or_iff_left ?_
      rintro ⟨s, hs, -⟩
      exact hown (List.mem_map.mpr ⟨_, hs, rfl⟩)
  · have hlast : contributed i [x] = [] := by simp [contributed, Ne.symm hi]
    rw [mem_insert_of_ne hi, hlast, List.append_nil, or_iff_left hi]
    exact h.mem i r

theorem Collected.foldl : ∀ {rest seen acc : List (Nat × Record ρ α)}, Collected reaction others seen acc →
    Coherent reaction others rest → Collected reaction others (seen ++ rest) (rest.foldl Record.insert acc)
  | [], seen, _, h, _ => by rwa [List.append_nil]
  | x :: rest, seen, acc, h, hrest => by
    rw [List.foldl_cons, List.append_cons]
    exact (h.insert (hrest x List.mem_cons_self)).foldl fun y hy => hrest y (List.mem_cons_of_mem x hy)

theorem collected (hl : Coherent reaction others l) : Collected reaction others l (collect l) := by
  have hnone : Collected (α := α) reaction others [] [] := ⟨List.nodup_nil, fun _ _ => by simp⟩
  exact hnone.foldl hl

end Record

/-! ### Sorting by owner -/

namespace ReactionPlan

variable {ε ρ : Type} [Scalar α] {contributions : Nat → ε → List (Nat × Record ρ α)} {others : ε → Nat → ρ}
  {n i : Nat}

/-- An owner has one record of every event that contributes to it. -/
theorem mem_records_iff (hi : i < n) (hc : ∀ k e, Record.Coherent k (others e) (contributions k e)) {start : Nat}
    {events : List ε} {r : Record ρ α} : r ∈ (records n start events contributions).getD i [] ↔
      ∃ k e, events[k]? = some e ∧ i ∈ (contributions (start + k) e).map (·.1) ∧
        r = ⟨start + k, others e i, .total (Record.contributed i (contributions (start + k) e))⟩ := by
  rw [mem_records hi]
  simp only [(Record.collected (hc _ _)).mem]

/-- No owner has two records of one event. -/
theorem nodup_reaction (hi : i < n) (hc : ∀ k e, Record.Coherent k (others e) (contributions k e)) (start : Nat)
    (events : List ε) : (((records n start events contributions).getD i []).map (·.reaction)).Nodup := by
  rw [records, Array.getD_eq_getD_getElem?, getElem?_bucket hi, Option.getD_some, List.map_map]
  refine List.pairwise_map.mpr (List.pairwise_filter.mpr (List.pairwise_flatMap.mpr ⟨fun e _ => ?_, ?_⟩))
  · -- Within one event the owners of the collected records differ.
    refine (List.pairwise_map.mp (Record.collected (hc e.2 e.1)).nodup).imp ?_
    intro x y hne hx hy
    exact absurd ((of_decide_eq_true hx).trans (of_decide_eq_true hy).symm) hne
  · -- Records of two events carry the numbers of these.
    have hnumbers : (events.zipIdx start).Pairwise fun d e => d.2 ≠ e.2 := by
      rw [← List.pairwise_map, List.zipIdx_map_snd]
      exact List.nodup_range'
    refine hnumbers.imp fun {d e} hde x hx y hy _ _ => ?_
    rw [Function.comp_apply, Function.comp_apply, (((Record.collected (hc d.2 d.1)).mem x.1 x.2).mp hx).2,
      (((Record.collected (hc e.2 e.1)).mem y.1 y.2).mp hy).2]
    exact hde

/-! ### Contributions of one event -/

variable {p : Population α} {g s c P M R : Cluster α}

/-- Both operands receive a contribution from every piece. -/
theorem combiningRecords_ofOperands (S : p.Sound) (hg : g ∈ p.clusters) (hs : s ∈ p.clusters) :
    combiningRecords p i (.ofOperands p g s) = (Encounter.ofOperands p g s).pieces.flatMap fun q =>
      [(g.id, ⟨i, s.id, Moment.coefficients g.region Point.origin g.region q.box⟩),
        (s.id, ⟨i, g.id, Moment.coefficients s.region Point.origin g.region q.box⟩)] := by
  have hfirst : p.region? (Encounter.ofOperands p g s).first = some g.region := S.region?_id hg
  have hsecond : p.region? (Encounter.ofOperands p g s).second = some s.region := S.region?_id hs
  rw [combiningRecords, hfirst, hsecond]
  rfl

theorem mem_owners_combiningRecords (S : p.Sound) (hg : g ∈ p.clusters) (hs : s ∈ p.clusters)
    (hne : (Encounter.ofOperands p g s).pieces ≠ []) :
    i ∈ (combiningRecords p n (.ofOperands p g s)).map (·.1) ↔ i = g.id ∨ i = s.id := by
  obtain ⟨q, hq⟩ := List.exists_mem_of_ne_nil _ hne
  rw [combiningRecords_ofOperands S hg hs]
  simp only [List.map_flatMap, List.map_cons, List.map_nil, List.mem_flatMap, List.mem_pair]
  constructor
  · rintro ⟨_, -, h⟩
    exact h
  · intro h
    exact ⟨q, hq, h⟩

/-- Of every piece a cluster receives one contribution for each operand that it is. -/
theorem contributed_combiningRecords (S : p.Sound) (hg : g ∈ p.clusters) (hs : s ∈ p.clusters)
    (hc : c ∈ p.clusters) : Record.contributed c.id (combiningRecords p i (.ofOperands p g s)) =
      (Encounter.ofOperands p g s).pieces.flatMap fun q => List.replicate ([g.id, s.id].count c.id)
        (Moment.coefficients c.region Point.origin g.region q.box) := by
  rw [combiningRecords_ofOperands S hg hs, Record.contributed_flatMap]
  refine congrArg (List.flatMap · _) (funext fun q => ?_)
  unfold Record.contributed
  by_cases h1 : g.id = c.id <;> by_cases h2 : s.id = c.id
  · obtain rfl := S.eq_of_id hg hc h1
    obtain rfl := S.eq_of_id hs hc h2
    simp
  · obtain rfl := S.eq_of_id hg hc h1
    simp [h2]
  · obtain rfl := S.eq_of_id hs hc h2
    simp [h1]
  · simp [h1, h2]

/-- The remainder and the monomer receive a contribution each. -/
theorem dissociatingRecords_of_joins (S : p.Sound) {d : Channel} (hd : d.Joins P M R) (hP : P ∈ p.clusters)
    (hM : M ∈ p.clusters) (hR : R ∈ p.clusters) : dissociatingRecords p i d =
      [(R.id, ⟨i, P.id, Moment.coefficients R.region d.offset.neg P.region d.box⟩),
        (M.id, ⟨i, P.id, Moment.coefficients M.region Point.origin P.region d.box⟩)] := by
  rw [dissociatingRecords, hd.parent_eq, hd.monomer_eq, hd.remainder_eq, S.region?_id hP, S.region?_id hM,
    S.region?_id hR]

theorem mem_owners_dissociatingRecords (S : p.Sound) {d : Channel} (hd : d.Joins P M R) (hP : P ∈ p.clusters)
    (hM : M ∈ p.clusters) (hR : R ∈ p.clusters) :
    i ∈ (dissociatingRecords p n d).map (·.1) ↔ i = R.id ∨ i = M.id := by
  rw [dissociatingRecords_of_joins S hd hP hM hR]
  simp

theorem contributed_dissociatingRecords (S : p.Sound) {d : Channel} (hd : d.Joins P M R) (hP : P ∈ p.clusters)
    (hM : M ∈ p.clusters) (hR : R ∈ p.clusters) (hc : c ∈ p.clusters) :
    Record.contributed c.id (dissociatingRecords p i d) =
      (if R.id = c.id then [Moment.coefficients c.region d.offset.neg P.region d.box] else []) ++
        if M.id = c.id then [Moment.coefficients c.region Point.origin P.region d.box] else [] := by
  rw [dissociatingRecords_of_joins S hd hP hM hR]
  unfold Record.contributed
  by_cases h1 : R.id = c.id <;> by_cases h2 : M.id = c.id
  · obtain rfl := S.eq_of_id hR hc h1
    obtain rfl := S.eq_of_id hM hc h2
    simp
  · obtain rfl := S.eq_of_id hR hc h1
    simp [h2]
  · obtain rfl := S.eq_of_id hM hc h2
    simp [h1]
  · simp [h1, h2]

end ReactionPlan

/-! ### Records of a network -/

namespace Network

variable [Scalar α] {n : Network α} {c : Cluster α} {i : Nat}

/-- The coefficients of a cluster that a production of `g` and `s` consumes. -/
def consumed (n : Network α) (g s c : Cluster α) : MomentMatrix α :=
  .total ((Encounter.ofOperands n.toPopulation g s).pieces.flatMap fun q =>
    List.replicate ([g.id, s.id].count c.id) (Moment.coefficients c.region Point.origin g.region q.box))

/-- The coefficients of a cluster that a parent releases from `box`, as the remainder `R`, as the monomer `M` at
    `m`, or as both. -/
def released (P M R c : Cluster α) (m : Point) (box : Region) : MomentMatrix α :=
  .total ((if R.id = c.id then [Moment.coefficients c.region m.neg P.region box] else []) ++
    if M.id = c.id then [Moment.coefficients c.region Point.origin P.region box] else [])

/-- The combining records of a cluster: one for each production that consumes it. -/
theorem Built.mem_combining (hn : n.Built) (hc : c ∈ n.clusters) {r : Record Nat α} :
    r ∈ (n.linksOf c.id).combining ↔
      ∃ k, ∃ g ∈ n.clusters, ∃ s ∈ n.clusters,
        n.plan.productions[k]? = some (.ofOperands n.toPopulation g s) ∧ (c.id = g.id ∨ c.id = s.id) ∧
          r = ⟨k, if c.id = g.id then s.id else g.id, n.consumed g s c⟩ := by
  obtain ⟨hlt, -⟩ := Array.getElem?_eq_some_iff.mp (hn.sound.getElem?_id hc)
  rw [hn.linksOf hc, ReactionPlan.mem_records_iff hlt fun k e => ReactionPlan.coherent_combiningRecords _ k e]
  simp only [Nat.zero_add]
  constructor
  · rintro ⟨k, e, he, howner, rfl⟩
    obtain ⟨g, hg, s, hs, -, rfl⟩ := of_mem_productions (List.mem_of_getElem? he)
    have hpieces : (Encounter.ofOperands n.toPopulation g s).pieces ≠ [] := by
      simpa using (List.mem_filter.mp (List.mem_of_getElem? he)).2
    rw [ReactionPlan.mem_owners_combiningRecords hn.sound hg hs hpieces] at howner
    rw [ReactionPlan.contributed_combiningRecords hn.sound hg hs hc]
    exact ⟨k, g, hg, s, hs, he, howner, rfl⟩
  · rintro ⟨k, g, hg, s, hs, he, howner, rfl⟩
    have hpieces : (Encounter.ofOperands n.toPopulation g s).pieces ≠ [] := by
      simpa using (List.mem_filter.mp (List.mem_of_getElem? he)).2
    refine ⟨k, _, he, (ReactionPlan.mem_owners_combiningRecords hn.sound hg hs hpieces).mpr howner, ?_⟩
    rw [ReactionPlan.contributed_combiningRecords hn.sound hg hs hc]
    rfl

/-- The dissociating records of a cluster: one for each dissociation that releases it. -/
theorem Built.mem_dissociating (hn : n.Built) (hc : c ∈ n.clusters) {r : Record Nat α} :
    r ∈ (n.linksOf c.id).dissociating ↔
      ∃ k d, ∃ P ∈ n.clusters, ∃ M ∈ n.clusters, ∃ R ∈ n.clusters,
        n.plan.dissociations[k]? = some d ∧ d.1.Joins P M R ∧ (c.id = R.id ∨ c.id = M.id) ∧
          r = ⟨n.plan.productions.length + k, P.id, released P M R c d.1.offset d.1.box⟩ := by
  obtain ⟨hlt, -⟩ := Array.getElem?_eq_some_iff.mp (hn.sound.getElem?_id hc)
  rw [hn.linksOf hc, ReactionPlan.mem_records_iff hlt fun k e => ReactionPlan.coherent_dissociatingRecords _ k e]
  simp only [List.getElem?_map, Option.map_eq_some_iff]
  constructor
  · rintro ⟨k, _, ⟨d, hd, rfl⟩, howner, rfl⟩
    obtain ⟨P, hP, M, hM, R, hR, hjoins⟩ := hn.of_mem_dissociations (List.mem_of_getElem? hd)
    rw [ReactionPlan.mem_owners_dissociatingRecords hn.sound hjoins hP hM hR] at howner
    rw [ReactionPlan.contributed_dissociatingRecords hn.sound hjoins hP hM hR hc, hjoins.parent_eq]
    exact ⟨k, d, P, hP, M, hM, R, hR, hd, hjoins, howner, rfl⟩
  · rintro ⟨k, d, P, hP, M, hM, R, hR, hd, hjoins, howner, rfl⟩
    refine ⟨k, _, ⟨d, hd, rfl⟩, ?_, ?_⟩
    · rwa [ReactionPlan.mem_owners_dissociatingRecords hn.sound hjoins hP hM hR]
    · rw [ReactionPlan.contributed_dissociatingRecords hn.sound hjoins hP hM hR hc, hjoins.parent_eq]
      rfl

/-! ### Both views of a reaction -/

theorem Built.reactions_production (hn : n.Built) {e : Encounter} (he : n.plan.productions[i]? = some e) :
    n.reactions[i]? = some (.production e.first e.second) := by
  rw [← Array.getElem?_toList, hn.reactions, ReactionPlan.reactions, List.getElem?_append_left, List.getElem?_map, he]
  · rfl
  · rw [List.length_map]
    exact (List.getElem?_eq_some_iff.mp he).1

theorem Built.reactions_dissociation (hn : n.Built) {k : Nat} {d : Channel × Nat}
    (hd : n.plan.dissociations[k]? = some d) : n.reactions[n.plan.productions.length + k]? =
      some (.dissociation d.1.parent d.1.monomer d.1.remainder d.2 (d.1.bindingEnergy n.material)) := by
  rw [← Array.getElem?_toList, hn.reactions, ReactionPlan.reactions, List.getElem?_append_right, List.length_map,
    Nat.add_sub_cancel_left, List.getElem?_map, hd]
  · rfl
  · rw [List.length_map]
    exact Nat.le_add_right _ _

/-- A cluster has a combining record of the productions that it takes part in, with the partner. -/
theorem Built.combining_iff (hn : n.Built) (hc : c ∈ n.clusters) {x : Nat} :
    (∃ r ∈ (n.linksOf c.id).combining, r.reaction = i ∧ r.participants = x) ↔ n.Combines i c.id x := by
  rw [hn.combines_iff]
  constructor
  · rintro ⟨r, hr, rfl, rfl⟩
    obtain ⟨k, g, hg, s, hs, he, howner, rfl⟩ := (hn.mem_combining hc).mp hr
    refine ⟨_, he, ?_⟩
    dsimp only
    split_ifs with hid
    · rw [hid]
      rfl
    · rw [howner.resolve_left hid]
      exact Sym2.eq_swap
  · rintro ⟨e, he, hpair⟩
    obtain ⟨g, hg, s, hs, -, rfl⟩ := of_mem_productions (List.mem_of_getElem? he)
    rcases Sym2.eq_iff.mp hpair with ⟨hfirst, hsecond⟩ | ⟨hfirst, hsecond⟩
    · refine ⟨_, (hn.mem_combining hc).mpr ⟨i, g, hg, s, hs, he, .inl hfirst.symm, rfl⟩, rfl, ?_⟩
      exact (if_pos hfirst.symm).trans hsecond
    · refine ⟨_, (hn.mem_combining hc).mpr ⟨i, g, hg, s, hs, he, .inr hsecond.symm, rfl⟩, rfl, ?_⟩
      dsimp only
      split_ifs with hid
      · exact hsecond.trans (hid.trans hfirst)
      · exact hfirst

/-- A cluster has a dissociating record of the dissociations that release it, with the parent. -/
theorem Built.dissociating_iff (hn : n.Built) (hc : c ∈ n.clusters) {x : Nat} :
    (∃ r ∈ (n.linksOf c.id).dissociating, r.reaction = i ∧ r.participants = x) ↔
      ∃ a b, n.Dissociates i x a b ∧ (a = c.id ∨ b = c.id) := by
  constructor
  · rintro ⟨r, hr, rfl, rfl⟩
    obtain ⟨k, d, P, hP, M, hM, R, hR, hd, hjoins, howner, rfl⟩ := (hn.mem_dissociating hc).mp hr
    have hreaction := hn.reactions_dissociation hd
    rw [hjoins.parent_eq, hjoins.monomer_eq, hjoins.remainder_eq] at hreaction
    exact ⟨M.id, R.id, ⟨_, _, hreaction⟩, howner.symm.imp Eq.symm Eq.symm⟩
  · rintro ⟨a, b, ⟨reverse, energy, h⟩, howner⟩
    obtain ⟨k, d, rfl, hd, rfl, rfl, rfl⟩ := hn.dissociation_of_getElem? h
    obtain ⟨P, hP, M, hM, R, hR, hjoins⟩ := hn.of_mem_dissociations (List.mem_of_getElem? hd)
    rw [hjoins.monomer_eq, hjoins.remainder_eq] at howner
    exact ⟨_, (hn.mem_dissociating hc).mpr
      ⟨k, _, P, hP, M, hM, R, hR, hd, hjoins, howner.symm.imp Eq.symm Eq.symm, rfl⟩, rfl, hjoins.parent_eq.symm⟩

/-- A cluster has an emission record of the dissociations that take it apart, with what they leave. -/
theorem Built.emission_iff (hn : n.Built) (hc : c ∈ n.clusters) {a b : Nat} :
    (∃ r ∈ (n.linksOf c.id).emission, r.reaction = i ∧ r.participants = ⟨a, b⟩) ↔ n.Dissociates i c.id a b := by
  constructor
  · rintro ⟨r, hr, rfl, hab⟩
    obtain ⟨k, d, hd, hparent, rfl⟩ := (hn.mem_emission hc).mp hr
    have hreaction := hn.reactions_dissociation hd
    cases hab
    rw [hparent] at hreaction
    exact ⟨_, _, hreaction⟩
  · rintro ⟨reverse, energy, h⟩
    obtain ⟨k, d, rfl, hd, hparent, rfl, rfl⟩ := hn.dissociation_of_getElem? h
    exact ⟨_, (hn.mem_emission hc).mpr ⟨k, _, hd, hparent, rfl⟩, rfl, rfl⟩

/-- The records of a cluster and the reactions of the network say the same: each list has one record at most of a
    reaction, all numbers in the records are in range, and the records name the reactions that the cluster takes
    part in. A cluster that is both operands of a production, or both of what a dissociation leaves, has both
    contributions in its one record. -/
structure RecordsAgree (n : Network α) (c : Cluster α) : Prop where
  production_once : ((n.linksOf c.id).production.map (·.reaction)).Nodup
  combining_once : ((n.linksOf c.id).combining.map (·.reaction)).Nodup
  dissociating_once : ((n.linksOf c.id).dissociating.map (·.reaction)).Nodup
  emission_once : ((n.linksOf c.id).emission.map (·.reaction)).Nodup
  couple_range : ∀ r ∈ (n.linksOf c.id).production ++ (n.linksOf c.id).emission, r.reaction < n.reactions.size ∧
    r.participants.first < n.clusters.size ∧ r.participants.second < n.clusters.size
  single_range : ∀ r ∈ (n.linksOf c.id).combining ++ (n.linksOf c.id).dissociating,
    r.reaction < n.reactions.size ∧ r.participants < n.clusters.size
  production : ∀ r ∈ (n.linksOf c.id).production,
    n.reactions[r.reaction]? = some (.production r.participants.first r.participants.second)
  combining : ∀ i x, (∃ r ∈ (n.linksOf c.id).combining, r.reaction = i ∧ r.participants = x) ↔
    n.Combines i c.id x
  dissociating : ∀ i x, (∃ r ∈ (n.linksOf c.id).dissociating, r.reaction = i ∧ r.participants = x) ↔
    ∃ a b, n.Dissociates i x a b ∧ (a = c.id ∨ b = c.id)
  emission : ∀ i a b, (∃ r ∈ (n.linksOf c.id).emission, r.reaction = i ∧ r.participants = ⟨a, b⟩) ↔
    n.Dissociates i c.id a b
  combining_total : ∀ r ∈ (n.linksOf c.id).combining, ∃ g ∈ n.clusters, ∃ s ∈ n.clusters,
    n.reactions[r.reaction]? = some (.production g.id s.id) ∧ r.coefs = n.consumed g s c
  dissociating_total : ∀ r ∈ (n.linksOf c.id).dissociating, ∃ P ∈ n.clusters, ∃ M ∈ n.clusters,
    ∃ R ∈ n.clusters, n.Dissociates r.reaction P.id M.id R.id ∧
      ∃ box, P.region.intersection? (R.region.shifted M.region.lo) = some box ∧
        r.coefs = released P M R c M.region.lo box

theorem Built.recordsAgree (hn : n.Built) (hc : c ∈ n.clusters) : n.RecordsAgree c := by
  have hid : ∀ {d : Cluster α}, d ∈ n.clusters → d.id < n.clusters.size :=
    fun hd => (Array.getElem?_eq_some_iff.mp (hn.sound.getElem?_id hd)).1
  have harena : ∀ {j : Nat} {x : Reaction α}, n.reactions[j]? = some x → j < n.reactions.size :=
    fun h => (Array.getElem?_eq_some_iff.mp h).1
  have hlinks := hn.linksOf hc
  refine {
    production_once := ?_, combining_once := ?_, dissociating_once := ?_, emission_once := ?_, couple_range := ?_
    single_range := ?_, production := ?_, combining := fun i x => hn.combining_iff hc
    dissociating := fun i x => hn.dissociating_iff hc, emission := fun i a b => hn.emission_iff hc
    combining_total := ?_, dissociating_total := ?_ }
  · rw [hlinks]
    exact ReactionPlan.nodup_reaction (hid hc) (fun k e => ReactionPlan.coherent_productionRecords _ k e) _ _
  · rw [hlinks]
    exact ReactionPlan.nodup_reaction (hid hc) (fun k e => ReactionPlan.coherent_combiningRecords _ k e) _ _
  · rw [hlinks]
    exact ReactionPlan.nodup_reaction (hid hc) (fun k e => ReactionPlan.coherent_dissociatingRecords _ k e) _ _
  · rw [hlinks]
    exact ReactionPlan.nodup_reaction (hid hc) (fun k e => ReactionPlan.coherent_emissionRecords _ k e) _ _
  · intro r hr
    rcases List.mem_append.mp hr with hr | hr
    · obtain ⟨k, g, hg, s, hs, _, he, -, rfl⟩ := (hn.mem_production hc).mp hr
      exact ⟨harena (hn.reactions_production he), hid hg, hid hs⟩
    · obtain ⟨k, d, hd, -, rfl⟩ := (hn.mem_emission hc).mp hr
      obtain ⟨P, -, M, hM, R, hR, hjoins⟩ := hn.of_mem_dissociations (List.mem_of_getElem? hd)
      exact ⟨harena (hn.reactions_dissociation hd), hjoins.monomer_eq ▸ hid hM, hjoins.remainder_eq ▸ hid hR⟩
  · intro r hr
    rcases List.mem_append.mp hr with hr | hr
    · obtain ⟨k, g, hg, s, hs, he, -, rfl⟩ := (hn.mem_combining hc).mp hr
      refine ⟨harena (hn.reactions_production he), ?_⟩
      dsimp only
      split_ifs
      · exact hid hs
      · exact hid hg
    · obtain ⟨k, d, P, hP, -, -, -, -, hd, -, -, rfl⟩ := (hn.mem_dissociating hc).mp hr
      exact ⟨harena (hn.reactions_dissociation hd), hid hP⟩
  · intro r hr
    obtain ⟨k, g, hg, s, hs, _, he, -, rfl⟩ := (hn.mem_production hc).mp hr
    exact hn.reactions_production he
  · intro r hr
    obtain ⟨k, g, hg, s, hs, he, -, rfl⟩ := (hn.mem_combining hc).mp hr
    exact ⟨g, hg, s, hs, hn.reactions_production he, rfl⟩
  · intro r hr
    obtain ⟨k, d, P, hP, M, hM, R, hR, hd, hjoins, -, rfl⟩ := (hn.mem_dissociating hc).mp hr
    have hreaction := hn.reactions_dissociation hd
    rw [hjoins.parent_eq, hjoins.monomer_eq, hjoins.remainder_eq] at hreaction
    exact ⟨P, hP, M, hM, R, hR, ⟨_, _, hreaction⟩, d.1.box, hjoins.offset_eq ▸ hjoins.box_eq,
      hjoins.offset_eq ▸ rfl⟩

/-- In a finished network the records of every cluster agree with the reactions. -/
theorem recordsAgree_of_finish {params : NetworkParams α} {material : Material α} {b : Builder α}
    (hb : b.Reachable params material) (hfinish : b.finish = .ok n) :
    n.links.size = n.clusters.size ∧ ∀ c ∈ n.clusters, n.RecordsAgree c := by
  obtain ⟨hn, -, -⟩ := built_of_finish hb hfinish
  refine ⟨?_, fun c hc => hn.recordsAgree hc⟩
  rw [hn.links, ReactionPlan.links, Array.size_ofFn]

end Network

/-- Two single atoms make a pair, and the pair leaves both of them. The atom has one record of each reaction, with a
    coefficient of two. -/
theorem Chain.recordsAgree_atom : ∃ n, builder.finish = .ok n ∧ ∃ a ∈ n.clusters, ∃ d ∈ n.clusters,
    (∃ r ∈ (n.linksOf a.id).combining, (r.reaction = 0 ∧ r.participants = a.id) ∧ r.coefs.entry 0 0 = 2) ∧
    (∃ r ∈ (n.linksOf a.id).dissociating, (r.reaction = 3 ∧ r.participants = d.id) ∧ r.coefs.entry 0 0 = 2) ∧
      ∃ r ∈ (n.linksOf d.id).emission, r.reaction = 3 ∧ r.participants = ⟨a.id, a.id⟩ := by
  obtain ⟨n, hn, a, ha, d, hd, hmeets, hsplits, hmet, hleft⟩ :
      ∃ n, builder.finish = .ok n ∧ ∃ a ∈ n.clusters, ∃ d ∈ n.clusters,
        n.reactions[0]? = some (.production a.id a.id) ∧
          n.reactions[3]? = some (.dissociation d.id a.id a.id 0 0) ∧
            (∀ r ∈ (n.linksOf a.id).combining, r.reaction = 0 → r.coefs.entry 0 0 = 2) ∧
              ∀ r ∈ (n.linksOf a.id).dissociating, r.reaction = 3 → r.coefs.entry 0 0 = 2 :=
    exists_eq_ok (by decide +kernel)
  obtain ⟨-, hagree⟩ := Network.recordsAgree_of_finish reachable hn
  obtain ⟨r, hr, hreaction⟩ := ((hagree a ha).combining 0 a.id).mpr ⟨_, _, hmeets, rfl⟩
  obtain ⟨t, ht, htreaction⟩ := ((hagree a ha).dissociating 3 d.id).mpr ⟨_, _, ⟨_, _, hsplits⟩, .inl rfl⟩
  have hemission := ((hagree d hd).emission 3 a.id a.id).mpr ⟨_, _, hsplits⟩
  exact ⟨n, hn, a, ha, d, hd, ⟨r, hr, hreaction, hmet r hr hreaction.1⟩,
    ⟨t, ht, htreaction, hleft t ht htreaction.1⟩, hemission⟩

end ClusterDynamics
