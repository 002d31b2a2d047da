import ClusterDynamics.Jacobian
import ClusterDynamics.Proofs.Pattern
import ClusterDynamics.Proofs.Productions

/-! Which entries of the Jacobian are touched. The pattern is read off four lists of records, the listed
    derivatives come from five; emissions and sinks only touch slots of their own cluster, which the
    pattern always has. So both name the same places, whatever the rates and the state are, and every
    derivative finds its place. -/

namespace ClusterDynamics

variable {α : Type}

/-! ### Touched places -/

namespace Partial

/-- Some contribution goes to the derivative of slot `r` by slot `s`. -/
def Touches (entries : List (Partial α)) (r s : Nat) : Prop := ∃ x ∈ entries, x.row = r ∧ x.column = s

@[simp] theorem touches_nil {r s : Nat} : ¬Touches ([] : List (Partial α)) r s := by simp [Touches]

@[simp] theorem touches_append {l l' : List (Partial α)} {r s : Nat} :
    Touches (l ++ l') r s ↔ Touches l r s ∨ Touches l' r s := by
  simp only [Touches, List.mem_append, or_and_right, exists_or]

@[simp] theorem touches_flatMap {β : Type} {l : List β} {f : β → List (Partial α)} {r s : Nat} :
    Touches (l.flatMap f) r s ↔ ∃ x ∈ l, Touches (f x) r s := by
  simp only [Touches, List.mem_flatMap]
  constructor
  · rintro ⟨y, ⟨x, hx, hy⟩, h⟩
    exact ⟨x, hx, y, hy, h⟩
  · rintro ⟨x, hx, y, hy, h⟩
    exact ⟨y, ⟨x, hx, hy⟩, h⟩

/-- The contributions to one entry, added in their order to a value that is there. -/
def accumulate [Scalar α] (entries : List (Partial α)) (r s : Nat) (value : α) : α :=
  (entries.filter fun x => x.row = r ∧ x.column = s).foldl (fun v x => v + x.value) value

end Partial

namespace Network

open Partial

variable {c other moments : Cluster α} {r s : Nat}

theorem mem_slotsOf {c : Cluster α} {t : Nat} : t ∈ slotsOf c ↔ ∃ j, (j, t) ∈ c.slots := by
  simp [slotsOf]

theorem id_mem_slotsOf (c : Cluster α) : c.id ∈ slotsOf c :=
  mem_slotsOf.mpr ⟨0, Cluster.mem_slots.mpr rfl⟩

theorem touches_blockPartials {f : BasisIndex → BasisIndex → α} :
    Touches (blockPartials c other f) r s ↔ r ∈ slotsOf c ∧ s ∈ slotsOf other := by
  simp only [Touches, blockPartials, List.mem_flatMap, List.mem_map, mem_slotsOf]
  constructor
  · rintro ⟨x, ⟨row, hrow, column, hcolumn, rfl⟩, rfl, rfl⟩
    exact ⟨⟨row.1, hrow⟩, column.1, hcolumn⟩
  · rintro ⟨⟨i, hr⟩, j, hs⟩
    exact ⟨_, ⟨_, hr, _, hs, rfl⟩, rfl, rfl⟩

theorem touches_productPartials {single : Nat} {f : BasisIndex → α} {g : BasisIndex → BasisIndex → α} :
    Touches (productPartials c single moments f g) r s ↔
      r ∈ slotsOf c ∧ (s = single ∨ s ∈ slotsOf moments) := by
  simp only [Touches, productPartials, List.mem_flatMap, List.mem_cons, List.mem_map, mem_slotsOf]
  constructor
  · rintro ⟨x, ⟨row, hrow, rfl | ⟨column, hcolumn, rfl⟩⟩, rfl, rfl⟩
    · exact ⟨⟨row.1, hrow⟩, .inl rfl⟩
    · exact ⟨⟨row.1, hrow⟩, .inr ⟨column.1, hcolumn⟩⟩
  · rintro ⟨⟨i, hr⟩, rfl | ⟨j, hs⟩⟩
    · exact ⟨_, ⟨_, hr, .inl rfl⟩, rfl, rfl⟩
    · exact ⟨_, ⟨_, hr, .inr ⟨_, hs, rfl⟩⟩, rfl, rfl⟩

theorem exists_mem_slotsOf {n : Network α} (S : n.toPopulation.Sound) {t : Nat} (h : t < n.dof) :
    ∃ c ∈ n.clusters, t ∈ slotsOf c := by
  obtain ⟨c, hc, ht⟩ := List.mem_flatMap.mp (S.slots.mem_iff.mpr (List.mem_range.mpr h))
  exact ⟨c, Array.mem_toList_iff.mp hc, ht⟩

theorem length_patternRows (clusters : Array (Cluster α)) (links : Array (Links α)) (dof : Nat) :
    (patternRows clusters links dof).toList.length = dof := by
  rw [patternRows_eq, Array.length_toList, State.size_putAll, Array.size_replicate]

section
variable [Scalar α] {n : Network α} {k : RateConstants α} {state : Array α}

theorem touches_productionPartials {x : Record Couple α} {first : Cluster α}
    (h : n.clusters[x.participants.first]? = some first) :
    Touches (n.productionPartials k state c x) r s ↔
      r ∈ slotsOf c ∧ (s = x.participants.second ∨ s ∈ slotsOf first) := by
  simp only [productionPartials, h, touches_productPartials]

theorem touches_combinationPartials {x : Record Nat α} :
    Touches (n.combinationPartials k state c x) r s ↔
      r ∈ slotsOf c ∧ (s = (n.combinationOperands c x.participants).2.id ∨
        s ∈ slotsOf (n.combinationOperands c x.participants).1) := by
  simp only [combinationPartials, touches_productPartials]

theorem touches_dissociationPartials {x : Record Nat α} :
    Touches (n.dissociationPartials k c x) r s ↔
      r ∈ slotsOf c ∧ s ∈ (n.clusters[x.participants]?.map slotsOf).getD [] := by
  unfold dissociationPartials
  cases n.clusters[x.participants]? with
  | none => simp
  | some parent => simp [touches_blockPartials]

theorem touches_emissionPartials {x : Record Couple α} (h : Touches (emissionPartials k c x) r s) :
    r ∈ slotsOf c ∧ s ∈ slotsOf c := touches_blockPartials.mp h

theorem touches_sinkPartials (h : Touches (n.sinkPartials k c) r s) : r ∈ slotsOf c ∧ s ∈ slotsOf c := by
  unfold sinkPartials at h
  split at h
  · obtain ⟨x, hx, rfl, rfl⟩ := h
    obtain ⟨row, hrow, rfl⟩ := List.mem_map.mp hx
    exact ⟨mem_slotsOf.mpr ⟨_, hrow⟩, mem_slotsOf.mpr ⟨_, hrow⟩⟩
  · exact absurd h touches_nil

/-! ### One cluster -/

omit [Scalar α] in
/-- The slots that a combination with a partner depends on. -/
theorem mem_combination_slots {x : Nat} :
    (s ∈ (match n.clusters[x]? with
      | none => []
      | some partner => (groupedFirst c partner).2.id :: slotsOf (groupedFirst c partner).1)) ∨ s ∈ slotsOf c ↔
      (s = (n.combinationOperands c x).2.id ∨ s ∈ slotsOf (n.combinationOperands c x).1) ∨ s ∈ slotsOf c := by
  unfold combinationOperands
  rw [Array.getD_eq_getD_getElem?]
  cases n.clusters[x]? with
  | some partner => simp
  | none =>
    -- An unknown partner is taken for the cluster itself.
    have hself : groupedFirst c c = (c, c) := by simp [groupedFirst]
    simp only [Option.getD_none, hself, List.not_mem_nil, false_or]
    constructor
    · intro h
      exact .inr h
    · rintro ((rfl | h) | h)
      · exact id_mem_slotsOf c
      · exact h
      · exact h

/-- The rows of a cluster are touched at the slots that the pattern lists for it. -/
theorem Built.touches_clusterPartials (hn : n.Built) (hc : c ∈ n.clusters) :
    Touches (n.clusterPartials k state c) r s ↔
      r ∈ slotsOf c ∧ s ∈ influences n.clusters c (n.linksOf c.id) := by
  have hproduction : ∀ x ∈ (n.linksOf c.id).production,
      ∃ first, n.clusters[x.participants.first]? = some first := by
    intro x hx
    obtain ⟨_, g, hg, _, _, _, _, _, rfl⟩ := (hn.mem_production hc).mp hx
    exact ⟨g, hn.sound.getElem?_id hg⟩
  simp only [clusterPartials, recordPartials, ownPartials, influences, touches_append, touches_flatMap, List.mem_append,
    List.mem_flatMap, touches_blockPartials, touches_combinationPartials, touches_dissociationPartials]
  constructor
  · rintro (((((⟨hr, hs⟩ | ⟨x, hx, h⟩) | ⟨x, hx, hr, h⟩) | ⟨x, hx, hr, h⟩) | ⟨x, -, h⟩) | h)
    · exact ⟨hr, .inl (.inl (.inl hs))⟩
    · obtain ⟨first, hfirst⟩ := hproduction x hx
      obtain ⟨hr, h⟩ := (touches_productionPartials hfirst).mp h
      exact ⟨hr, .inl (.inl (.inr ⟨x, hx, by simpa [hfirst] using h⟩))⟩
    · rcases mem_combination_slots.mpr (.inl h) with h | h
      · exact ⟨hr, .inl (.inr ⟨x, hx, h⟩)⟩
      · exact ⟨hr, .inl (.inl (.inl h))⟩
    · exact ⟨hr, .inr ⟨x, hx, h⟩⟩
    · obtain ⟨hr, hs⟩ := touches_emissionPartials h
      exact ⟨hr, .inl (.inl (.inl hs))⟩
    · obtain ⟨hr, hs⟩ := touches_sinkPartials h
      exact ⟨hr, .inl (.inl (.inl hs))⟩
  · rintro ⟨hr, ((hs | ⟨x, hx, h⟩) | ⟨x, hx, h⟩) | ⟨x, hx, h⟩⟩
    · exact .inl (.inl (.inl (.inl (.inl ⟨hr, hs⟩))))
    · obtain ⟨first, hfirst⟩ := hproduction x hx
      refine .inl (.inl (.inl (.inl (.inr ⟨x, hx, (touches_productionPartials hfirst).mpr ⟨hr, ?_⟩⟩))))
      simpa [hfirst] using h
    · rcases mem_combination_slots.mp (.inl h) with h | h
      · exact .inl (.inl (.inl (.inr ⟨x, hx, hr, h⟩)))
      · exact .inl (.inl (.inl (.inl (.inl ⟨hr, h⟩))))
    · exact .inl (.inl (.inr ⟨x, hx, hr, h⟩))

/-! ### All clusters -/

/-- The pattern has the slots that the rows of each cluster depend on, and no other entries. -/
theorem Built.mem_entries (hn : n.Built) :
    (r, s) ∈ n.sparsity.entries ↔
      ∃ c ∈ n.clusters, r ∈ slotsOf c ∧ s ∈ influences n.clusters c (n.linksOf c.id) := by
  rw [hn.sparsity, SparsityPattern.mem_entries]
  constructor
  · rintro ⟨row, hrow, hs⟩
    obtain ⟨hlt, -⟩ := List.getElem?_eq_some_iff.mp hrow
    rw [length_patternRows] at hlt
    obtain ⟨c, hc, hr⟩ := exists_mem_slotsOf hn.sound hlt
    obtain ⟨j, hj⟩ := mem_slotsOf.mp hr
    rw [getElem?_patternRows hn.sound hc hj] at hrow
    cases hrow
    exact ⟨c, hc, hr, SparsityPattern.mem_normalize.mp hs⟩
  · rintro ⟨c, hc, hr, hs⟩
    obtain ⟨j, hj⟩ := mem_slotsOf.mp hr
    exact ⟨_, getElem?_patternRows hn.sound hc hj, SparsityPattern.mem_normalize.mpr hs⟩

theorem Built.row?_eq_some (hn : n.Built) (hc : c ∈ n.clusters) (hr : r ∈ slotsOf c) :
    n.sparsity.row? r = some (connectivityOf n.clusters c (n.linksOf c.id)) := by
  obtain ⟨j, hj⟩ := mem_slotsOf.mp hr
  rw [hn.sparsity, SparsityPattern.row?_ofRows, List.getElem?_map, getElem?_patternRows hn.sound hc hj,
    Option.map_some]
  -- The columns of a cluster are in ascending order already.
  exact congrArg some (SparsityPattern.normalize_normalize _)

theorem Built.position?_isSome_iff (hn : n.Built) :
    (n.sparsity.position? r s).isSome = true ↔ (r, s) ∈ n.sparsity.entries := by
  rw [hn.sparsity, SparsityPattern.position?_isSome, SparsityPattern.mem_entries]

theorem Built.touches_iff (hn : n.Built) :
    Touches (n.clusters.toList.flatMap (n.clusterPartials k state)) r s ↔ (r, s) ∈ n.sparsity.entries := by
  rw [hn.mem_entries, touches_flatMap]
  constructor
  · rintro ⟨c, hc, h⟩
    have hc := Array.mem_toList_iff.mp hc
    exact ⟨c, hc, (hn.touches_clusterPartials hc).mp h⟩
  · rintro ⟨c, hc, h⟩
    exact ⟨c, Array.mem_toList_iff.mpr hc, (hn.touches_clusterPartials hc).mpr h⟩

/-! ### Storage -/

theorem visitCluster_eq_ok (h : n.lacks k c = false) {σ : Type} (visit : σ → Partial α → σ) (s : σ) :
    n.visitCluster k state visit s c = .ok ((n.clusterPartials k state c).foldl visit s) := by
  rw [visitCluster, checkDiffusion_eq_ok h, clusterPartials, List.foldl_append]
  rfl

theorem size_foldl_addPartial (pattern : SparsityPattern) (l : List (Partial α)) (values : Array α) :
    (l.foldl (addPartial pattern) values).size = values.size := by
  induction l generalizing values with
  | nil => rfl
  | cons x l ih =>
    rw [List.foldl_cons, ih, addPartial]
    cases pattern.position? x.row x.column with
    | none => rfl
    | some i => exact Array.size_modify

/-- Each place of a pattern collects the contributions to its entry. -/
theorem value_foldl_addPartial {pattern : SparsityPattern}
    (hinj : ∀ {r t c d i}, pattern.position? r c = some i → pattern.position? t d = some i → r = t ∧ c = d)
    {i : Nat} (h : pattern.position? r s = some i) (l : List (Partial α)) {values : Array α}
    (hi : i < values.size) :
    State.value (l.foldl (addPartial pattern) values) i = accumulate l r s (State.value values i) := by
  induction l generalizing values with
  | nil => rfl
  | cons x l ih =>
    have hsize : (addPartial pattern values x).size = values.size := size_foldl_addPartial pattern [x] values
    rw [List.foldl_cons, ih (hsize ▸ hi), accumulate, accumulate]
    by_cases hx : x.row = r ∧ x.column = s
    · have hstep : State.value (addPartial pattern values x) i = State.value values i + x.value := by
        rw [addPartial, hx.1, hx.2, h]
        exact State.value_modify_self hi _
      rw [List.filter_cons_of_pos (by simpa using hx), List.foldl_cons, hstep]
    · have hstep : State.value (addPartial pattern values x) i = State.value values i := by
        unfold addPartial
        cases hpos : pattern.position? x.row x.column with
        | none => rfl
        | some j => exact State.value_modify_of_ne (fun hji => hx (hinj (hji ▸ hpos) h)) _
      rw [List.filter_cons_of_neg (by simpa using hx), hstep]

/-! ### Every network -/

/-- Matching inputs are visited to the end, cluster after cluster. -/
theorem visitPartials_eq_ok (S : n.toPopulation.Sound) (hk : k.Fits n) (hs : state.size = n.dof) {σ : Type}
    (visit : σ → Partial α → σ) (s : σ) : n.visitPartials k state visit s =
      .ok ((n.clusters.toList.flatMap (n.clusterPartials k state)).foldl visit s) := by
  rw [visitPartials, checkInputs_eq_ok hk hs, ← Array.foldlM_toList, List.foldl_flatMap]
  exact foldlM_eq_ok s fun c hc s => visitCluster_eq_ok (lacks_eq_false S hk (Array.mem_toList_iff.mp hc)) visit s

theorem partials_eq_ok (S : n.toPopulation.Sound) (hk : k.Fits n) (hs : state.size = n.dof) :
    n.partials k state = .ok (n.clusters.toList.flatMap (n.clusterPartials k state)) := by
  rw [partials, visitPartials_eq_ok S hk hs]
  refine congrArg Except.ok ?_
  rw [List.foldl_push_eq_append', Array.toList_append, List.nil_append]

theorem addJacobian_eq_ok (S : n.toPopulation.Sound) (hk : k.Fits n) (hs : state.size = n.dof) {values : Array α}
    (hv : values.size = n.sparsity.size) : n.addJacobian k state values =
      .ok ((n.clusters.toList.flatMap (n.clusterPartials k state)).foldl (addPartial n.sparsity) values) := by
  rw [addJacobian, checkSize, if_pos hv]
  exact visitPartials_eq_ok S hk hs (addPartial n.sparsity) values

/-- The pattern has the entries that the listed derivatives touch, and no others. -/
structure PatternExact (n : Network α) : Prop where
  /-- Whatever the rates and the state, each entry is touched and each derivative finds its place. -/
  touched : ∀ (k : RateConstants α) (state : Array α), k.Fits n → state.size = n.dof →
    ∃ entries, n.partials k state = .ok entries ∧
      (∀ r s, Touches entries r s ↔ (r, s) ∈ n.sparsity.entries) ∧
      ∀ x ∈ entries, (n.sparsity.position? x.row x.column).isSome = true
  /-- Each place is given all derivatives of its entry, in their order. -/
  stored : ∀ (k : RateConstants α) (state values : Array α), k.Fits n → state.size = n.dof →
    values.size = n.sparsity.size →
      ∃ entries values', n.partials k state = .ok entries ∧ n.addJacobian k state values = .ok values' ∧
        values'.size = values.size ∧ ∀ r s i, n.sparsity.position? r s = some i →
          State.value values' i = accumulate entries r s (State.value values i)
  /-- The rows of a cluster have the same ascending columns, its own slots among them. -/
  rows : ∀ c ∈ n.clusters, ∃ columns : List Nat, columns.Pairwise (· < ·) ∧
    ∀ t ∈ slotsOf c, t ∈ columns ∧ n.sparsity.row? t = some columns

/-- The static pattern of every finished network is exactly what its Jacobian touches. -/
theorem patternExact_of_finish {params : NetworkParams α} {material : Material α} {b : Builder α}
    (hb : b.Reachable params material) (hfinish : b.finish = .ok n) : n.PatternExact := by
  obtain ⟨hn, -⟩ := built_of_finish hb hfinish
  refine ⟨?_, ?_, ?_⟩
  · intro k state hk hs
    refine ⟨_, partials_eq_ok hn.sound hk hs, fun r s => hn.touches_iff, ?_⟩
    intro x hx
    exact hn.position?_isSome_iff.mpr (hn.touches_iff.mp ⟨x, hx, rfl, rfl⟩)
  · intro k state values hk hs hv
    refine ⟨_, _, partials_eq_ok hn.sound hk hs, addJacobian_eq_ok hn.sound hk hs hv,
      size_foldl_addPartial n.sparsity _ values, ?_⟩
    intro r s i hi
    exact value_foldl_addPartial hn.position?_injective hi _ (hv ▸ hn.position?_lt hi)
  · intro c hc
    refine ⟨connectivityOf n.clusters c (n.linksOf c.id), SparsityPattern.pairwise_normalize _, ?_⟩
    intro t ht
    have hown : t ∈ influences n.clusters c (n.linksOf c.id) := by simp [influences, ht]
    exact ⟨SparsityPattern.mem_normalize.mpr hown, hn.row?_eq_some hc ht⟩

end

/-- The small network, in which all five lists of records have members. -/
theorem chain_patternExact : ∃ n, Chain.builder.finish = .ok n ∧ n.PatternExact := by
  obtain ⟨n, hn, -⟩ := Chain.finish_ok
  exact ⟨n, hn, patternExact_of_finish Chain.reachable hn⟩

end Network
end ClusterDynamics
