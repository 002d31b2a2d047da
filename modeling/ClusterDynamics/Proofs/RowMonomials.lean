import ClusterDynamics.Proofs.Monomial
import ClusterDynamics.Proofs.Rows

/-! The flux of a row as a sum of monomials in the state. A production multiplies a concentration with the
    moments of another cluster, a dissociation is linear in the moments of its parent; the slots that
    occur are those that influence the cluster. -/

namespace ClusterDynamics

variable {K : Type}

/-! ### Products and combinations -/

namespace Network

/-- A concentration times a combination of the moments of another cluster. -/
def productMonomials (single : Nat) (moments : Cluster K) (f : BasisIndex → K) : List (Monomial K) :=
  moments.slots.map fun column => .product (f column.1) single column.2

/-- A combination of the moments of a cluster. -/
def linearMonomials (moments : Cluster K) (f : BasisIndex → K) : List (Monomial K) :=
  moments.slots.map fun column => .linear (f column.1) column.2

theorem slots_productMonomials {single : Nat} {moments : Cluster K} {f : BasisIndex → K}
    {m : Monomial K} (hm : m ∈ productMonomials single moments f) {t : Nat} (ht : t ∈ m.slots) :
    t = single ∨ t ∈ slotsOf moments := by
  obtain ⟨column, hcolumn, rfl⟩ := List.mem_map.mp hm
  rcases List.mem_pair.mp ht with rfl | rfl
  · exact .inl rfl
  · exact .inr (List.mem_map.mpr ⟨column, hcolumn, rfl⟩)

theorem slots_linearMonomials {moments : Cluster K} {f : BasisIndex → K} {m : Monomial K}
    (hm : m ∈ linearMonomials moments f) {t : Nat} (ht : t ∈ m.slots) : t ∈ slotsOf moments := by
  obtain ⟨column, hcolumn, rfl⟩ := List.mem_map.mp hm
  rw [List.mem_singleton.mp ht]
  exact List.mem_map.mpr ⟨column, hcolumn, rfl⟩

variable [Field K] [LinearOrder K]

/-- A row of a matrix times the moments of a cluster, slot by slot. -/
theorem get_mulVec_gather (m : MomentMatrix K) (state : Array K) (c : Cluster K) (j : BasisIndex) :
    (m.mulVec (State.gather state c)).get j =
      (c.slots.map fun column => m.entry j column.1 * State.value state column.2).sum := by
  have hbasis : ∀ f : BasisIndex → K, ∑ i, f i = (basisIndices.map f).sum := fun f => by
    rw [Fin.sum_univ_five]
    simp [basisIndices, add_assoc]
  rw [MomentMatrix.get_mulVec, Moment.dot_eq_sum, hbasis, Cluster.slots, sum_map_filterMap]
  refine congrArg List.sum (List.map_congr_left fun i _ => ?_)
  rw [State.gather, get_ofFn]
  cases c.slot? i.val with
  | none => simp
  | some slot => rfl

theorem sumValue_productMonomials (m : MomentMatrix K) (single : Nat) (moments : Cluster K) (t : K)
    (state : Array K) (j : BasisIndex) :
    Monomial.sumValue (State.value state) (productMonomials single moments fun i => t * m.entry j i) =
      (m.mulVec (State.gather state moments)).get j * (t * State.value state single) := by
  rw [get_mulVec_gather, ← List.sum_map_mul_right, productMonomials, Monomial.sumValue, List.map_map]
  refine congrArg List.sum (List.map_congr_left fun column _ => ?_)
  rw [Function.comp_apply, Monomial.value]
  ring

theorem sumValue_linearMonomials (m : MomentMatrix K) (moments : Cluster K) (t : K) (state : Array K)
    (j : BasisIndex) :
    Monomial.sumValue (State.value state) (linearMonomials moments fun i => t * m.entry j i) =
      (m.mulVec (State.gather state moments)).get j * t := by
  rw [get_mulVec_gather, ← List.sum_map_mul_right, linearMonomials, Monomial.sumValue, List.map_map]
  refine congrArg List.sum (List.map_congr_left fun column _ => ?_)
  rw [Function.comp_apply, Monomial.value]
  ring

/-! ### Monomials of a row -/

variable (n : Network K) (k : RateConstants K)

/-- What a production record adds to row `j`. -/
def productionMonomials (j : BasisIndex) (r : Record Couple K) : List (Monomial K) :=
  match n.clusters[r.participants.first]? with
  | none => []
  | some first =>
    productMonomials r.participants.second first fun i => k.rate r.reaction * r.coefs.entry j i

/-- What a combination record takes from row `j` of a cluster. -/
def combinationMonomials (c : Cluster K) (j : BasisIndex) (r : Record Nat K) : List (Monomial K) :=
  productMonomials (n.combinationOperands c r.participants).2.id
    (n.combinationOperands c r.participants).1 fun i => -k.rate r.reaction * r.coefs.entry j i

/-- What a dissociation record adds to row `j`. -/
def dissociationMonomials (j : BasisIndex) (r : Record Nat K) : List (Monomial K) :=
  match n.clusters[r.participants]? with
  | none => []
  | some parent => linearMonomials parent fun i => k.rate r.reaction * r.coefs.entry j i

/-- What an emission record takes from row `j` of a cluster. -/
def emissionMonomials (c : Cluster K) (j : BasisIndex) (r : Record Couple K) : List (Monomial K) :=
  linearMonomials c fun i => -k.rate r.reaction * r.coefs.entry j i

/-- What the sink takes from a slot of a cluster. -/
def sinkMonomials (c : Cluster K) (slot : Nat) : List (Monomial K) :=
  if 0 < n.sinkOf c.id then [.linear (-(n.sinkOf c.id * (k.diffusion? c.id).getD 0)) slot] else []

/-- The rate of change of a row, as a sum of monomials. -/
def rowMonomials (c : Cluster K) (row : BasisIndex × Nat) : List (Monomial K) :=
  (n.linksOf c.id).production.flatMap (n.productionMonomials k row.1) ++
    (n.linksOf c.id).combining.flatMap (n.combinationMonomials k c row.1) ++
    (n.linksOf c.id).dissociating.flatMap (n.dissociationMonomials k row.1) ++
    (n.linksOf c.id).emission.flatMap (emissionMonomials k c row.1) ++ n.sinkMonomials k c row.2

variable {n k} {state : Array K} {c : Cluster K}

theorem sumValue_productionMonomials (j : BasisIndex) (r : Record Couple K) :
    Monomial.sumValue (State.value state) (n.productionMonomials k j r) =
      n.productionRow k state j r := by
  rw [productionMonomials, productionRow, gather]
  cases n.clusters[r.participants.first]? with
  | none => simp [Monomial.sumValue, Moment.dot_eq_sum, MomentVector.get_zero]
  | some first => exact sumValue_productMonomials _ _ _ _ _ _

theorem sumValue_combinationMonomials (j : BasisIndex) (r : Record Nat K) :
    Monomial.sumValue (State.value state) (n.combinationMonomials k c j r) =
      n.combinationRow k state c j r := by
  rw [combinationMonomials, combinationRow, sumValue_productMonomials]
  ring

theorem sumValue_dissociationMonomials (j : BasisIndex) (r : Record Nat K) :
    Monomial.sumValue (State.value state) (n.dissociationMonomials k j r) =
      n.dissociationRow k state j r := by
  rw [dissociationMonomials, dissociationRow, gather]
  cases n.clusters[r.participants]? with
  | none => simp [Monomial.sumValue, Moment.dot_eq_sum, MomentVector.get_zero]
  | some parent => exact sumValue_linearMonomials _ _ _ _ _

theorem sumValue_emissionMonomials (j : BasisIndex) (r : Record Couple K) :
    Monomial.sumValue (State.value state) (emissionMonomials k c j r) = emissionRow k state c j r := by
  rw [emissionMonomials, emissionRow, sumValue_linearMonomials]
  ring

theorem sumValue_sinkMonomials {row : BasisIndex × Nat} (hrow : row ∈ c.slots) :
    Monomial.sumValue (State.value state) (n.sinkMonomials k c row.2) =
      (n.sinkTerm k state c).get row.1 := by
  rw [sinkMonomials, sinkTerm]
  split_ifs
  · rw [MomentVector.get_sub, MomentVector.get_zero, MomentVector.get_scale, State.get_gather hrow,
      Monomial.sumValue, List.map_cons, List.map_nil, List.sum_cons, List.sum_nil, Monomial.value]
    ring
  · exact (MomentVector.get_zero _).symm

/-- The flux of a row is the value of its monomials. -/
theorem sumValue_rowMonomials {row : BasisIndex × Nat} (hrow : row ∈ c.slots) :
    Monomial.sumValue (State.value state) (n.rowMonomials k c row) =
      (n.terms k state c).total.get row.1 := by
  simp only [rowMonomials, Monomial.sumValue_append, Monomial.sumValue_flatMap,
    sumValue_productionMonomials, sumValue_combinationMonomials,
    sumValue_dissociationMonomials, sumValue_emissionMonomials, sumValue_sinkMonomials hrow,
    FluxTerms.total, MomentVector.get_add, terms, get_productionTerm, get_combinationTerm,
    get_dissociationTerm, get_emissionTerm]

/-! ### Slots of a row -/

/-- A row depends on the slots that the pattern lists for its cluster. -/
theorem mem_influences {row : BasisIndex × Nat} (hrow : row ∈ c.slots) {m : Monomial K}
    (hm : m ∈ n.rowMonomials k c row) {t : Nat} (ht : t ∈ m.slots) :
    t ∈ influences n.clusters c (n.linksOf c.id) := by
  have hid : c.id ∈ slotsOf c := List.mem_map.mpr ⟨(0, c.id), Cluster.mem_slots.mpr rfl, rfl⟩
  simp only [influences, List.mem_append, List.mem_flatMap]
  simp only [rowMonomials, List.mem_append, List.mem_flatMap] at hm
  rcases hm with (((⟨x, hx, hm⟩ | ⟨x, hx, hm⟩) | ⟨x, hx, hm⟩) | ⟨x, hx, hm⟩) | hm
  · refine .inl (.inl (.inr ⟨x, hx, ?_⟩))
    unfold productionMonomials at hm
    cases hfirst : n.clusters[x.participants.first]? with
    | none => simp [hfirst] at hm
    | some first =>
      rw [hfirst] at hm
      exact List.mem_cons.mpr (slots_productMonomials hm ht)
  · have hcase := slots_productMonomials hm ht
    unfold combinationOperands at hcase
    cases hpartner : n.clusters[x.participants]? with
    | none =>
      -- An unknown partner is taken for the cluster itself.
      refine .inl (.inl (.inl ?_))
      rw [Array.getD_eq_getD_getElem?, hpartner, Option.getD_none, groupedFirst, ite_self] at hcase
      exact hcase.elim (fun h => h ▸ hid) id
    | some partner =>
      refine .inl (.inr ⟨x, hx, ?_⟩)
      rw [Array.getD_eq_getD_getElem?, hpartner, Option.getD_some] at hcase
      rw [hpartner]
      exact List.mem_cons.mpr hcase
  · refine .inr ⟨x, hx, ?_⟩
    unfold dissociationMonomials at hm
    cases hparent : n.clusters[x.participants]? with
    | none => simp [hparent] at hm
    | some parent =>
      rw [hparent] at hm
      exact slots_linearMonomials hm ht
  · exact .inl (.inl (.inl (slots_linearMonomials hm ht)))
  · refine .inl (.inl (.inl ?_))
    unfold sinkMonomials at hm
    split_ifs at hm
    · rw [List.mem_singleton.mp hm] at ht
      rw [List.mem_singleton.mp ht]
      exact List.mem_map.mpr ⟨row, hrow, rfl⟩
    · exact absurd hm List.not_mem_nil

end Network
end ClusterDynamics
