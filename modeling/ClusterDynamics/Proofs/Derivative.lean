import ClusterDynamics.Jacobian
import ClusterDynamics.Proofs.RowMonomials
import ClusterDynamics.Proofs.Touched

/-! The Jacobian is the derivative of the flux. The listed partial derivatives of a row are the derivatives
    of its monomials, and their slots are those of the sparsity pattern, so nothing is lost when they
    are added up in it. -/

namespace ClusterDynamics

variable {K : Type} [Field K]

/-! ### Sums of entries -/

/-- The sum of all contributions to the derivative of slot `r` by slot `s`. -/
def Partial.sumAt (entries : List (Partial K)) (r s : Nat) : K :=
  (entries.map fun x => if x.row = r ∧ x.column = s then x.value else 0).sum

/-- The sum over the rows of a cluster that are stored in slot `r`. -/
def Cluster.sumRows (c : Cluster K) (r : Nat) (f : BasisIndex × Nat → K) : K :=
  (c.slots.map fun row => if row.2 = r then f row else 0).sum

theorem Cluster.sumRows_add (c : Cluster K) (r : Nat) (f g : BasisIndex × Nat → K) :
    c.sumRows r (fun row => f row + g row) = c.sumRows r f + c.sumRows r g := by
  rw [sumRows, sumRows, sumRows, ← List.sum_map_add]
  refine congrArg List.sum (List.map_congr_left fun row _ => ?_)
  split_ifs
  · rfl
  · rw [add_zero]

theorem Cluster.sumRows_zero (c : Cluster K) (r : Nat) : (c.sumRows r fun _ => 0) = 0 := by
  simp [sumRows]

theorem Cluster.sumRows_sum {β : Type} (c : Cluster K) (r : Nat) (l : List β)
    (f : β → BasisIndex × Nat → K) :
    (l.map fun x => c.sumRows r (f x)).sum = c.sumRows r fun row => (l.map fun x => f x row).sum := by
  induction l with
  | nil => exact (c.sumRows_zero r).symm
  | cons x l ih => simp only [List.map_cons, List.sum_cons, ih, sumRows_add]

namespace Partial

variable (r s : Nat)

theorem sumAt_append (l l' : List (Partial K)) : sumAt (l ++ l') r s = sumAt l r s + sumAt l' r s := by
  rw [sumAt, List.map_append, List.sum_append, sumAt, sumAt]

theorem sumAt_flatMap {β : Type} (l : List β) (f : β → List (Partial K)) :
    sumAt (l.flatMap f) r s = (l.map fun x => sumAt (f x) r s).sum := by
  rw [sumAt, sum_map_flatMap]
  rfl

theorem sumAt_row {l : List (Partial K)} {r s t : Nat} (h : ∀ x ∈ l, x.row = t) :
    sumAt l r s = if t = r then (l.map fun x => if x.column = s then x.value else 0).sum else 0 := by
  split_ifs with ht
  · refine congrArg List.sum (List.map_congr_left fun x hx => ?_)
    rw [h x hx, ht]
    simp only [true_and]
  · refine List.sum_eq_zero fun z hz => ?_
    obtain ⟨x, hx, rfl⟩ := List.mem_map.mp hz
    exact if_neg fun hrow => ht ((h x hx).symm.trans hrow.1)

/-- Exact contributions may be added up before they are stored. -/
theorem accumulate_eq_add_sumAt [LinearOrder K] (l : List (Partial K)) (value : K) :
    accumulate l r s value = value + sumAt l r s := by
  induction l generalizing value with
  | nil => simp [accumulate, sumAt]
  | cons x l ih =>
    have hsum : sumAt (x :: l) r s = (if x.row = r ∧ x.column = s then x.value else 0) + sumAt l r s := rfl
    rw [hsum, ← add_assoc, ← ih]
    by_cases hx : x.row = r ∧ x.column = s
    · rw [if_pos hx, accumulate, List.filter_cons_of_pos (by simpa using hx), List.foldl_cons, accumulate]
    · rw [if_neg hx, add_zero, accumulate, List.filter_cons_of_neg (by simpa using hx), accumulate]

end Partial

/-! ### Monomials of one record -/

namespace Network

open Partial

theorem sumDerivative_linearMonomials (moments : Cluster K) (f : BasisIndex → K) (x : Nat → K)
    (s : Nat) :
    Monomial.sumDerivative x s (linearMonomials moments f) =
      (moments.slots.map fun column => if column.2 = s then f column.1 else 0).sum := by
  rw [linearMonomials, Monomial.sumDerivative, List.map_map]
  rfl

theorem sumAt_productPartials (c : Cluster K) (single : Nat) (moments : Cluster K)
    (f : BasisIndex → K) (g : BasisIndex → BasisIndex → K) (r s : Nat) :
    sumAt (productPartials c single moments f g) r s = c.sumRows r fun row =>
      (if single = s then f row.1 else 0) +
        (moments.slots.map fun column => if column.2 = s then g row.1 column.1 else 0).sum := by
  rw [productPartials, sumAt_flatMap]
  refine congrArg List.sum (List.map_congr_left fun row _ => ?_)
  rw [sumAt_row (t := row.2)]
  · rw [List.map_cons, List.sum_cons, List.map_map]
    rfl
  · intro x hx
    rcases List.mem_cons.mp hx with rfl | hx
    · rfl
    · obtain ⟨column, -, rfl⟩ := List.mem_map.mp hx
      rfl

theorem sumAt_blockPartials (c other : Cluster K) (g : BasisIndex → BasisIndex → K) (r s : Nat) :
    sumAt (blockPartials c other g) r s = c.sumRows r fun row =>
      (other.slots.map fun column => if column.2 = s then g row.1 column.1 else 0).sum := by
  rw [blockPartials, sumAt_flatMap]
  refine congrArg List.sum (List.map_congr_left fun row _ => ?_)
  rw [sumAt_row (t := row.2), List.map_map]
  · rfl
  · intro x hx
    obtain ⟨column, -, rfl⟩ := List.mem_map.mp hx
    rfl

variable [LinearOrder K]

theorem sumDerivative_productMonomials (m : MomentMatrix K) (single : Nat) (moments : Cluster K) (t : K)
    (state : Array K) (j : BasisIndex) (s : Nat) :
    Monomial.sumDerivative (State.value state) s
        (productMonomials single moments fun i => t * m.entry j i) =
      (if single = s then t * (m.mulVec (State.gather state moments)).get j else 0) +
        (moments.slots.map fun column =>
          if column.2 = s then t * State.value state single * m.entry j column.1 else 0).sum := by
  have hsingle : (if single = s then t * (m.mulVec (State.gather state moments)).get j else 0) =
      (moments.slots.map fun column => if single = s then
        t * m.entry j column.1 * State.value state column.2 else 0).sum := by
    rw [get_mulVec_gather]
    split_ifs
    · rw [← List.sum_map_mul_left]
      simp only [mul_assoc]
    · simp
  rw [hsingle, ← List.sum_map_add, productMonomials, Monomial.sumDerivative, List.map_map]
  refine congrArg List.sum (List.map_congr_left fun column _ => ?_)
  rw [Function.comp_apply, Monomial.derivative]
  congr 1
  split_ifs
  · ring
  · rfl

/-! ### Derivatives of a row -/

variable {n : Network K} {k : RateConstants K} {state : Array K} {c : Cluster K}

section
variable (r s : Nat)

theorem sumAt_productionPartials (x : Record Couple K) :
    sumAt (n.productionPartials k state c x) r s = c.sumRows r fun row =>
      Monomial.sumDerivative (State.value state) s (n.productionMonomials k row.1 x) := by
  unfold productionPartials productionMonomials gather
  cases n.clusters[x.participants.first]? with
  | none => exact (c.sumRows_zero r).symm
  | some first =>
    dsimp only
    rw [sumAt_productPartials]
    simp only [sumDerivative_productMonomials]

theorem sumAt_combinationPartials (x : Record Nat K) :
    sumAt (n.combinationPartials k state c x) r s = c.sumRows r fun row =>
      Monomial.sumDerivative (State.value state) s (n.combinationMonomials k c row.1 x) := by
  unfold combinationPartials combinationMonomials
  dsimp only
  rw [sumAt_productPartials]
  simp only [sumDerivative_productMonomials]

theorem sumAt_dissociationPartials (y : Nat → K) (x : Record Nat K) :
    sumAt (n.dissociationPartials k c x) r s = c.sumRows r fun row =>
      Monomial.sumDerivative y s (n.dissociationMonomials k row.1 x) := by
  unfold dissociationPartials dissociationMonomials
  cases n.clusters[x.participants]? with
  | none => exact (c.sumRows_zero r).symm
  | some parent =>
    dsimp only
    rw [sumAt_blockPartials]
    simp only [sumDerivative_linearMonomials]

theorem sumAt_emissionPartials (y : Nat → K) (x : Record Couple K) :
    sumAt (emissionPartials k c x) r s = c.sumRows r fun row =>
      Monomial.sumDerivative y s (emissionMonomials k c row.1 x) := by
  unfold emissionPartials emissionMonomials
  rw [sumAt_blockPartials]
  simp only [sumDerivative_linearMonomials]

theorem sumAt_sinkPartials (y : Nat → K) :
    sumAt (n.sinkPartials k c) r s = c.sumRows r fun row =>
      Monomial.sumDerivative y s (n.sinkMonomials k c row.2) := by
  unfold sinkPartials sinkMonomials
  split_ifs
  · rw [sumAt, List.map_map]
    refine congrArg List.sum (List.map_congr_left fun row _ => ?_)
    by_cases hr : row.2 = r <;> simp [Monomial.sumDerivative, Monomial.derivative, hr]
  · exact (c.sumRows_zero r).symm

theorem sumAt_ownPartials : sumAt (ownPartials c : List (Partial K)) r s = 0 := by
  rw [ownPartials, sumAt_blockPartials]
  simp [Cluster.sumRows]

/-- The contributions to a row are the derivatives of its monomials. -/
theorem sumAt_clusterPartials :
    sumAt (n.clusterPartials k state c) r s = c.sumRows r fun row =>
      Monomial.sumDerivative (State.value state) s (n.rowMonomials k c row) := by
  simp only [clusterPartials, recordPartials, rowMonomials, sumAt_append, sumAt_flatMap, sumAt_ownPartials, zero_add,
    sumAt_productionPartials, sumAt_combinationPartials,
    sumAt_dissociationPartials r s (State.value state), sumAt_emissionPartials r s (State.value state),
    sumAt_sinkPartials r s (State.value state), Monomial.sumDerivative_append,
    Monomial.sumDerivative_flatMap, Cluster.sumRows_add, Cluster.sumRows_sum]

end

/-! ### All rows -/

/-- The rate of change of slot `r`, as a sum of monomials. -/
def monomials (n : Network K) (k : RateConstants K) (r : Nat) : List (Monomial K) :=
  n.clusters.toList.flatMap fun c =>
    (c.slots.filter fun row => row.2 = r).flatMap (n.rowMonomials k c)

theorem sumAt_partials (r s : Nat) :
    sumAt (n.clusters.toList.flatMap (n.clusterPartials k state)) r s =
      Monomial.sumDerivative (State.value state) s (n.monomials k r) := by
  rw [monomials, sumAt_flatMap, Monomial.sumDerivative_flatMap]
  refine congrArg List.sum (List.map_congr_left fun c _ => ?_)
  rw [sumAt_clusterPartials, Monomial.sumDerivative_flatMap, sum_map_filter]
  simp only [decide_eq_true_eq]
  rfl

/-- Where the pattern has no entry, nothing depends on the slot. -/
theorem notMem_slots (hn : n.Built) {r s : Nat} (h : n.sparsity.position? r s = none) :
    ∀ m ∈ n.monomials k r, s ∉ m.slots := by
  intro m hm hs
  obtain ⟨c, hc, hcluster⟩ := List.mem_flatMap.mp hm
  obtain ⟨row, hfilter, hmem⟩ := List.mem_flatMap.mp hcluster
  obtain ⟨hrow, hslot⟩ := List.mem_filter.mp hfilter
  have hsome := (hn.position?_isSome (Array.mem_toList_iff.mp hc) hrow s).mpr (mem_influences hrow hmem hs)
  rw [of_decide_eq_true hslot, h] at hsome
  exact absurd hsome Bool.false_ne_true

/-! ### What is computed -/

/-- The rate of change of slot `r`. -/
def flux (n : Network K) (k : RateConstants K) (state : Array K) (r : Nat) : K :=
  match n.addFluxes k state (State.zeros n.dof) with
  | .ok out => State.value out r
  | .error _ => 0

/-- The sum of all listed derivatives of slot `r` by slot `s`. -/
def jacobian (n : Network K) (k : RateConstants K) (state : Array K) (r s : Nat) : K :=
  match n.partials k state with
  | .ok entries => sumAt entries r s
  | .error _ => 0

section
variable (S : n.toPopulation.Sound) (hk : k.Fits n) (hs : state.size = n.dof)
include S hk hs

theorem jacobian_eq_sumDerivative (r s : Nat) :
    n.jacobian k state r s = Monomial.sumDerivative (State.value state) s (n.monomials k r) := by
  rw [jacobian, partials_eq_ok S hk hs]
  exact sumAt_partials r s

/-- The flux of a slot is the value of its monomials. -/
theorem flux_eq_sumValue (r : Nat) :
    n.flux k state r = Monomial.sumValue (State.value state) (n.monomials k r) := by
  obtain ⟨out, hout, hsize, hvalue⟩ := addFluxes_eq_ok S hk hs (State.size_zeros n.dof)
  have hrow : ∀ c ∈ n.clusters, ∀ row ∈ c.slots,
      Monomial.sumValue (State.value state) (n.rowMonomials k c row) = State.value out row.2 :=
    fun c hc row hrow => by
      rw [sumValue_rowMonomials hrow, hvalue c hc row hrow, State.value_zeros, zero_add]
  have hslot : Monomial.sumValue (State.value state) (n.monomials k r) =
      ((n.clusters.toList.flatMap slotsOf).map fun t => if t = r then State.value out r else 0).sum := by
    rw [monomials, Monomial.sumValue_flatMap, sum_map_flatMap]
    refine congrArg List.sum (List.map_congr_left fun c hc => ?_)
    rw [Monomial.sumValue_flatMap, sum_map_filter, slotsOf, List.map_map]
    refine congrArg List.sum (List.map_congr_left fun row hmem => ?_)
    simp only [decide_eq_true_eq, Function.comp_apply]
    split_ifs with ht
    · rw [hrow c (Array.mem_toList_iff.mp hc) row hmem, ht]
    · rfl
  rw [flux, hout, hslot, (S.slots.map _).sum_eq]
  dsimp only
  by_cases hr : r < n.dof
  · rw [List.sum_map_eq_nsmul_single r _ fun t ht _ => if_neg ht, if_pos rfl,
      List.count_eq_one_of_mem List.nodup_range (List.mem_range.mpr hr), one_smul]
  · have hzero : State.value out r = 0 := by
      rw [State.value, Array.getD_eq_getD_getElem?, Array.getElem?_eq_none (by omega)]
      rfl
    simp [hzero]

end

/-! ### The derivative -/

/-- The listed derivatives are the derivative of the flux at given rate constants. -/
structure JacobianExact (n : Network K) (k : RateConstants K) : Prop where
  /-- Flux and derivatives are computed at every state. -/
  computed : ∀ state : Array K, state.size = n.dof →
    (∃ out, n.addFluxes k state (State.zeros n.dof) = .ok out) ∧
      ∃ entries, n.partials k state = .ok entries
  /-- Each place of the pattern is given the derivative of its entry. -/
  stored : ∀ state : Array K, state.size = n.dof → ∀ values : Array K, values.size = n.sparsity.size →
    ∃ values', n.addJacobian k state values = .ok values' ∧ values'.size = values.size ∧
      ∀ r s i, n.sparsity.position? r s = some i →
        State.value values' i = State.value values i + n.jacobian k state r s
  /-- Outside the pattern the derivative is zero. -/
  zero_outside : ∀ state : Array K, state.size = n.dof → ∀ r s, n.sparsity.position? r s = none →
    n.jacobian k state r s = 0
  /-- A step of any size to both sides. -/
  central : ∀ state : Array K, state.size = n.dof → ∀ s < n.dof, ∀ (h : K) (r : Nat),
    n.flux k (state.modify s (· + h)) r - n.flux k (state.modify s (· - h)) r =
      2 * h * n.jacobian k state r s
  /-- The flux is a polynomial of degree two at most, and the derivatives are its gradient. -/
  gradient : ∀ r, ∃ f : MvPolynomial Nat K, f.totalDegree ≤ 2 ∧
    ∀ state : Array K, state.size = n.dof →
      n.flux k state r = MvPolynomial.eval (State.value state) f ∧
        ∀ s, n.jacobian k state r s =
          MvPolynomial.eval (State.value state) (MvPolynomial.pderiv s f)
  /-- A slot outside the pattern of a row does not influence the row. -/
  independent : ∀ r s, n.sparsity.position? r s = none → ∀ state state' : Array K,
    state.size = n.dof → state'.size = n.dof →
      (∀ t, t ≠ s → State.value state t = State.value state' t) →
        n.flux k state r = n.flux k state' r

theorem value_modify {s : Nat} (hs : s < state.size) (f : K → K) :
    State.value (state.modify s f) =
      Function.update (State.value state) s (f (State.value state s)) := by
  funext t
  by_cases ht : t = s
  · rw [ht, Function.update_self, State.value_modify_self hs]
  · rw [Function.update_of_ne ht, State.value_modify_of_ne (Ne.symm ht)]

/-- The analytic Jacobian of every finished network is the exact derivative of its flux. -/
theorem jacobianExact_of_finish {params : NetworkParams K} {material : Material K} {b : Builder K}
    (hb : b.Reachable params material) (hfinish : b.finish = .ok n) (hk : k.Fits n) :
    n.JacobianExact k := by
  obtain ⟨hn, -⟩ := built_of_finish hb hfinish
  have S := hn.sound
  exact {
    computed := fun state hs => by
      obtain ⟨out, hout, -⟩ := addFluxes_eq_ok S hk hs (State.size_zeros n.dof)
      exact ⟨⟨out, hout⟩, _, partials_eq_ok S hk hs⟩
    stored := fun state hs values hv => by
      refine ⟨_, addJacobian_eq_ok S hk hs hv, size_foldl_addPartial n.sparsity
        (n.clusters.toList.flatMap (n.clusterPartials k state)) values, fun r s i hi => ?_⟩
      rw [jacobian, partials_eq_ok S hk hs,
        value_foldl_addPartial hn.position?_injective hi _ (hv ▸ hn.position?_lt hi), accumulate_eq_add_sumAt]
    zero_outside := fun state hs r s h => by
      rw [jacobian_eq_sumDerivative S hk hs]
      exact Monomial.sumDerivative_eq_zero (notMem_slots hn h) _
    central := fun state hs s hlt h r => by
      rw [← hs] at hlt
      rw [flux_eq_sumValue S hk (by rwa [Array.size_modify]),
        flux_eq_sumValue S hk (by rwa [Array.size_modify]), value_modify hlt, value_modify hlt,
        Monomial.sumValue_update_sub, jacobian_eq_sumDerivative S hk hs]
    gradient := fun r => by
      refine ⟨Monomial.sumPolynomial (n.monomials k r), Monomial.totalDegree_sumPolynomial _,
        fun state hs => ⟨?_, fun s => ?_⟩⟩
      · rw [flux_eq_sumValue S hk hs, Monomial.eval_sumPolynomial]
      · rw [jacobian_eq_sumDerivative S hk hs, Monomial.eval_pderiv_sumPolynomial]
    independent := fun r s h state state' hs hs' heq => by
      rw [flux_eq_sumValue S hk hs, flux_eq_sumValue S hk hs']
      refine Monomial.sumValue_congr fun m hm t ht => heq t fun hts => ?_
      exact notMem_slots hn h m hm (hts ▸ ht) }

/-- The small network, with products of concentrations, moments and a sink. -/
theorem chain_jacobianExact : ∃ n, Chain.builder.finish = .ok n ∧ Chain.constants.Fits n ∧
    n.JacobianExact Chain.constants := by
  obtain ⟨n, hn, hc, -, hr, -⟩ := Chain.finish_ok
  have hk := Chain.constants_fit hc hr
  exact ⟨n, hn, hk, jacobianExact_of_finish Chain.reachable hn hk⟩

end Network
end ClusterDynamics
