import ClusterDynamics.Proofs.Derivative
import ClusterDynamics.Proofs.Influence
import ClusterDynamics.Proofs.RoundTrip
import ClusterDynamics.Proofs.TwinRows

/-! The order of seeds does not matter. Networks of the same seeds are one system of equations in two
    numberings: slots correspond when they belong to the same basis function of the same region, and with
    exact arithmetic fluxes and derivatives are equal at corresponding slots, for every temperature and
    every state. -/

namespace ClusterDynamics

namespace Network

/-! ### One system in two numberings -/

section
variable {α : Type}

/-- Values in the order of two patterns are equal where the entries correspond. -/
structure RelabelsEntries [Scalar α] (n n' : Network α) (v v' : Array α) : Prop where
  size : v.size = n.sparsity.size
  size' : v'.size = n'.sparsity.size
  value : ∀ r r' s s' i i', n.Corresponds n' r r' → n.Corresponds n' s s' →
    n.sparsity.position? r s = some i → n'.sparsity.position? r' s' = some i' →
      State.value v i = State.value v' i'

/-- Two networks are the same but for the numbers of their slots. -/
structure SameSystem [Analytic α] (n n' : Network α) : Prop where
  dof_eq : n.dof = n'.dof
  /-- The slots of both networks correspond one to one. -/
  forth : ∀ s < n.dof, ∃! s', n.Corresponds n' s s'
  back : ∀ s' < n'.dof, ∃! s, n.Corresponds n' s s'
  /-- Every state has one counterpart. -/
  states : ∀ x : Array α, x.size = n.dof → ∃! x', n.Relabels n' x x'
  pattern : ∀ r r' s s', n.Corresponds n' r r' → n.Corresponds n' s s' →
    ((r, s) ∈ n.sparsity.entries ↔ (r', s') ∈ n'.sparsity.entries)
  /-- No rate constants are computed at the same temperatures, for the same reason. -/
  refused : ∀ T fault, RateConstants.compute n T = .error fault ↔ RateConstants.compute n' T = .error fault
  fluxes : ∀ T k k', RateConstants.compute n T = .ok k → RateConstants.compute n' T = .ok k' →
    ∀ state state' out out', n.Relabels n' state state' → n.Relabels n' out out' →
      ∃ f f', n.addFluxes k state out = .ok f ∧ n'.addFluxes k' state' out' = .ok f' ∧ n.Relabels n' f f'
  jacobians : ∀ T k k', RateConstants.compute n T = .ok k → RateConstants.compute n' T = .ok k' →
    ∀ state state' values values', n.Relabels n' state state' → n.RelabelsEntries n' values values' →
      ∃ v v', n.addJacobian k state values = .ok v ∧ n'.addJacobian k' state' values' = .ok v' ∧
        n.RelabelsEntries n' v v'

variable [Scalar α] {n n' : Network α} {x x' : Array α}

theorem relabels_zeros (n n' : Network α) :
    n.Relabels n' (State.zeros n.dof) (State.zeros n'.dof) :=
  ⟨State.size_zeros _, State.size_zeros _, fun s s' _ => by rw [State.value_zeros, State.value_zeros]⟩

namespace Reordered
variable (R : n.Reordered n')
include R

/-- Changing a slot and its counterpart alike keeps states related. -/
theorem relabels_modify (hx : n.Relabels n' x x') {s s' : Nat} (hs : n.Corresponds n' s s') (f : α → α) :
    n.Relabels n' (x.modify s f) (x'.modify s' f) := by
  obtain ⟨hlt, hlt'⟩ := R.lt_of_corresponds hs
  refine ⟨by rw [Array.size_modify, hx.size], by rw [Array.size_modify, hx.size'], fun t t' ht => ?_⟩
  by_cases heq : s = t
  · obtain rfl := heq
    obtain rfl := (R.corresponds_inj hs ht).mp rfl
    rw [State.value_modify_self (hx.size ▸ hlt), State.value_modify_self (hx.size' ▸ hlt'), hx.value s s' hs]
  · have hne : s' ≠ t' := fun h => heq ((R.corresponds_inj hs ht).mpr h)
    rw [State.value_modify_of_ne heq, State.value_modify_of_ne hne, hx.value t t' ht]

theorem existsUnique_relabels (hx : x.size = n.dof) : ∃! x', n.Relabels n' x x' := by
  choose! source hsource using fun s' hs' => (R.symm.existsUnique_corresponds (s := s') hs').exists
  have hvalue : ∀ (y : Array α) (i : Nat) (hi : i < y.size), State.value y i = y[i] := fun y i hi => by
    rw [State.value, Array.getD_eq_getD_getElem?, Array.getElem?_eq_getElem hi, Option.getD_some]
  have hsize : (Array.ofFn fun s' : Fin n'.dof => State.value x (source s')).size = n'.dof := Array.size_ofFn
  refine ⟨Array.ofFn fun s' : Fin n'.dof => State.value x (source s'), ⟨hx, hsize, fun s s' hs => ?_⟩, ?_⟩
  · have hlt := (R.lt_of_corresponds hs).2
    rw [hvalue _ s' (by rwa [hsize]), Array.getElem_ofFn,
      (R.symm.corresponds_inj (hsource s' hlt) hs.symm).mp rfl]
  · intro y hy
    refine Array.ext (hy.size'.trans hsize.symm) fun i hi hi' => ?_
    have hlt : i < n'.dof := hy.size' ▸ hi
    rw [Array.getElem_ofFn, ← hvalue y i hi, ← hy.value _ i (hsource i hlt).symm]

end Reordered
end

/-! ### Rate constants -/

theorem compute_eq_error_iff {α : Type} [Analytic α] (n n' : Network α) (T : α) (fault : NetworkFault α) :
    RateConstants.compute n T = .error fault ↔ RateConstants.compute n' T = .error fault := by
  unfold RateConstants.compute
  split_ifs <;> simp

/-! ### Fluxes and derivatives -/

section
variable {K : Type} [Field K] [LinearOrder K] {n n' : Network K} {k k' : RateConstants K}
  {state state' : Array K}

/-- The derivative of a flux is its central difference, for a step of any size. -/
theorem two_mul_jacobian (S : n.toPopulation.Sound) (hk : k.Fits n) (hs : state.size = n.dof) {s : Nat}
    (hlt : s < n.dof) (r : Nat) :
    2 * n.jacobian k state r s =
      n.flux k (state.modify s (· + 1)) r - n.flux k (state.modify s (· - 1)) r := by
  rw [← hs] at hlt
  rw [flux_eq_sumValue S hk (by rwa [Array.size_modify]), flux_eq_sumValue S hk (by rwa [Array.size_modify]),
    value_modify hlt, value_modify hlt, Monomial.sumValue_update_sub, jacobian_eq_sumDerivative S hk hs,
    mul_one]

theorem Built.value_addJacobian (hn : n.Built) (hk : k.Fits n) (hs : state.size = n.dof) {values : Array K}
    (hv : values.size = n.sparsity.size) :
    ∃ v, n.addJacobian k state values = .ok v ∧ v.size = n.sparsity.size ∧
      ∀ r s i, n.sparsity.position? r s = some i →
        State.value v i = State.value values i + n.jacobian k state r s := by
  refine ⟨_, addJacobian_eq_ok hn.sound hk hs hv, (size_foldl_addPartial n.sparsity
    (n.clusters.toList.flatMap (n.clusterPartials k state)) values).trans hv, fun r s i hi => ?_⟩
  rw [jacobian, partials_eq_ok hn.sound hk hs,
    value_foldl_addPartial hn.position?_injective hi _ (hv ▸ hn.position?_lt hi), Partial.accumulate_eq_add_sumAt]

variable [IsStrictOrderedRing K]

namespace Reordered
variable (R : n.Reordered n') (hk : RateConstants.Agrees n n' k k')
include R hk

theorem addFluxes_eq (hx : n.Relabels n' state state') {out out' : Array K} (ho : n.Relabels n' out out') :
    ∃ f f', n.addFluxes k state out = .ok f ∧ n'.addFluxes k' state' out' = .ok f' ∧ n.Relabels n' f f' := by
  obtain ⟨f, hf, hsize, hrow⟩ := addFluxes_eq_ok R.built.sound hk.fits hx.size ho.size
  obtain ⟨f', hf', hsize', hrow'⟩ := addFluxes_eq_ok R.built'.sound hk.fits' hx.size' ho.size'
  refine ⟨f, f', hf, hf', hsize, hsize', fun s s' hs => ?_⟩
  obtain ⟨c, hc, c', hc', hregion, j, hj, hj'⟩ := id hs
  rw [hrow c hc (j, s) hj, hrow' c' hc' (j, s') hj', ho.value s s' hs,
    R.get_total_eq hx hk (R.twins_of_region hc hc' hregion) hj hj']

theorem flux_eq (hx : n.Relabels n' state state') {r r' : Nat} (hr : n.Corresponds n' r r') :
    n.flux k state r = n'.flux k' state' r' := by
  obtain ⟨f, f', hf, hf', h⟩ := R.addFluxes_eq hk hx (relabels_zeros n n')
  rw [flux, flux, hf, hf']
  exact h.value r r' hr

theorem jacobian_eq (hx : n.Relabels n' state state') {r r' s s' : Nat} (hr : n.Corresponds n' r r')
    (hs : n.Corresponds n' s s') : n.jacobian k state r s = n'.jacobian k' state' r' s' := by
  obtain ⟨hlt, hlt'⟩ := R.lt_of_corresponds hs
  refine mul_left_cancel₀ (two_ne_zero (α := K)) ?_
  rw [two_mul_jacobian R.built.sound hk.fits hx.size hlt, two_mul_jacobian R.built'.sound hk.fits' hx.size' hlt',
    R.flux_eq hk (R.relabels_modify hx hs _) hr, R.flux_eq hk (R.relabels_modify hx hs _) hr]

theorem addJacobian_eq (hx : n.Relabels n' state state') {values values' : Array K}
    (hv : n.RelabelsEntries n' values values') :
    ∃ v v', n.addJacobian k state values = .ok v ∧ n'.addJacobian k' state' values' = .ok v' ∧
      n.RelabelsEntries n' v v' := by
  obtain ⟨v, hok, hsize, hvalue⟩ := R.built.value_addJacobian hk.fits hx.size hv.size
  obtain ⟨v', hok', hsize', hvalue'⟩ := R.built'.value_addJacobian hk.fits' hx.size' hv.size'
  refine ⟨v, v', hok, hok', hsize, hsize', fun r r' s s' i i' hr hs hi hi' => ?_⟩
  rw [hvalue r s i hi, hvalue' r' s' i' hi', hv.value r r' s s' i i' hr hs hi hi',
    R.jacobian_eq hk hx hr hs]

end Reordered
end

/-! ### Seeds in any order -/

/-- In exact arithmetic, two builders of one material that hold the same seeds in any order finish as the same
    system. -/
theorem sameSystem_of_perm {K : Type} [A : Analytic K] (hA : A.IsExact) {source params : NetworkParams K}
    {m : Material K} (hchoice : source.chooseMaterial = .ok m) {b b' : Builder K} (hb : b.Reachable params m)
    (hb' : b'.Reachable params m) (hperm : b.seeds.toList.Perm b'.seeds.toList) {n n' : Network K}
    (hn : b.finish = .ok n) (hn' : b'.finish = .ok n') : n.SameSystem n' := by
  have R := reordered_of_finish hchoice hb hb' hperm hn hn'
  clear hn hn' hb hb' hchoice
  -- From here on the scalars are those of the field.
  obtain ⟨field, order, ordered, hA⟩ := hA
  obtain ⟨pi, exp, sqrt, cbrt, pow, infinity, floor⟩ := A
  dsimp only at hA
  subst hA
  let _ : Analytic K := ⟨pi, exp, sqrt, cbrt, pow, infinity, floor⟩
  have hagrees : ∀ {T : K} {k k' : RateConstants K}, RateConstants.compute n T = .ok k →
      RateConstants.compute n' T = .ok k' → RateConstants.Agrees n n' k k' :=
    RateConstants.agrees_of_compute add_comm R
  exact {
    dof_eq := R.dof_eq
    forth := fun s hs => R.existsUnique_corresponds hs
    back := fun s' hs' => by
      obtain ⟨s, hs, hunique⟩ := R.symm.existsUnique_corresponds hs'
      exact ⟨s, hs.symm, fun t ht => hunique t ht.symm⟩
    states := fun x hx => R.existsUnique_relabels hx
    pattern := fun r r' s s' => R.mem_entries_iff
    refused := fun T fault => compute_eq_error_iff n n' T fault
    fluxes := fun T k k' hk hk' state state' out out' hx ho => R.addFluxes_eq (hagrees hk hk') hx ho
    jacobians := fun T k k' hk hk' state state' values values' hx hv =>
      R.addJacobian_eq (hagrees hk hk') hx hv }

end Network

/-! ### A group and two atoms -/

namespace GroupFirst
open scoped Pair

/-- A group of three to five atoms ahead of the single clusters. -/
def seeds : List (ClusterSeed ℚ) := [seed 3 5 4, seed 1 1 1, seed 2 2 2]

/-- The seeds are added in the given order. -/
def ordered (seeds : List (ClusterSeed ℚ)) : Builder ℚ :=
  ((Builder.withMaterial params (Xenon.material params)).addAll seeds).1

/-- The number of atoms at which each cluster begins, in the order of the clusters. -/
def firsts (n : Network ℚ) : List Int := n.clusters.toList.map fun c => c.region.lo.get Direction.first

theorem finish_seeds : ∃ n, (ordered seeds).finish = .ok n ∧ firsts n = [1, 2, 3] :=
  exists_eq_ok (by decide +kernel)

theorem finish_reversed : ∃ n, (ordered seeds.reverse).finish = .ok n ∧ firsts n = [2, 1, 3] :=
  exists_eq_ok (by decide +kernel)

/-- Added in reverse, single atoms and pairs change their numbers, and the network stays the same system. -/
theorem sameSystem_reversed : ∃ n n', (ordered seeds).finish = .ok n ∧
    (ordered seeds.reverse).finish = .ok n' ∧ firsts n = [1, 2, 3] ∧ firsts n' = [2, 1, 3] ∧
      n.SameSystem n' := by
  obtain ⟨n, hn, hfirsts⟩ := finish_seeds
  obtain ⟨n', hn', hfirsts'⟩ := finish_reversed
  have hseeds : (ordered seeds).seeds.toList = seeds := by decide +kernel
  have hreversed : (ordered seeds.reverse).seeds.toList = seeds.reverse := by decide +kernel
  have hperm : (ordered seeds).seeds.toList.Perm (ordered seeds.reverse).seeds.toList := by
    rw [hseeds, hreversed]
    exact (List.reverse_perm _).symm
  have hexact : (inferInstance : Analytic ℚ).IsExact := ⟨_, _, inferInstance, rfl⟩
  have hchoice : params.chooseMaterial = .ok (Xenon.material params) := by rfl
  have hsame : n.SameSystem n' := Network.sameSystem_of_perm hexact hchoice
    Builder.Reachable.start.addAll Builder.Reachable.start.addAll hperm hn hn'
  exact ⟨n, n', hn, hn', hfirsts, hfirsts', hsame⟩

end GroupFirst
end ClusterDynamics
