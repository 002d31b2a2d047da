import ClusterDynamics.Proofs.ListSum

/-! Polynomials of degree two, written as lists of monomials. A monomial carries one slot of the state or
    two of them; its derivative, its polynomial and the difference of its values on both sides of a
    state follow case by case, and sums inherit them. -/

namespace ClusterDynamics

/-- A coefficient times one or two slots of a state. -/
inductive Monomial (K : Type)
  | linear (coef : K) (slot : Nat)
  | product (coef : K) (single slot : Nat)

variable {K : Type} [Field K]

namespace Monomial

/-- The slots that a monomial depends on. -/
def slots : Monomial K → List Nat
  | .linear _ t => [t]
  | .product _ s t => [s, t]

/-- The value of a monomial at a state. -/
def value (x : Nat → K) : Monomial K → K
  | .linear a t => a * x t
  | .product a s t => a * x s * x t

/-- The derivative by slot `v`; a product that carries the slot twice counts it twice. -/
def derivative (x : Nat → K) (v : Nat) : Monomial K → K
  | .linear a t => if t = v then a else 0
  | .product a s t => (if s = v then a * x t else 0) + if t = v then a * x s else 0

noncomputable def polynomial : Monomial K → MvPolynomial Nat K
  | .linear a t => MvPolynomial.C a * MvPolynomial.X t
  | .product a s t => MvPolynomial.C a * MvPolynomial.X s * MvPolynomial.X t

theorem value_congr {m : Monomial K} {x y : Nat → K} (h : ∀ t ∈ m.slots, x t = y t) :
    m.value x = m.value y := by
  cases m with
  | linear a t => rw [value, value, h t List.mem_cons_self]
  | product a s t =>
    rw [value, value, h s List.mem_cons_self, h t (List.mem_cons_of_mem _ List.mem_cons_self)]

theorem derivative_eq_zero {m : Monomial K} {v : Nat} (h : v ∉ m.slots) (x : Nat → K) :
    m.derivative x v = 0 := by
  cases m with
  | linear a t =>
    exact if_neg fun e => h (by simp [slots, e])
  | product a s t =>
    rw [derivative, if_neg fun e => h (by simp [slots, e]), if_neg fun e => h (by simp [slots, e]),
      add_zero]

/-- The values on both sides of a state differ by twice the step times the derivative. -/
theorem value_update_sub (m : Monomial K) (x : Nat → K) (v : Nat) (h : K) :
    m.value (Function.update x v (x v + h)) - m.value (Function.update x v (x v - h)) =
      2 * h * m.derivative x v := by
  cases m with
  | linear a t =>
    by_cases ht : t = v
    · simp only [value, derivative, ht, Function.update_self, if_true]
      ring
    · simp [value, derivative, ht]
  | product a s t =>
    by_cases hs : s = v <;> by_cases ht : t = v
    · simp only [value, derivative, hs, ht, Function.update_self, if_true]
      ring
    · simp only [value, derivative, hs, ht, Function.update_self, Function.update_of_ne ht, if_true,
        if_false]
      ring
    · simp only [value, derivative, hs, ht, Function.update_self, Function.update_of_ne hs, if_true,
        if_false]
      ring
    · simp [value, derivative, hs, ht]

theorem eval_polynomial (x : Nat → K) (m : Monomial K) :
    MvPolynomial.eval x m.polynomial = m.value x := by
  cases m <;> simp [polynomial, value]

theorem eval_pderiv_polynomial (x : Nat → K) (v : Nat) (m : Monomial K) :
    MvPolynomial.eval x (MvPolynomial.pderiv v m.polynomial) = m.derivative x v := by
  have hslot : ∀ t, MvPolynomial.eval x (MvPolynomial.pderiv v (MvPolynomial.X t : MvPolynomial Nat K)) =
      if t = v then 1 else 0 := by
    intro t
    split_ifs with ht
    · rw [ht, MvPolynomial.pderiv_X_self, map_one]
    · rw [MvPolynomial.pderiv_X_of_ne ht, map_zero]
  cases m <;>
    simp only [polynomial, derivative, MvPolynomial.pderiv_mul, MvPolynomial.pderiv_C, map_add, map_mul,
      MvPolynomial.eval_C, MvPolynomial.eval_X, hslot, map_zero] <;>
    split_ifs <;> ring

theorem totalDegree_polynomial (m : Monomial K) : m.polynomial.totalDegree ≤ 2 := by
  cases m with
  | linear a t =>
    have := MvPolynomial.totalDegree_mul (MvPolynomial.C a) (MvPolynomial.X t : MvPolynomial Nat K)
    rw [MvPolynomial.totalDegree_C, MvPolynomial.totalDegree_X] at this
    exact this.trans (by omega)
  | product a s t =>
    have h1 := MvPolynomial.totalDegree_mul (MvPolynomial.C a) (MvPolynomial.X s : MvPolynomial Nat K)
    have h2 := MvPolynomial.totalDegree_mul (MvPolynomial.C a * MvPolynomial.X s)
      (MvPolynomial.X t : MvPolynomial Nat K)
    rw [MvPolynomial.totalDegree_C, MvPolynomial.totalDegree_X] at h1
    rw [MvPolynomial.totalDegree_X] at h2
    exact h2.trans (by omega)

/-! ### Sums -/

/-- The value of a sum of monomials. -/
def sumValue (x : Nat → K) (l : List (Monomial K)) : K := (l.map (value x)).sum

/-- The derivative of a sum of monomials. -/
def sumDerivative (x : Nat → K) (v : Nat) (l : List (Monomial K)) : K := (l.map (derivative x v)).sum

noncomputable def sumPolynomial (l : List (Monomial K)) : MvPolynomial Nat K :=
  (l.map polynomial).sum

theorem sumValue_append (x : Nat → K) (l l' : List (Monomial K)) :
    sumValue x (l ++ l') = sumValue x l + sumValue x l' := by
  rw [sumValue, List.map_append, List.sum_append, sumValue, sumValue]

theorem sumValue_flatMap {β : Type} (x : Nat → K) (l : List β) (f : β → List (Monomial K)) :
    sumValue x (l.flatMap f) = (l.map fun y => sumValue x (f y)).sum :=
  sum_map_flatMap l f _

theorem sumDerivative_append (x : Nat → K) (v : Nat) (l l' : List (Monomial K)) :
    sumDerivative x v (l ++ l') = sumDerivative x v l + sumDerivative x v l' := by
  rw [sumDerivative, List.map_append, List.sum_append, sumDerivative, sumDerivative]

theorem sumDerivative_flatMap {β : Type} (x : Nat → K) (v : Nat) (l : List β)
    (f : β → List (Monomial K)) :
    sumDerivative x v (l.flatMap f) = (l.map fun y => sumDerivative x v (f y)).sum :=
  sum_map_flatMap l f _

theorem sumValue_congr {l : List (Monomial K)} {x y : Nat → K}
    (h : ∀ m ∈ l, ∀ t ∈ m.slots, x t = y t) : sumValue x l = sumValue y l :=
  congrArg List.sum (List.map_congr_left fun m hm => value_congr (h m hm))

theorem sumDerivative_eq_zero {l : List (Monomial K)} {v : Nat} (h : ∀ m ∈ l, v ∉ m.slots)
    (x : Nat → K) : sumDerivative x v l = 0 := by
  refine List.sum_eq_zero fun z hz => ?_
  obtain ⟨m, hm, rfl⟩ := List.mem_map.mp hz
  exact derivative_eq_zero (h m hm) x

theorem sumValue_update_sub (l : List (Monomial K)) (x : Nat → K) (v : Nat) (h : K) :
    sumValue (Function.update x v (x v + h)) l - sumValue (Function.update x v (x v - h)) l =
      2 * h * sumDerivative x v l := by
  induction l with
  | nil => simp [sumValue, sumDerivative]
  | cons m l ih =>
    simp only [sumValue, sumDerivative, List.map_cons, List.sum_cons] at ih ⊢
    linear_combination value_update_sub m x v h + ih

theorem eval_sumPolynomial (x : Nat → K) (l : List (Monomial K)) :
    MvPolynomial.eval x (sumPolynomial l) = sumValue x l := by
  rw [sumPolynomial, map_list_sum, List.map_map, sumValue]
  exact congrArg List.sum (List.map_congr_left fun m _ => eval_polynomial x m)

theorem eval_pderiv_sumPolynomial (x : Nat → K) (v : Nat) (l : List (Monomial K)) :
    MvPolynomial.eval x (MvPolynomial.pderiv v (sumPolynomial l)) = sumDerivative x v l := by
  rw [sumPolynomial, map_list_sum, map_list_sum, List.map_map, List.map_map, sumDerivative]
  exact congrArg List.sum (List.map_congr_left fun m _ => eval_pderiv_polynomial x v m)

theorem totalDegree_sumPolynomial (l : List (Monomial K)) : (sumPolynomial l).totalDegree ≤ 2 := by
  induction l with
  | nil => simp [sumPolynomial]
  | cons m l ih =>
    rw [sumPolynomial, List.map_cons, List.sum_cons]
    exact (MvPolynomial.totalDegree_add _ _).trans (max_le (totalDegree_polynomial m) ih)

end Monomial
end ClusterDynamics
