import ClusterDynamics.Grid
import ClusterDynamics.Proofs.Generation

/-! Sweeps over a grid. A sweep answers for every point from its own temperature and concentrations, so status,
    flux and Jacobian show nothing of earlier sweeps, and the summary counts the points as they stand. One
    result does not follow: a point that fails keeps the rate of the last sweep in which it was evaluated. Two
    grids with the same inputs therefore agree after a sweep up to the rates of the points that fail. -/

namespace ClusterDynamics

variable {α : Type}

/-! ### The largest of several scalars -/

namespace Scalar

/-- Comparison is irreflexive and transitive; scalars that are not ordinary numbers need not compare. -/
class StrictOrder (α : Type) [Scalar α] : Prop where
  irrefl : ∀ a : α, ¬a < a
  trans : ∀ {a b c : α}, a < b → b < c → a < c

instance {K : Type} [Field K] [LinearOrder K] : StrictOrder K where
  irrefl a := lt_irrefl a
  trans := lt_trans

variable [Scalar α]

theorem mem_foldl_larger : ∀ (l : List α) (x : α), l.foldl larger x ∈ x :: l
  | [], x => List.mem_singleton_self x
  | y :: l, x => by
    rw [List.foldl_cons]
    rcases List.mem_cons.mp (mem_foldl_larger l (larger x y)) with h | h
    · rw [h, larger]
      split_ifs
      · exact List.mem_cons_of_mem x List.mem_cons_self
      · exact List.mem_cons_self
    · exact List.mem_cons_of_mem x (List.mem_cons_of_mem y h)

variable [StrictOrder α]

theorem foldl_larger_eq_or_lt : ∀ (l : List α) (x : α), l.foldl larger x = x ∨ x < l.foldl larger x
  | [], _ => .inl rfl
  | y :: l, x => by
    rw [List.foldl_cons, larger]
    split_ifs with hxy
    · rcases foldl_larger_eq_or_lt l y with h | h
      · exact .inr (h.symm ▸ hxy)
      · exact .inr (StrictOrder.trans hxy h)
    · exact foldl_larger_eq_or_lt l x

theorem not_foldl_larger_lt_self (l : List α) (x : α) : ¬l.foldl larger x < x := by
  intro hlt
  rcases foldl_larger_eq_or_lt l x with h | h
  · rw [h] at hlt
    exact StrictOrder.irrefl x hlt
  · exact StrictOrder.irrefl x (StrictOrder.trans h hlt)

/-- No scalar of the list is above the one that is chosen. -/
theorem not_foldl_larger_lt : ∀ {l : List α} {x y : α}, y ∈ x :: l → ¬l.foldl larger x < y
  | [], x, y, hy => by
    rw [List.mem_singleton.mp hy]
    exact not_foldl_larger_lt_self [] x
  | z :: l, x, y, hy => by
    rcases List.mem_cons.mp hy with rfl | hy
    · exact not_foldl_larger_lt_self (z :: l) y
    rcases List.mem_cons.mp hy with rfl | hy
    · rw [List.foldl_cons, larger]
      split_ifs with hxy
      · exact not_foldl_larger_lt_self l y
      · -- What is chosen lies above the start, or is the start, which the scalar is not above.
        intro hlt
        rcases foldl_larger_eq_or_lt l x with h | h
        · exact hxy (h ▸ hlt)
        · exact hxy (StrictOrder.trans h hlt)
    · rw [List.foldl_cons]
      exact not_foldl_larger_lt (List.mem_cons_of_mem (larger x z) hy)

end Scalar

/-! ### Points -/

namespace GridPoint

/-- Two points ask for the same evaluation: they agree in temperature and concentrations. -/
structure SameInputs (p q : GridPoint α) : Prop where
  temperature_eq : q.temperature = p.temperature
  concentrations_eq : q.concentrations = p.concentrations

/-- Both points hold the same results, their rates apart. -/
structure SameResults (p q : GridPoint α) : Prop where
  flux_eq : q.flux = p.flux
  jacobian_eq : q.jacobian = p.jacobian
  status_eq : q.status = p.status

/-- The rates of the points that are evaluated. -/
def rates (points : List (GridPoint α)) : List α :=
  (points.filter fun p => p.status == .evaluated).map (·.largestRate)

end GridPoint

open GridPoint

namespace GridSolver

variable {s : GridSolver α} {p q : GridPoint α}

/-- What the evaluator makes of the inputs of a point. -/
def outcome (s : GridSolver α) (p : GridPoint α) : Except (EvaluationFault α) (EvaluationResult α) :=
  s.evaluator.evaluate p.temperature p.concentrations s.request

/-- The evaluator refuses the inputs of a point. -/
def Fails (s : GridSolver α) (p : GridPoint α) : Prop := ∃ fault, s.outcome p = .error fault

/-- A point after one sweep. -/
def visit (s : GridSolver α) (p : GridPoint α) : GridPoint α := p.update (s.outcome p)

theorem sweep_eq [Scalar α] (s : GridSolver α) (points : List (GridPoint α)) :
    s.sweep points = (points.map s.visit, summary (points.map s.visit)) := rfl

/-- All that a sweep can make of a point. -/
theorem visit_cases (s : GridSolver α) (p : GridPoint α) :
    (∃ r, s.outcome p = .ok r ∧ s.visit p =
      ⟨p.temperature, p.concentrations, r.flux, r.jacobian, r.largestRate, .evaluated⟩) ∨
    ∃ fault, s.outcome p = .error fault ∧ s.visit p =
      ⟨p.temperature, p.concentrations, #[], none, p.largestRate, .failed⟩ := by
  unfold visit
  cases h : s.outcome p with
  | ok r => exact .inl ⟨r, rfl, rfl⟩
  | error fault => exact .inr ⟨fault, rfl, rfl⟩

theorem outcome_congr (h : SameInputs p q) : s.outcome q = s.outcome p := by
  unfold outcome
  rw [h.temperature_eq, h.concentrations_eq]

/-- What a sweep owes to a point: it keeps its inputs, and it holds the result of its evaluation or is
    marked, emptied and left with the rate that it had. -/
structure Swept (s : GridSolver α) (p q : GridPoint α) : Prop where
  inputs : SameInputs p q
  evaluated : ∀ r, s.outcome p = .ok r →
    q.status = .evaluated ∧ q.flux = r.flux ∧ q.jacobian = r.jacobian ∧ q.largestRate = r.largestRate
  failed : ∀ fault, s.outcome p = .error fault →
    q.status = .failed ∧ q.flux = #[] ∧ q.jacobian = none ∧ q.largestRate = p.largestRate

theorem swept_visit (s : GridSolver α) (p : GridPoint α) : s.Swept p (s.visit p) := by
  obtain ⟨r, hr, hp⟩ | ⟨fault, hfault, hp⟩ := s.visit_cases p
  · rw [hp]
    refine ⟨⟨rfl, rfl⟩, fun r' hr' => ?_, fun fault hfault => ?_⟩
    · rw [hr] at hr'
      cases hr'
      exact ⟨rfl, rfl, rfl, rfl⟩
    · cases hr.symm.trans hfault
  · rw [hp]
    refine ⟨⟨rfl, rfl⟩, fun r hr => ?_, fun _ _ => ⟨rfl, rfl, rfl, rfl⟩⟩
    cases hr.symm.trans hfault

theorem sameResults_visit (h : SameInputs p q) : SameResults (s.visit p) (s.visit q) := by
  unfold visit
  rw [outcome_congr h]
  cases s.outcome p with
  | ok r => exact ⟨rfl, rfl, rfl⟩
  | error fault => exact ⟨rfl, rfl, rfl⟩

/-- Only the rate of a point that fails can show what was there before. -/
theorem visit_eq_iff (h : SameInputs p q) :
    s.visit q = s.visit p ↔ (s.Fails p → q.largestRate = p.largestRate) := by
  obtain ⟨r, hr, hp⟩ | ⟨fault, hfault, hp⟩ := s.visit_cases p
  · have hq : s.visit q = ⟨q.temperature, q.concentrations, r.flux, r.jacobian, r.largestRate, .evaluated⟩ := by
      unfold visit
      rw [outcome_congr h, hr]
      rfl
    rw [hp, hq, h.temperature_eq, h.concentrations_eq]
    refine iff_of_true rfl ?_
    rintro ⟨fault, hfault⟩
    cases hr.symm.trans hfault
  · have hq : s.visit q = ⟨q.temperature, q.concentrations, #[], none, q.largestRate, .failed⟩ := by
      unfold visit
      rw [outcome_congr h, hfault]
      rfl
    rw [hp, hq, h.temperature_eq, h.concentrations_eq]
    constructor
    · intro heq _
      exact (GridPoint.mk.inj heq).2.2.2.2.1
    · intro hrate
      rw [hrate ⟨fault, hfault⟩]

/-! ### Summaries -/

/-- The statistics count the points and those of each status, and their rate is the largest over the
    evaluated points, from zero upwards. -/
structure Summarizes [Scalar α] (stats : GridStats α) (points : List (GridPoint α)) : Prop where
  points_eq : stats.points = points.length
  evaluated_eq : stats.evaluated = points.countP fun p => p.status = .evaluated
  failed_eq : stats.failed = points.countP fun p => p.status = .failed
  /-- The rate is zero or that of an evaluated point. -/
  rate_mem : stats.largestRate ∈ 0 :: rates points
  /-- Neither zero nor the rate of an evaluated point is above it. -/
  rate_max : ∀ x ∈ 0 :: rates points, ¬stats.largestRate < x

theorem length_rates (points : List (GridPoint α)) :
    (rates points).length = points.countP fun p => p.status = .evaluated := by
  rw [rates, List.length_map, List.countP_eq_length_filter]
  rfl

theorem summary_eq [Scalar α] (points : List (GridPoint α)) : summary points =
    ⟨points.length, (rates points).length, points.length - (rates points).length,
      (rates points).foldl Scalar.larger 0, 0⟩ := by
  rw [rates, List.length_map]
  rfl

theorem length_eq_countP_add (s : GridSolver α) : ∀ points : List (GridPoint α), points.length =
    (points.map s.visit).countP (fun p => p.status = .evaluated) +
      (points.map s.visit).countP fun p => p.status = .failed
  | [] => rfl
  | p :: points => by
    have ih := length_eq_countP_add s points
    rw [List.map_cons, List.countP_cons, List.countP_cons, List.length_cons]
    obtain ⟨r, -, hp⟩ | ⟨fault, -, hp⟩ := s.visit_cases p
    · simp only [hp, decide_true, if_true, reduceCtorEq, decide_false, Bool.false_eq_true, if_false]
      omega
    · simp only [hp, decide_true, if_true, reduceCtorEq, decide_false, Bool.false_eq_true, if_false]
      omega

theorem summarizes_sweep [Scalar α] [Scalar.StrictOrder α] (s : GridSolver α) (points : List (GridPoint α)) :
    Summarizes (s.sweep points).2 (s.sweep points).1 := by
  rw [sweep_eq, summary_eq]
  refine ⟨rfl, length_rates _, ?_, Scalar.mem_foldl_larger _ _, fun x hx => Scalar.not_foldl_larger_lt hx⟩
  have hcount := s.length_eq_countP_add points
  show (points.map s.visit).length - (rates (points.map s.visit)).length =
    (points.map s.visit).countP fun p => p.status = .failed
  rw [length_rates, List.length_map]
  omega

/-- The rates that are summed up belong to points whose results are their own. -/
theorem rates_sweep_eq {points others : List (GridPoint α)} (h : List.Forall₂ SameInputs points others) :
    rates (others.map s.visit) = rates (points.map s.visit) := by
  induction h with
  | nil => rfl
  | @cons p q points others hpq _ ih =>
    unfold rates at ih ⊢
    rw [List.map_cons, List.map_cons, List.filter_cons, List.filter_cons, (sameResults_visit hpq).status_eq]
    split_ifs with hstatus
    · -- The point counts, so it has not failed, and nothing of its past is left.
      have hrate : s.visit q = s.visit p := by
        refine (visit_eq_iff hpq).mpr ?_
        rintro ⟨fault, hfault⟩
        rw [((s.swept_visit p).failed fault hfault).1] at hstatus
        cases hstatus
      rw [List.map_cons, List.map_cons, ih, hrate]
    · exact ih

theorem map_visit_eq_iff {points others : List (GridPoint α)} (h : List.Forall₂ SameInputs points others) :
    others.map s.visit = points.map s.visit ↔
      List.Forall₂ (fun p q => s.Fails p → q.largestRate = p.largestRate) points others := by
  induction h with
  | nil => exact iff_of_true rfl .nil
  | cons hpq _ ih =>
    rw [List.map_cons, List.map_cons, List.cons.injEq, List.forall₂_cons, ih, visit_eq_iff hpq]

/-! ### Several sweeps -/

/-- A point that is given a temperature and a state and then swept, once for each entry. -/
def course (s : GridSolver α) (p : GridPoint α) (inputs : List (α × Array α)) : GridPoint α :=
  inputs.foldl (fun p x => s.visit { p with temperature := x.1, concentrations := x.2 }) p

/-- The rate that the evaluator finds, if it succeeds. -/
def rate? (s : GridSolver α) (x : α × Array α) : Option α :=
  (s.evaluator.evaluate x.1 x.2 s.request).toOption.map (·.largestRate)

/-- A point holds the rate of the last sweep in which it was evaluated. -/
theorem largestRate_course (s : GridSolver α) : ∀ (inputs : List (α × Array α)) (p : GridPoint α),
    (s.course p inputs).largestRate = (inputs.filterMap s.rate?).getLast?.getD p.largestRate
  | [], _ => rfl
  | x :: inputs, p => by
    have ih := largestRate_course s inputs (s.visit { p with temperature := x.1, concentrations := x.2 })
    rw [course, List.foldl_cons, ← course, ih, List.filterMap_cons, rate?]
    obtain ⟨r, hr, hp⟩ | ⟨fault, hfault, hp⟩ :=
      s.visit_cases { p with temperature := x.1, concentrations := x.2 }
    · rw [outcome] at hr
      rw [hp, hr]
      exact (congrArg (Option.getD · _) List.getLast?_cons).symm
    · rw [outcome] at hfault
      rw [hp, hfault]
      rfl

/-- After a sweep the points and the summary are those of the evaluator at their inputs. Between two grids with
    the same inputs only the rates of failed points can differ, and they do where they differed before; such a
    rate is that of the last sweep, however long ago, in which the point was evaluated. -/
theorem sweep_forgets [Scalar α] [Scalar.StrictOrder α] (s : GridSolver α) (points : List (GridPoint α)) :
    List.Forall₂ s.Swept points (s.sweep points).1 ∧
    Summarizes (s.sweep points).2 (s.sweep points).1 ∧
    (∀ others, List.Forall₂ SameInputs points others →
      List.Forall₂ SameResults (s.sweep points).1 (s.sweep others).1 ∧
      (s.sweep others).2 = (s.sweep points).2 ∧
      ((s.sweep others).1 = (s.sweep points).1 ↔
        List.Forall₂ (fun p q => s.Fails p → q.largestRate = p.largestRate) points others)) ∧
    ∀ (p : GridPoint α) (inputs : List (α × Array α)),
      (s.course p inputs).largestRate = (inputs.filterMap s.rate?).getLast?.getD p.largestRate := by
  refine ⟨?_, s.summarizes_sweep points, fun others h => ⟨?_, ?_, map_visit_eq_iff h⟩,
    fun p inputs => s.largestRate_course inputs p⟩
  · rw [sweep_eq, List.forall₂_map_right_iff, List.forall₂_same]
    exact fun p _ => s.swept_visit p
  · rw [sweep_eq, sweep_eq, List.forall₂_map_left_iff, List.forall₂_map_right_iff]
    exact h.imp fun _ _ => sameResults_visit
  · rw [sweep_eq, sweep_eq]
    show summary _ = summary _
    rw [summary_eq, summary_eq, rates_sweep_eq h, List.length_map, List.length_map, h.length_eq]

end GridSolver

/-! ### A point that cools down -/

namespace Cooled
open scoped Pair

/-- Single xenon atoms and pairs of them. -/
def params : NetworkParams ℚ := { NetworkParams.standard with material := .xenon, maxXenon := 2 }

/-- The two clusters react when they are hot, and cannot be evaluated at absolute zero. -/
theorem ofParams_ok : ∃ n, Network.ofParams params = .ok n ∧
    (((n.evaluate 1000000 #[1, 1] .flux).toOption.any fun r => decide (0 < r.largestRate)) &&
      !(n.evaluate 0 #[1, 1] .flux).isOk) = true :=
  exists_eq_ok (by decide +kernel)

/-- A point that was hot differs after a cold sweep from one that is new. -/
theorem sweep_ne_sweep_new : ∃ n, Network.ofParams params = .ok n ∧
    let s : GridSolver ℚ := ⟨n.evaluator, .flux⟩
    let used := s.course (.new 0 #[1, 1]) [(1000000, #[1, 1]), (0, #[1, 1])]
    SameInputs (.new 0 #[1, 1]) used ∧ (s.sweep [used]).1 ≠ (s.sweep [.new 0 #[1, 1]]).1 := by
  obtain ⟨n, hn, hrates⟩ := ofParams_ok
  refine ⟨n, hn, ?_⟩
  intro s used
  obtain ⟨hhot, hcold⟩ := Bool.and_eq_true_iff.mp hrates
  obtain ⟨r, hr, hpositive⟩ : ∃ r, n.evaluate 1000000 #[1, 1] .flux = .ok r ∧ 0 < r.largestRate := by
    cases hr : n.evaluate 1000000 #[1, 1] .flux with
    | error fault => simp [hr, Except.toOption] at hhot
    | ok r => exact ⟨r, rfl, by simpa [hr, Except.toOption] using hhot⟩
  obtain ⟨fault, hfault⟩ : ∃ fault, n.evaluate 0 #[1, 1] .flux = .error fault := by
    cases hfault : n.evaluate 0 #[1, 1] .flux with
    | error fault => exact ⟨fault, rfl⟩
    | ok r => simp [hfault, Except.isOk, Except.toBool] at hcold
  have hinputs : SameInputs (.new 0 #[1, 1]) used := ⟨rfl, rfl⟩
  refine ⟨hinputs, fun heq => ?_⟩
  obtain ⟨-, -, hgrids, hcourse⟩ := s.sweep_forgets [.new 0 #[1, 1]]
  have hrate := ((hgrids [used] (.cons hinputs .nil)).2.2).mp heq
  have hsame : used.largestRate = 0 := (List.forall₂_cons.mp hrate).1 ⟨fault, hfault⟩
  have hused : used.largestRate = r.largestRate := by
    refine (hcourse (.new 0 #[1, 1]) [(1000000, #[1, 1]), (0, #[1, 1])]).trans ?_
    have hrates : [((1000000 : ℚ), (#[1, 1] : Array ℚ)), (0, #[1, 1])].filterMap s.rate? = [r.largestRate] := by
      simp only [List.filterMap_cons, GridSolver.rate?, s, Network.evaluator, hr, hfault, Except.toOption,
        Option.map_some, Option.map_none, List.filterMap_nil]
    rw [hrates]
    rfl
  exact hpositive.ne (hsame.symm.trans hused)

end Cooled
end ClusterDynamics
