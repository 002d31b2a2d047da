import ClusterDynamics.Proofs.Indexing
import ClusterDynamics.Proofs.TwinRates

/-! Constants of another network. The lengths of a state, of its rates and of what is written to are compared
    before anything is written, and a mismatch leaves everything as it was. How many clusters the constants know is
    not compared. Constants of a network with fewer clusters and as many reactions pass, and the call stops at the
    first cluster with a sink that they do not know, when the clusters before it have been written already. -/

namespace ClusterDynamics

/-! ### Outcomes -/

/-- A cluster has a sink, and a number that constants of `n'` do not reach. -/
def Network.Outgrows {α : Type} [Scalar α] (n n' : Network α) (c : Cluster α) : Prop :=
  0 < n.sinkOf c.id ∧ n'.clusters.size ≤ c.id

/-- How a call of `n` ends that compares lengths, which match if `matching` holds, and then goes through the
    clusters in order with constants of `n'`. It returns `whole`, leaves what was there `before`, or leaves what
    it has made of the clusters that it has gone through, and has begun to make of the next one. -/
inductive Outcome {α β σ : Type} [Scalar α] (n n' : Network α) (matching : Prop) (before : σ)
    (begun : List (Cluster α) → Cluster α → σ) (whole : β) : Except (Failure α σ) β → Prop
  /-- Two lengths differ. -/
  | refused (h : ¬matching) (what : Quantity) {expected actual : Nat} (hne : expected ≠ actual) :
      Outcome n n' matching before begun whole (.error ⟨.dimension what expected actual, before⟩)
  /-- The constants end before the number of the first cluster that asks for its diffusion coefficient in vain. -/
  | stopped (h : matching) {gone rest : List (Cluster α)} {c : Cluster α}
      (hsplit : n.clusters.toList = gone ++ c :: rest) (hgone : ∀ d ∈ gone, ¬n.Outgrows n' d) (hc : n.Outgrows n' c) :
      Outcome n n' matching before begun whole (.error ⟨.outOfRange c.id n'.clusters.size, begun gone c⟩)
  /-- No cluster asks in vain. -/
  | done (h : matching) (hall : ∀ c ∈ n.clusters, ¬n.Outgrows n' c) :
      Outcome n n' matching before begun whole (.ok whole)

namespace Network

variable {α : Type} [Scalar α] {n n' : Network α} {k : RateConstants α} {state : Array α}

theorem checkDiffusion_eq_error {c : Cluster α} (h : n.lacks k c = true) :
    n.checkDiffusion k c = .error (.outOfRange c.id k.diffusion.size) :=
  if_pos h

theorem lacks_iff (hk : k.Fits n') (c : Cluster α) : n.lacks k c = true ↔ n.Outgrows n' c := by
  rw [lacks, RateConstants.diffusion?, Bool.and_eq_true, decide_eq_true_eq, Option.isNone_iff_eq_none,
    Array.getElem?_eq_none_iff, hk.diffusion]
  rfl

/-- A call that checks lengths and then goes through the clusters, if a step stops at the clusters that the
    constants do not know and at no others. -/
theorem outcome_of_loop {τ σ : Type} {check : Except (NetworkFault α) Unit} {matching : Prop} (hk : k.Fits n')
    (hcheck : Compares matching check) (begun : τ → Cluster α → σ)
    {step : τ → Cluster α → Except (Failure α σ) τ} {next : τ → Cluster α → τ}
    (hnext : ∀ c, n.lacks k c = false → ∀ t, step t c = .ok (next t c))
    (hstop : ∀ c, n.lacks k c = true → ∀ t, step t c = .error ⟨.outOfRange c.id k.diffusion.size, begun t c⟩)
    (before : σ) (start : τ) :
    Outcome n n' matching before (fun gone c => begun (gone.foldl next start) c) (n.clusters.toList.foldl next start)
      (do Failure.leaving before check; n.clusters.foldlM step start) := by
  rcases hcheck with ⟨hm, rfl⟩ | ⟨hm, what, expected, actual, hne, rfl⟩
  · rw [leaving_ok, ok_bind, ← Array.foldlM_toList]
    cases hfind : n.clusters.toList.find? (n.lacks k) with
    | none =>
      have hnone : ∀ c ∈ n.clusters.toList, n.lacks k c = false := fun c hc =>
        Bool.eq_false_iff.mpr (List.find?_eq_none.mp hfind c hc)
      rw [foldlM_eq_ok start fun c hc => hnext c (hnone c hc)]
      refine .done hm fun c hc hgrows => ?_
      exact Bool.eq_false_iff.mp (hnone c (Array.mem_toList_iff.mpr hc)) ((lacks_iff hk c).mpr hgrows)
    | some c =>
      obtain ⟨hc, gone, rest, hsplit, hgone⟩ := List.find?_eq_some_iff_append.mp hfind
      have hknown : ∀ d ∈ gone, n.lacks k d = false := fun d hd => by simpa using hgone d hd
      rw [hsplit, foldlM_eq_error start (fun d hd => hnext d (hknown d hd)) (hstop c hc), hk.diffusion]
      refine hsplit ▸ Outcome.stopped hm hsplit (fun d hd hgrows => ?_) ((lacks_iff hk c).mp hc)
      exact Bool.eq_false_iff.mp (hknown d hd) ((lacks_iff hk d).mpr hgrows)
  · exact .refused hm what hne

omit [Scalar α] in
theorem leaving_foldlM {β τ σ : Type} (s : σ) (step : τ → β → Except (NetworkFault α) τ) : ∀ (l : List β) (t : τ),
    Failure.leaving s (l.foldlM step t) = l.foldlM (fun t x => Failure.leaving s (step t x)) t
  | [], _ => rfl
  | x :: l, t => by
    rw [List.foldlM_cons, List.foldlM_cons, leaving_bind]
    exact bind_congr fun t => leaving_foldlM s step l t

/-! ### What a call leaves -/

/-- A buffer to which the rows of some clusters have been added. -/
def addRows (n : Network α) (k : RateConstants α) (state : Array α) (gone : List (Cluster α)) (out : Array α) :
    Array α :=
  gone.foldl (fun out c => State.addAll out (State.scattered c (n.terms k state c).total)) out

/-- A breakdown in which the rows of some clusters have been stored. -/
def putRows (n : Network α) (k : RateConstants α) (state : Array α) (gone : List (Cluster α)) : FluxBreakdown α :=
  gone.foldl (fun b c => b.zipTerms (n.terms k state c) fun v out => State.putAll out (State.scattered c v))
    ⟨State.zeros n.dof, State.zeros n.dof, State.zeros n.dof, State.zeros n.dof, State.zeros n.dof⟩

/-- The contributions of some clusters, and of the records of the next one. -/
def begunPartials (n : Network α) (k : RateConstants α) (state : Array α) (gone : List (Cluster α)) (c : Cluster α) :
    List (Partial α) :=
  gone.flatMap (n.clusterPartials k state) ++ n.recordPartials k state c

section
variable (hk : k.Fits n')
include hk

theorem outcome_addFluxes (out : Array α) : Outcome n n' (n.Matched k state ∧ out.size = n.dof) out
    (fun gone _ => n.addRows k state gone out) (n.addRows k state n.clusters.toList out) (n.addFluxes k state out) :=
  outcome_of_loop hk ((compares_checkInputs n k state).and (compares_checkSize .fluxOutput n.dof out.size))
    (fun out _ => out) (fun _ hc out => addCluster_eq_ok hc out)
    (fun c hc out => by rw [addCluster, checkDiffusion_eq_error hc]; rfl) out out

theorem outcome_fluxBreakdown : Outcome n n' (n.Matched k state) () (fun _ _ => ())
    (n.putRows k state n.clusters.toList) (Failure.leaving () (n.fluxBreakdown k state)) := by
  rw [fluxBreakdown, leaving_bind]
  simp only [← Array.foldlM_toList, leaving_foldlM]
  simp only [Array.foldlM_toList]
  exact outcome_of_loop hk (compares_checkInputs n k state) (fun _ _ => ())
    (fun _ hc b => by rw [putCluster_eq_ok hc]; rfl)
    (fun c hc b => by rw [putCluster, checkDiffusion_eq_error hc]; rfl) () _

theorem outcome_visitPartials {σ : Type} (visit : σ → Partial α → σ) (s : σ) : Outcome n n' (n.Matched k state) s
    (fun gone c => (n.begunPartials k state gone c).foldl visit s)
    ((n.clusters.toList.flatMap (n.clusterPartials k state)).foldl visit s) (n.visitPartials k state visit s) := by
  simp only [begunPartials, List.foldl_append, List.foldl_flatMap]
  exact outcome_of_loop hk (compares_checkInputs n k state)
    (fun s c => (n.recordPartials k state c).foldl visit s) (fun _ hc s => visitCluster_eq_ok hc visit s)
    (fun c hc s => by rw [visitCluster, checkDiffusion_eq_error hc]; rfl) s s

theorem outcome_addJacobian (values : Array α) :
    Outcome n n' (values.size = n.sparsity.size ∧ n.Matched k state) values
      (fun gone c => (n.begunPartials k state gone c).foldl (addPartial n.sparsity) values)
      ((n.clusters.toList.flatMap (n.clusterPartials k state)).foldl (addPartial n.sparsity) values)
      (n.addJacobian k state values) := by
  have hcall : n.addJacobian k state values = (do
      Failure.leaving values do
        checkSize .jacobianValues n.sparsity.size values.size
        n.checkInputs k state
      n.clusters.foldlM (n.visitCluster k state (addPartial n.sparsity)) values) := by
    rw [addJacobian, leaving_bind, bind_assoc]
    rfl
  rw [hcall]
  simp only [begunPartials, List.foldl_append, List.foldl_flatMap]
  exact outcome_of_loop hk ((compares_checkSize ..).and (compares_checkInputs n k state))
    (fun values c => (n.recordPartials k state c).foldl (addPartial n.sparsity) values)
    (fun _ hc values => visitCluster_eq_ok hc (addPartial n.sparsity) values)
    (fun c hc values => by rw [visitCluster, checkDiffusion_eq_error hc]; rfl) values values

end

/-! ### Every call -/

/-- What the four calls do with constants of `n'`, whatever the lengths. Each is equal to its evaluation with every
    index checked, and so never indexes out of range but where its outcome says so. -/
structure Guarded (n n' : Network α) (k : RateConstants α) (state : Array α) : Prop where
  /-- The rows of the clusters before the one that stops the call have been added. -/
  flux : ∀ out, Indexed.addFluxes n k state out = n.addFluxes k state out ∧
    Outcome n n' (n.Matched k state ∧ out.size = n.dof) out (fun gone _ => n.addRows k state gone out)
      (n.addRows k state n.clusters.toList out) (n.addFluxes k state out)
  /-- A breakdown that is stopped leaves nothing. -/
  breakdown : Indexed.fluxBreakdown n k state = n.fluxBreakdown k state ∧
    Outcome n n' (n.Matched k state) () (fun _ _ => ()) (n.putRows k state n.clusters.toList)
      (Failure.leaving () (n.fluxBreakdown k state))
  /-- The clusters before the one that stops the call have been visited, and its own records too. -/
  visits : ∀ (σ : Type) (visit : σ → Partial α → σ) (s : σ),
    Indexed.visitPartials (fun s x => .ok (visit s x)) n k state s = n.visitPartials k state visit s ∧
    Outcome n n' (n.Matched k state) s (fun gone c => (n.begunPartials k state gone c).foldl visit s)
      ((n.clusters.toList.flatMap (n.clusterPartials k state)).foldl visit s) (n.visitPartials k state visit s)
  jacobian : ∀ values, Indexed.addJacobian n k state values = n.addJacobian k state values ∧
    Outcome n n' (values.size = n.sparsity.size ∧ n.Matched k state) values
      (fun gone c => (n.begunPartials k state gone c).foldl (addPartial n.sparsity) values)
      ((n.clusters.toList.flatMap (n.clusterPartials k state)).foldl (addPartial n.sparsity) values)
      (n.addJacobian k state values)

/-- Whatever the lengths and whichever network the constants belong to, a call of a finished network is done, or
    fails with a mismatch that leaves everything as it was, or is stopped half way by the first cluster with a sink
    that the constants do not know. -/
theorem guarded_of_compute {α : Type} [Analytic α] {params : NetworkParams α} {m : Material α} {b : Builder α}
    {n n' : Network α} {k : RateConstants α} {T : α} (hb : b.Reachable params m) (hfinish : b.finish = .ok n)
    (hk : RateConstants.compute n' T = .ok k) (state : Array α) : n.Guarded n' k state := by
  obtain ⟨hn, -, -⟩ := built_of_finish hb hfinish
  have hfits := RateConstants.fits_of_compute hk
  exact {
    flux := fun out => ⟨hn.indexed_addFluxes out, outcome_addFluxes hfits out⟩
    breakdown := ⟨hn.indexed_fluxBreakdown, outcome_fluxBreakdown hfits⟩
    visits := fun σ visit s => ⟨hn.indexed_visitPartials (I := fun _ => True) (fun _ _ _ => trivial)
      (fun _ _ _ => rfl) trivial, outcome_visitPartials hfits visit s⟩
    jacobian := fun values => ⟨hn.indexed_addJacobian values, outcome_addJacobian hfits values⟩ }

end Network

/-! ### As many reactions, fewer clusters -/

theorem exists_eq_ok_of_any {ε β : Type} {x : Except ε β} {p : β → Bool} (h : x.toOption.any p = true) :
    ∃ b, x = .ok b ∧ p b = true := by
  cases x with
  | error e => exact absurd h Bool.false_ne_true
  | ok b => exact ⟨b, rfl, h⟩

namespace Foreign
open scoped Pair

/-- Up to five interstitials; the single one has the last number and the only sink. -/
def longer : NetworkParams ℚ :=
  { NetworkParams.standard with material := .iron, maxHelium := 0, maxVacancy := 0, maxInterstitial := 5 }

/-- Two interstitials and two vacancies. -/
def shorter : NetworkParams ℚ := { NetworkParams.standard with maxHelium := 0, maxVacancy := 2, maxInterstitial := 2 }

/-- One of each cluster. -/
def ones : Array ℚ := #[1, 1, 1, 1, 1]

/-- The call was stopped by the fifth cluster, when the row of the fourth had been written. -/
def HalfWritten (r : Except (Failure ℚ (Array ℚ)) (Array ℚ)) : Prop :=
  ∃ left, r = .error ⟨.outOfRange 4 4, left⟩ ∧ State.value left 3 ≠ 0 ∧ State.value left 4 = 0

instance (r : Except (Failure ℚ (Array ℚ)) (Array ℚ)) : Decidable (HalfWritten r) :=
  match r with
  | .ok _ => isFalse fun ⟨_, h, _⟩ => nomatch h
  | .error ⟨fault, left⟩ =>
    decidable_of_iff (fault = .outOfRange 4 4 ∧ State.value left 3 ≠ 0 ∧ State.value left 4 = 0)
      ⟨fun ⟨hfault, h⟩ => ⟨left, hfault ▸ rfl, h⟩, fun ⟨_, heq, h⟩ => by cases heq; exact ⟨rfl, h⟩⟩

theorem exists_halfWritten : ∃ n, Network.ofParams longer = .ok n ∧ ∃ n', Network.ofParams shorter = .ok n' ∧
    ∃ k, RateConstants.compute n' 1000 = .ok k ∧ HalfWritten (n.addFluxes k ones (State.zeros 5)) := by
  have h : ((Network.ofParams longer).toOption.any fun n => (Network.ofParams shorter).toOption.any fun n' =>
      (RateConstants.compute n' 1000).toOption.any fun k =>
        decide (HalfWritten (n.addFluxes k ones (State.zeros 5)))) = true := by decide +kernel
  obtain ⟨n, hn, h⟩ := exists_eq_ok_of_any h
  obtain ⟨n', hn', h⟩ := exists_eq_ok_of_any h
  obtain ⟨k, hk, h⟩ := exists_eq_ok_of_any h
  exact ⟨n, hn, n', hn', k, hk, of_decide_eq_true h⟩

theorem guarded_halfWritten : ∃ n n' k, Network.ofParams longer = .ok n ∧ Network.ofParams shorter = .ok n' ∧
    RateConstants.compute n' 1000 = .ok k ∧ n.Guarded n' k ones ∧ HalfWritten (n.addFluxes k ones (State.zeros 5)) := by
  obtain ⟨n, hn, n', hn', k, hk, h⟩ := exists_halfWritten
  obtain ⟨b, -, hb, hfinish⟩ := Network.reachable_of_ofParams hn
  exact ⟨n, n', k, hn, hn', hk, Network.guarded_of_compute hb hfinish hk ones, h⟩

end Foreign
end ClusterDynamics
