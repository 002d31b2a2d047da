import ClusterDynamics.Proofs.SlotLayout
import ClusterDynamics.Proofs.StateVector

/-! Accumulation. The flux of a network comes in two forms: added to the slots of a buffer, or stored by
    mechanism in five vectors. Adding and storing agree because every slot has one owner, whose row reaches
    that slot and no other. Both forms sum the mechanisms in the same order, so that a call agrees with the
    breakdown whatever the scalars are; how calls add up is a matter of exact arithmetic. -/

namespace ClusterDynamics

section
variable {α : Type} [Scalar α]

/-! ### Slots and rows -/

/-- What the mechanisms store in a slot. -/
def FluxBreakdown.column (b : FluxBreakdown α) (slot : Nat) : List α := b.parts.map (State.value · slot)

/-- What the mechanisms contribute to a row, in the order of the parts of a breakdown. -/
def FluxTerms.row (t : FluxTerms α) (j : BasisIndex) : List α :=
  [t.production, t.combination, t.dissociation, t.emission, t.sink].map (·.get j)

theorem FluxBreakdown.column_eq_row_iff {b : FluxBreakdown α} {slot : Nat} {t : FluxTerms α} {j : BasisIndex} :
    b.column slot = t.row j ↔
      State.value b.production slot = t.production.get j ∧
      State.value b.combination slot = t.combination.get j ∧
      State.value b.dissociation slot = t.dissociation.get j ∧
      State.value b.emission slot = t.emission.get j ∧
      State.value b.sink slot = t.sink.get j := by
  simp [column, FluxTerms.row, parts]

theorem FluxBreakdown.size_total (b : FluxBreakdown α) : b.total.size = b.production.size :=
  Array.size_ofFn

/-- A slot with the contributions to a row has the sum of that row as its total. -/
theorem FluxBreakdown.value_total {b : FluxBreakdown α} {slot : Nat} {t : FluxTerms α} {j : BasisIndex}
    (h : b.column slot = t.row j) (hslot : slot < b.production.size) :
    State.value b.total slot = t.total.get j := by
  obtain ⟨hproduction, hcombination, hdissociation, hemission, hsink⟩ := column_eq_row_iff.mp h
  have htotal : State.value b.total slot = State.value b.production slot + State.value b.combination slot +
      State.value b.dissociation slot + State.value b.emission slot + State.value b.sink slot := by
    simp [State.value, total, hslot]
  rw [htotal, hproduction, hcombination, hdissociation, hemission, hsink]
  simp only [FluxTerms.total, MomentVector.get_add]

/-! ### One call -/

namespace Network

/-- A breakdown holds in every slot what the one owner of that slot contributes, and is in total what a call
    adds to a buffer. -/
structure SplitsFlux (n : Network α) (k : RateConstants α) (state : Array α) (b : FluxBreakdown α) : Prop where
  /-- There is one number per slot. -/
  sizes : (∀ part ∈ b.parts, part.size = n.dof) ∧ b.total.size = n.dof
  /-- One row of one cluster belongs to a slot, and the parts are its contributions. -/
  owned : ∀ slot < n.dof, ∃ c ∈ n.clusters, ∃ j, (j, slot) ∈ c.slots ∧
    (∀ d ∈ n.clusters, ∀ i, (i, slot) ∈ d.slots → d = c ∧ i = j) ∧
    b.column slot = (n.terms k state c).row j
  /-- A call adds the total to whatever the buffer holds. -/
  added : ∀ out : Array α, out.size = n.dof → ∃ out', n.addFluxes k state out = .ok out' ∧
    out'.size = n.dof ∧
    ∀ slot < n.dof, State.value out' slot = State.value out slot + State.value b.total slot

variable {n : Network α} {k : RateConstants α} {state : Array α}

theorem exists_splitsFlux (S : n.toPopulation.Sound) (hk : k.Fits n) (hs : state.size = n.dof) :
    ∃ b, n.fluxBreakdown k state = .ok b ∧ n.SplitsFlux k state b := by
  obtain ⟨b, hb, hsizes, hrows⟩ := fluxBreakdown_eq_ok S hk hs
  have hproduction : b.production.size = n.dof := hsizes _ List.mem_cons_self
  have howned : ∀ slot < n.dof, ∃ c ∈ n.clusters, ∃ j, (j, slot) ∈ c.slots ∧
      (∀ d ∈ n.clusters, ∀ i, (i, slot) ∈ d.slots → d = c ∧ i = j) ∧
      b.column slot = (n.terms k state c).row j := by
    intro slot hslot
    obtain ⟨⟨c, j⟩, ⟨hc, hj⟩, -⟩ := (S.existsUnique_owner slot).mp hslot
    exact ⟨c, hc, j, hj, fun d hd i hi => S.owner_unique hd hc hi hj,
      FluxBreakdown.column_eq_row_iff.mpr (hrows c hc _ hj)⟩
  refine ⟨b, hb, ⟨⟨hsizes, b.size_total.trans hproduction⟩, howned, fun out ho => ?_⟩⟩
  obtain ⟨out', hout', hsize, hvalues⟩ := addFluxes_eq_ok S hk hs ho
  refine ⟨out', hout', hsize, fun slot hslot => ?_⟩
  obtain ⟨c, hc, j, hj, -, hcolumn⟩ := howned slot hslot
  rw [hvalues c hc _ hj, FluxBreakdown.value_total hcolumn (hproduction ▸ hslot)]

/-! ### Call after call -/

/-- Calls on the same buffer, each with its own constants and state. -/
def addCalls (n : Network α) (calls : List (RateConstants α × Array α)) (out : Array α) :
    Except (Failure α (Array α)) (Array α) :=
  calls.foldlM (fun out call => n.addFluxes call.1 call.2 out) out

end Network
end

namespace Network

variable {K : Type} [Field K] [LinearOrder K] {n : Network K} {k : RateConstants K} {state : Array K}

/-- In exact arithmetic, calls add the totals of all their breakdowns to the buffer. -/
theorem addCalls_eq_ok {calls : List (RateConstants K × Array K)} {breakdowns : List (FluxBreakdown K)}
    (h : List.Forall₂ (fun call b => n.SplitsFlux call.1 call.2 b) calls breakdowns) {out : Array K}
    (ho : out.size = n.dof) :
    ∃ out', n.addCalls calls out = .ok out' ∧ out'.size = n.dof ∧ ∀ slot < n.dof,
      State.value out' slot =
        State.value out slot + (breakdowns.map fun b => State.value b.total slot).sum := by
  induction h generalizing out with
  | nil => exact ⟨out, rfl, ho, fun slot _ => (add_zero _).symm⟩
  | @cons call b calls breakdowns hcall _ ih =>
    obtain ⟨once, honce, hsize, hadded⟩ := hcall.added out ho
    obtain ⟨out', hout', hsize', hrest⟩ := ih hsize
    refine ⟨out', ?_, hsize', fun slot hslot => ?_⟩
    · rw [addCalls, List.foldlM_cons, honce]
      exact hout'
    · rw [hrest slot hslot, hadded slot hslot, List.map_cons, List.sum_cons, add_assoc]

/-- The same call, made `m` times, adds its total `m` times. -/
theorem SplitsFlux.addCalls_replicate {b : FluxBreakdown K} (h : n.SplitsFlux k state b) (m : Nat) {out : Array K}
    (ho : out.size = n.dof) :
    ∃ out', n.addCalls (List.replicate m (k, state)) out = .ok out' ∧ out'.size = n.dof ∧
      ∀ slot < n.dof, State.value out' slot = State.value out slot + m * State.value b.total slot := by
  have hcalls : List.Forall₂ (fun call b => n.SplitsFlux call.1 call.2 b) (List.replicate m (k, state))
      (List.replicate m b) := by
    induction m with
    | zero => exact .nil
    | succ m ih => exact .cons h ih
  obtain ⟨out', hout', hsize, hvalues⟩ := addCalls_eq_ok hcalls ho
  refine ⟨out', hout', hsize, fun slot hslot => ?_⟩
  rw [hvalues slot hslot, List.map_replicate, List.sum_replicate, nsmul_eq_mul]

theorem addCalls_pair (n : Network K) (k : RateConstants K) (state out : Array K) :
    n.addCalls (List.replicate 2 (k, state)) out =
      (do n.addFluxes k state (← n.addFluxes k state out)) := by
  simp only [addCalls, List.replicate, List.foldlM_cons, List.foldlM_nil, bind_pure]

/-- A breakdown is what one call adds, and any number of calls add it as many times. -/
structure Accumulates (n : Network K) (k : RateConstants K) (state : Array K) (b : FluxBreakdown K) : Prop
    extends n.SplitsFlux k state b where
  repeated : ∀ (m : Nat) (out : Array K), out.size = n.dof →
    ∃ out', n.addCalls (List.replicate m (k, state)) out = .ok out' ∧ out'.size = n.dof ∧
      ∀ slot < n.dof, State.value out' slot = State.value out slot + m * State.value b.total slot
  twice : ∀ out : Array K, out.size = n.dof →
    ∃ out', (do n.addFluxes k state (← n.addFluxes k state out)) = .ok out' ∧ out'.size = n.dof ∧
      ∀ slot < n.dof, State.value out' slot = State.value out slot + 2 * State.value b.total slot

theorem SplitsFlux.accumulates {b : FluxBreakdown K} (h : n.SplitsFlux k state b) : n.Accumulates k state b where
  toSplitsFlux := h
  repeated m _ ho := h.addCalls_replicate m ho
  twice out ho := by
    obtain ⟨out', hout', hsize, hvalues⟩ := h.addCalls_replicate 2 ho
    rw [addCalls_pair] at hout'
    exact ⟨out', hout', hsize, fun slot hslot => by exact_mod_cast hvalues slot hslot⟩

/-- The breakdown of a finished network's flux exists and is what calls accumulate. -/
theorem accumulates_of_finish {params : NetworkParams K} {material : Material K} {b : Builder K}
    (hb : b.Reachable params material) (hfinish : b.finish = .ok n) (hk : k.Fits n)
    (hs : state.size = n.dof) :
    ∃ parts, n.fluxBreakdown k state = .ok parts ∧ n.Accumulates k state parts := by
  obtain ⟨hn, -, -⟩ := built_of_finish hb hfinish
  obtain ⟨parts, hparts, hsplits⟩ := exists_splitsFlux hn.sound hk hs
  exact ⟨parts, hparts, hsplits.accumulates⟩

theorem chain_accumulates : ∃ n, Chain.builder.finish = .ok n ∧ Chain.constants.Fits n ∧
    Chain.state.size = n.dof ∧
    ∃ parts, n.fluxBreakdown Chain.constants Chain.state = .ok parts ∧
      n.Accumulates Chain.constants Chain.state parts := by
  obtain ⟨n, hn, hc, hd, hr, -⟩ := Chain.finish_ok
  have hk := Chain.constants_fit hc hr
  have hs := Chain.size_state hd
  exact ⟨n, hn, hk, hs, accumulates_of_finish Chain.reachable hn hk hs⟩

end Network
end ClusterDynamics
