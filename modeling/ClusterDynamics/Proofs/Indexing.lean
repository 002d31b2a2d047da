import ClusterDynamics.Proofs.Indexed
import ClusterDynamics.Proofs.RecordAgreement
import ClusterDynamics.Proofs.Touched

/-! Indices in range. In a built network the evaluation with every index checked is the evaluation that runs. Once
    the lengths of a state and its rates have been compared, one index alone may be out of range: that of the
    diffusion coefficient of a cluster with a sink, which constants of another network may lack. -/

namespace ClusterDynamics

/-! ### Loops that may stop -/

section
variable {ε β σ : Type}

theorem ok_bind {γ : Type} (x : β) (f : β → Except ε γ) : (Except.ok x >>= f) = f x := rfl

theorem error_bind {γ : Type} (e : ε) (f : β → Except ε γ) : (Except.error e >>= f) = .error e := rfl

theorem leaving_ok {α : Type} (s : σ) (x : β) : Failure.leaving (α := α) s (.ok x) = .ok x := rfl

/-- A check that a value waits for. -/
theorem leaving_return {α γ : Type} (s : σ) (check : Except (NetworkFault α) Unit) (x : β)
    (f : β → Except (Failure α σ) γ) :
    (Failure.leaving s (do check; return x) >>= f) = (Failure.leaving s check >>= fun _ => f x) := by
  cases check <;> rfl

theorem leaving_bind {α γ : Type} (s : σ) (x : Except (NetworkFault α) β) (f : β → Except (NetworkFault α) γ) :
    Failure.leaving s (x >>= f) = (Failure.leaving s x >>= fun b => Failure.leaving s (f b)) := by
  cases x <;> rfl

/-- Loops agree if their steps agree wherever an invariant of the second one holds. -/
theorem foldlM_congr {step step' : σ → β → Except ε σ} {I : σ → Prop}
    (hI : ∀ s x t, I s → step' s x = .ok t → I t) : ∀ {l : List β} {s : σ}, I s →
      (∀ x ∈ l, ∀ s, I s → step s x = step' s x) → l.foldlM step s = l.foldlM step' s
  | [], _, _, _ => rfl
  | x :: l, s, hs, h => by
    rw [List.foldlM_cons, List.foldlM_cons, h x List.mem_cons_self s hs]
    cases hx : step' s x with
    | error e => rfl
    | ok t => exact foldlM_congr hI (hI s x t hs hx) fun y hy => h y (List.mem_cons_of_mem x hy)

/-- A loop that keeps an invariant, under which no step stops. -/
theorem foldlM_eq_ok_of_keeps {step : σ → β → Except ε σ} {next : σ → β → σ} {I : σ → Prop}
    (hI : ∀ s x, I s → I (next s x)) {l : List β} {s : σ} (hs : I s)
    (h : ∀ x ∈ l, ∀ s, I s → step s x = .ok (next s x)) : l.foldlM step s = .ok (l.foldl next s) := by
  have hnext : l.foldlM step s = l.foldlM (fun s x => Except.ok (next s x)) s :=
    foldlM_congr (fun s x t hs ht => Except.ok.inj ht ▸ hI s x hs) hs h
  rw [hnext]
  exact foldlM_eq_ok s fun _ _ _ => rfl

theorem foldl_keeps {next : σ → β → σ} {I : σ → Prop} (hI : ∀ s x, I s → I (next s x)) : ∀ {l : List β} {s : σ},
    I s → I (l.foldl next s)
  | [], _, hs => hs
  | x :: l, s, hs => by
    rw [List.foldl_cons]
    exact foldl_keeps hI (hI s x hs)

end

/-- All five parts have a length. -/
structure FluxBreakdown.Sized {α : Type} (b : FluxBreakdown α) (m : Nat) : Prop where
  production : b.production.size = m
  combination : b.combination.size = m
  dissociation : b.dissociation.size = m
  emission : b.emission.size = m
  sink : b.sink.size = m

theorem FluxBreakdown.Sized.zipTerms {α : Type} {b : FluxBreakdown α} {m : Nat} (hb : b.Sized m) (t : FluxTerms α)
    {f : MomentVector α → Array α → Array α} (hf : ∀ v out, (f v out).size = out.size) : (b.zipTerms t f).Sized m :=
  ⟨(hf _ _).trans hb.production, (hf _ _).trans hb.combination, (hf _ _).trans hb.dissociation,
    (hf _ _).trans hb.emission, (hf _ _).trans hb.sink⟩

/-! ### Checks of lengths -/

/-- A check of lengths passes exactly if `p` holds, and else names two numbers that differ. -/
def Compares {α : Type} (p : Prop) (check : Except (NetworkFault α) Unit) : Prop :=
  p ∧ check = .ok () ∨ ¬p ∧ ∃ what expected actual, expected ≠ actual ∧
    check = .error (.dimension what expected actual)

theorem Compares.and {α : Type} {p q : Prop} {first second : Except (NetworkFault α) Unit} (hfirst : Compares p first)
    (hsecond : Compares q second) : Compares (p ∧ q) (first >>= fun _ => second) := by
  rcases hfirst with ⟨hp, rfl⟩ | ⟨hp, what, expected, actual, hne, rfl⟩
  · rcases hsecond with ⟨hq, rfl⟩ | ⟨hq, h⟩
    · exact .inl ⟨⟨hp, hq⟩, rfl⟩
    · exact .inr ⟨fun h => hq h.2, h⟩
  · exact .inr ⟨fun h => hp h.1, what, expected, actual, hne, rfl⟩

namespace Network

/-- State and rates have the lengths that are compared. -/
def Matched {α : Type} (n : Network α) (k : RateConstants α) (state : Array α) : Prop :=
  state.size = n.dof ∧ k.size = n.reactions.size

theorem compares_checkSize {α : Type} (what : Quantity) (expected actual : Nat) :
    Compares (α := α) (actual = expected) (checkSize what expected actual) := by
  by_cases h : actual = expected
  · exact .inl ⟨h, if_pos h⟩
  · exact .inr ⟨h, what, expected, actual, Ne.symm h, if_neg h⟩

theorem compares_checkInputs {α : Type} (n : Network α) (k : RateConstants α) (state : Array α) :
    Compares (n.Matched k state) (n.checkInputs k state) :=
  (compares_checkSize ..).and (compares_checkSize ..)

/-! ### What is in range -/

variable {α : Type} [Scalar α] {n : Network α} {k : RateConstants α} {state : Array α} {c d : Cluster α}

theorem indexed_gather (hslots : ∀ row ∈ c.slots, row.2 < state.size) :
    Indexed.gather state c = .ok (State.gather state c) := by
  have hrow : (fun j : BasisIndex => (c.slot? j.val).elim (.ok 0) (Indexed.entry (α := α) state)) =
      fun j => pure ((State.gather state c).get j) := by
    funext j
    cases hj : c.slot? j.val with
    | none => rw [State.gather, get_ofFn, hj]; rfl
    | some slot =>
      rw [State.get_gather (Cluster.mem_slots.mpr hj)]
      exact Indexed.entry_eq_getD (hslots _ (Cluster.mem_slots.mpr hj)) 0
  rw [Indexed.gather, hrow, Vector.ofFnM_pure]
  exact congrArg Except.ok (Vector.ext fun i hi => Vector.getElem_ofFn hi)

omit [Scalar α] in
theorem indexed_putTerms (t : FluxTerms α) {b : FluxBreakdown α} {m : Nat} (hb : b.Sized m)
    {row : BasisIndex × Nat} (hrow : row.2 < m) :
    Indexed.putTerms b t row = .ok (b.zipTerms t fun v out => out.setIfInBounds row.2 (v.get row.1)) := by
  obtain ⟨h₁, h₂, h₃, h₄, h₅⟩ := hb
  simp only [Indexed.putTerms, Indexed.put, h₁, h₂, h₃, h₄, h₅, hrow, if_true, ok_bind]
  rfl

omit [Scalar α] in
theorem indexed_putRows (t : FluxTerms α) {b : FluxBreakdown α} {m : Nat} (hb : b.Sized m)
    (hslots : ∀ row ∈ c.slots, row.2 < m) :
    c.slots.foldlM (fun b row => Indexed.putTerms b t row) b =
      .ok (b.zipTerms t fun v out => State.putAll out (State.scattered c v)) := by
  have hrows : b.zipTerms t (fun v out => State.putAll out (State.scattered c v)) =
      c.slots.foldl (fun b row => b.zipTerms t fun v out => out.setIfInBounds row.2 (v.get row.1)) b := by
    rw [FluxBreakdown.foldl_zipTerms (fun _ => t)]
    simp only [FluxBreakdown.zipTerms, State.putAll, State.scattered, List.foldl_map]
  rw [hrows]
  exact foldlM_eq_ok_of_keeps (I := fun b => b.Sized m)
    (fun b row hb => hb.zipTerms t fun v out => Array.size_setIfInBounds) hb
    fun row hrow b hb => indexed_putTerms t hb (hslots row hrow)

theorem indexed_addRows (v : MomentVector α) {out : Array α} (hslots : ∀ row ∈ c.slots, row.2 < out.size) :
    c.slots.foldlM (fun out row => Failure.leaving out (Indexed.add out row.2 (v.get row.1))) out =
      .ok (State.addAll out (State.scattered c v)) := by
  rw [State.addAll, State.scattered, List.foldl_map]
  refine foldlM_eq_ok_of_keeps (I := fun s => s.size = out.size) (fun s row hs => ?_) rfl fun row hrow s hs => ?_
  · rw [Array.size_modify, hs]
  · rw [Indexed.add, if_pos (hs ▸ hslots row hrow)]
    rfl

omit [Scalar α] in
theorem indexed_visitAll_append {σ : Type} (visit : σ → Partial α → Except (NetworkFault α) σ)
    (l l' : List (Partial α)) (s : σ) :
    Indexed.visitAll visit (l ++ l') s = (Indexed.visitAll visit l s >>= Indexed.visitAll visit l') :=
  List.foldlM_append

omit [Scalar α] in
theorem indexed_visitRecords {ρ σ : Type} {visit : σ → Partial α → Except (NetworkFault α) σ}
    {entries : ρ → Except (NetworkFault α) (List (Partial α))} {f : ρ → List (Partial α)} :
    ∀ {records : List ρ} {s : σ}, (∀ r ∈ records, entries r = .ok (f r)) →
      Indexed.visitRecords visit entries records s = Indexed.visitAll visit (records.flatMap f) s
  | [], _, _ => rfl
  | r :: records, s, h => by
    rw [Indexed.visitRecords, List.foldlM_cons, h r List.mem_cons_self, List.flatMap_cons, indexed_visitAll_append]
    exact bind_congr fun t => indexed_visitRecords fun r hr => h r (List.mem_cons_of_mem _ hr)

omit [Scalar α] in
theorem indexed_visitAll {σ : Type} {visit' : σ → Partial α → Except (NetworkFault α) σ} {visit : σ → Partial α → σ}
    {I : σ → Prop} (hI : ∀ s x, I s → I (visit s x)) (hvisit : ∀ s x, I s → visit' s x = .ok (visit s x))
    (l : List (Partial α)) {s : σ} (hs : I s) : Indexed.visitAll visit' l s = .ok (l.foldl visit s) :=
  foldlM_eq_ok_of_keeps hI hs fun x _ s hs => by rw [hvisit s x hs, leaving_ok]

theorem size_of_addCluster {out t : Array α} (h : n.addCluster k state out c = .ok t) : t.size = out.size := by
  cases hc : n.lacks k c with
  | true =>
    rw [addCluster, checkDiffusion, hc] at h
    cases h
  | false =>
    rw [addCluster_eq_ok hc] at h
    cases h
    exact State.size_addAll ..

theorem sized_of_putCluster {b t : FluxBreakdown α} {m : Nat} (hb : b.Sized m) (h : n.putCluster k state b c = .ok t) :
    t.Sized m := by
  cases hc : n.lacks k c with
  | true =>
    rw [putCluster, checkDiffusion, hc] at h
    cases h
  | false =>
    rw [putCluster_eq_ok hc] at h
    cases h
    exact hb.zipTerms _ fun v out => State.size_putAll out _

theorem visitCluster_eq_foldl {σ : Type} {visit : σ → Partial α → σ} {s t : σ}
    (h : n.visitCluster k state visit s c = .ok t) : t = (n.clusterPartials k state c).foldl visit s := by
  cases hc : n.lacks k c with
  | true =>
    rw [visitCluster, checkDiffusion, hc] at h
    cases h
  | false =>
    rw [visitCluster_eq_ok hc] at h
    exact (Except.ok.inj h).symm

omit [Scalar α] in
theorem groupedFirst_mem (hc : c ∈ n.clusters) (hd : d ∈ n.clusters) :
    (groupedFirst c d).1 ∈ n.clusters ∧ (groupedFirst c d).2 ∈ n.clusters := by
  unfold groupedFirst
  split_ifs
  · exact ⟨hc, hd⟩
  · exact ⟨hd, hc⟩

namespace Built
variable (hn : n.Built) (hm : n.Matched k state)
include hn

/-! ### Entries -/

theorem links_entry (hc : c ∈ n.clusters) : Indexed.entry (α := α) n.links c.id = .ok (n.linksOf c.id) := by
  refine Indexed.entry_eq_getD ?_ _
  rw [hn.links, ReactionPlan.links, Array.size_ofFn]
  exact (Array.getElem?_eq_some_iff.mp (hn.sound.getElem?_id hc)).1

theorem sinks_entry (hc : c ∈ n.clusters) : Indexed.entry (α := α) n.sinks c.id = .ok (n.sinkOf c.id) := by
  refine Indexed.entry_eq_getD ?_ _
  have hsize : n.sinks.size = n.clusters.size := by
    conv_lhs => rw [hn.assembled]
    exact Array.size_map
  rw [hsize]
  exact (Array.getElem?_eq_some_iff.mp (hn.sound.getElem?_id hc)).1

/-- A number within the clusters is that of one of them. -/
theorem exists_cluster {i : Nat} (hi : i < n.clusters.size) : ∃ d ∈ n.clusters, n.clusters[i]? = some d ∧ d.id = i := by
  have hget : n.clusters[i]? = some n.clusters[i] := Array.getElem?_eq_getElem hi
  exact ⟨_, Array.mem_of_getElem? hget, hget, hn.sound.id i _ hget⟩

include hm

theorem moments_entry (hc : c ∈ n.clusters) : Indexed.gather state c = .ok (State.gather state c) :=
  indexed_gather fun _ hrow => hm.1 ▸ hn.sound.slot_lt hc hrow

theorem value_entry (hc : c ∈ n.clusters) : Indexed.entry (α := α) state c.id = .ok (State.value state c.id) :=
  Indexed.entry_eq_getD (hm.1 ▸ hn.sound.slot_lt hc (k := 0) (Cluster.mem_slots.mpr rfl)) 0

omit hn in
theorem rate_entry {i : Nat} (hi : i < n.reactions.size) : Indexed.entry (α := α) k.rates i = .ok (k.rate i) :=
  Indexed.entry_eq_getD (hi.trans_eq hm.2.symm) 0

/-! ### What a record names -/

variable (hc : c ∈ n.clusters)
include hc

theorem production_entries {r : Record Couple α} (hr : r ∈ (n.linksOf c.id).production) : ∃ first,
    n.clusters[r.participants.first]? = some first ∧ Indexed.gather state first = .ok (State.gather state first) ∧
    Indexed.entry (α := α) k.rates r.reaction = .ok (k.rate r.reaction) ∧
    Indexed.entry (α := α) state r.participants.second = .ok (State.value state r.participants.second) := by
  obtain ⟨hreaction, hfirst, hsecond⟩ := (hn.recordsAgree hc).couple_range r (List.mem_append_left _ hr)
  obtain ⟨first, hmem, hget, -⟩ := hn.exists_cluster hfirst
  obtain ⟨second, hmem', -, hid⟩ := hn.exists_cluster hsecond
  exact ⟨first, hget, hn.moments_entry hm hmem, rate_entry hm hreaction, hid ▸ hn.value_entry hm hmem'⟩

theorem combining_entries {r : Record Nat α} (hr : r ∈ (n.linksOf c.id).combining) : ∃ partner,
    n.clusters[r.participants]? = some partner ∧ n.combinationOperands c r.participants = groupedFirst c partner ∧
    Indexed.gather state (groupedFirst c partner).1 = .ok (State.gather state (groupedFirst c partner).1) ∧
    Indexed.entry (α := α) k.rates r.reaction = .ok (k.rate r.reaction) ∧
    Indexed.entry (α := α) state (groupedFirst c partner).2.id =
      .ok (State.value state (groupedFirst c partner).2.id) := by
  obtain ⟨hreaction, hpartner⟩ := (hn.recordsAgree hc).single_range r (List.mem_append_left _ hr)
  obtain ⟨partner, hmem, hget, hid⟩ := hn.exists_cluster hpartner
  obtain ⟨hgrouped, hother⟩ := groupedFirst_mem hc hmem
  refine ⟨partner, hget, ?_, hn.moments_entry hm hgrouped, rate_entry hm hreaction, hn.value_entry hm hother⟩
  rw [← hid, combinationOperands_id hn.sound c hmem]

theorem dissociating_entries {r : Record Nat α} (hr : r ∈ (n.linksOf c.id).dissociating) : ∃ parent,
    n.clusters[r.participants]? = some parent ∧ Indexed.gather state parent = .ok (State.gather state parent) ∧
    Indexed.entry (α := α) k.rates r.reaction = .ok (k.rate r.reaction) := by
  obtain ⟨hreaction, hparent⟩ := (hn.recordsAgree hc).single_range r (List.mem_append_right _ hr)
  obtain ⟨parent, hmem, hget, -⟩ := hn.exists_cluster hparent
  exact ⟨parent, hget, hn.moments_entry hm hmem, rate_entry hm hreaction⟩

theorem emission_entry {r : Record Couple α} (hr : r ∈ (n.linksOf c.id).emission) :
    Indexed.entry (α := α) k.rates r.reaction = .ok (k.rate r.reaction) :=
  rate_entry hm ((hn.recordsAgree hc).couple_range r (List.mem_append_right _ hr)).1

omit hm in
/-- The sink is the one place where the constants are asked for more than their rates. -/
theorem sink_entries {β : Type} (lost : α → β) (kept : β) :
    (do
      let sink ← Indexed.entry (α := α) n.sinks c.id
      if 0 < sink then
        let diffusion ← Indexed.entry k.diffusion c.id
        return lost (sink * diffusion)
      else return kept) =
    (do
      n.checkDiffusion k c
      return if 0 < n.sinkOf c.id then lost (n.sinkOf c.id * (k.diffusion? c.id).getD 0) else kept) := by
  rw [hn.sinks_entry hc, ok_bind, checkDiffusion, lacks, RateConstants.diffusion?, Indexed.entry]
  by_cases hsink : 0 < n.sinkOf c.id
  · cases k.diffusion[c.id]? with
    | none => simp only [hsink, if_true, decide_true, Option.isNone_none, Bool.and_self, error_bind]
    | some d => simp only [hsink, if_true, Option.isNone_some, Bool.and_false, Bool.false_eq_true, if_false, ok_bind,
        Option.getD_some]
  · simp only [hsink, if_false, decide_false, Bool.false_and, Bool.false_eq_true, ok_bind]

/-! ### The five mechanisms -/

theorem indexed_productionTerm : Indexed.productionTerm n k state (n.linksOf c.id) =
    .ok (n.productionTerm k state (n.linksOf c.id)) := by
  refine foldlM_eq_ok_of_keeps (I := fun _ => True) (fun _ _ _ => trivial) trivial fun r hr t _ => ?_
  obtain ⟨first, hget, hmoments, hrate, hvalue⟩ := hn.production_entries hm hc hr
  simp only [hrate, Indexed.entry_eq_ok hget, hmoments, hvalue, Network.gather, hget, ok_bind]
  rfl

theorem indexed_combinationTerm : Indexed.combinationTerm n k state c (n.linksOf c.id) =
    .ok (n.combinationTerm k state c (n.linksOf c.id)) := by
  refine foldlM_eq_ok_of_keeps (I := fun _ => True) (fun _ _ _ => trivial) trivial fun r hr t _ => ?_
  obtain ⟨partner, hget, hoperands, hmoments, hrate, hvalue⟩ := hn.combining_entries hm hc hr
  simp only [hrate, Indexed.entry_eq_ok hget, hmoments, hvalue, hoperands, ok_bind]
  rfl

theorem indexed_dissociationTerm : Indexed.dissociationTerm n k state (n.linksOf c.id) =
    .ok (n.dissociationTerm k state (n.linksOf c.id)) := by
  refine foldlM_eq_ok_of_keeps (I := fun _ => True) (fun _ _ _ => trivial) trivial fun r hr t _ => ?_
  obtain ⟨parent, hget, hmoments, hrate⟩ := hn.dissociating_entries hm hc hr
  simp only [hrate, Indexed.entry_eq_ok hget, hmoments, Network.gather, hget, ok_bind]
  rfl

theorem indexed_emissionTerm : Indexed.emissionTerm k (State.gather state c) (n.linksOf c.id) =
    .ok (emissionTerm k state c (n.linksOf c.id)) := by
  refine foldlM_eq_ok_of_keeps (I := fun _ => True) (fun _ _ _ => trivial) trivial fun r hr t _ => ?_
  rw [hn.emission_entry hm hc hr, ok_bind]
  rfl

omit hm in
theorem indexed_sinkTerm : Indexed.sinkTerm n k (State.gather state c) c =
    (do n.checkDiffusion k c; return n.sinkTerm k state c) :=
  hn.sink_entries hc (fun loss => MomentVector.zero.sub ((State.gather state c).scale loss)) .zero

theorem indexed_terms : Indexed.terms n k state c = (do n.checkDiffusion k c; return n.terms k state c) := by
  rw [Indexed.terms, hn.links_entry hc, ok_bind, hn.moments_entry hm hc, ok_bind, hn.indexed_productionTerm hm hc,
    ok_bind, hn.indexed_combinationTerm hm hc, ok_bind, hn.indexed_dissociationTerm hm hc, ok_bind,
    hn.indexed_emissionTerm hm hc, ok_bind, hn.indexed_sinkTerm hc, bind_assoc]
  rfl

/-! ### Partial derivatives -/

theorem indexed_productionPartials {r : Record Couple α} (hr : r ∈ (n.linksOf c.id).production) :
    Indexed.productionPartials n k state c r = .ok (n.productionPartials k state c r) := by
  obtain ⟨first, hget, hmoments, hrate, hvalue⟩ := hn.production_entries hm hc hr
  simp only [Indexed.productionPartials, Network.productionPartials, Network.gather, hrate, hget,
    Indexed.entry_eq_ok hget, hmoments, hvalue, ok_bind]
  rfl

theorem indexed_combinationPartials {r : Record Nat α} (hr : r ∈ (n.linksOf c.id).combining) :
    Indexed.combinationPartials n k state c r = .ok (n.combinationPartials k state c r) := by
  obtain ⟨partner, hget, hoperands, hmoments, hrate, hvalue⟩ := hn.combining_entries hm hc hr
  simp only [Indexed.combinationPartials, Network.combinationPartials, hrate, Indexed.entry_eq_ok hget, hmoments,
    hvalue, hoperands, ok_bind]
  rfl

theorem indexed_dissociationPartials {r : Record Nat α} (hr : r ∈ (n.linksOf c.id).dissociating) :
    Indexed.dissociationPartials n k c r = .ok (n.dissociationPartials k c r) := by
  obtain ⟨parent, hget, -, hrate⟩ := hn.dissociating_entries hm hc hr
  simp only [Indexed.dissociationPartials, Network.dissociationPartials, hrate, hget, Indexed.entry_eq_ok hget,
    ok_bind]
  rfl

theorem indexed_emissionPartials {r : Record Couple α} (hr : r ∈ (n.linksOf c.id).emission) :
    Indexed.emissionPartials k c r = .ok (emissionPartials k c r) := by
  rw [Indexed.emissionPartials, hn.emission_entry hm hc hr, ok_bind]
  rfl

omit hm in
theorem indexed_sinkPartials : Indexed.sinkPartials n k c = (do n.checkDiffusion k c; return n.sinkPartials k c) :=
  hn.sink_entries hc (fun loss => c.slots.map fun row : BasisIndex × Nat => Partial.mk row.2 row.2 (-loss)) []

/-- The records of a cluster are visited whatever the constants know of diffusion. -/
theorem indexed_visitCluster {σ : Type} (visit : σ → Partial α → Except (NetworkFault α) σ) (s : σ) :
    Indexed.visitCluster visit n k state s c = (do
      let s ← Indexed.visitAll visit (n.recordPartials k state c) s
      Failure.leaving s (n.checkDiffusion k c)
      Indexed.visitAll visit (n.sinkPartials k c) s) := by
  have hproduction : ∀ s, Indexed.visitRecords visit (Indexed.productionPartials n k state c)
      (n.linksOf c.id).production s =
        Indexed.visitAll visit ((n.linksOf c.id).production.flatMap (n.productionPartials k state c)) s := fun s =>
    indexed_visitRecords fun r => hn.indexed_productionPartials hm hc
  have hcombination : ∀ s, Indexed.visitRecords visit (Indexed.combinationPartials n k state c)
      (n.linksOf c.id).combining s =
        Indexed.visitAll visit ((n.linksOf c.id).combining.flatMap (n.combinationPartials k state c)) s := fun s =>
    indexed_visitRecords fun r => hn.indexed_combinationPartials hm hc
  have hdissociation : ∀ s, Indexed.visitRecords visit (Indexed.dissociationPartials n k c)
      (n.linksOf c.id).dissociating s =
        Indexed.visitAll visit ((n.linksOf c.id).dissociating.flatMap (n.dissociationPartials k c)) s := fun s =>
    indexed_visitRecords fun r => hn.indexed_dissociationPartials hm hc
  have hemission : ∀ s, Indexed.visitRecords visit (Indexed.emissionPartials k c) (n.linksOf c.id).emission s =
      Indexed.visitAll visit ((n.linksOf c.id).emission.flatMap (emissionPartials k c)) s := fun s =>
    indexed_visitRecords fun r => hn.indexed_emissionPartials hm hc
  simp only [Indexed.visitCluster, hn.links_entry hc, leaving_ok, ok_bind, hproduction, hcombination, hdissociation,
    hemission, hn.indexed_sinkPartials hc, leaving_return, recordPartials, indexed_visitAll_append, bind_assoc]

/-! ### Whole networks -/

omit hm

/-- The rows of a cluster are written where they belong. -/
theorem indexed_addCluster (hm : n.Matched k state) {out : Array α} (ho : out.size = n.dof) :
    Indexed.addCluster n k state out c = n.addCluster k state out c := by
  rw [Indexed.addCluster, hn.indexed_terms hm hc, leaving_return, Network.addCluster]
  exact bind_congr fun _ => indexed_addRows _ fun row hrow => ho ▸ hn.sound.slot_lt hc hrow

omit hc

theorem indexed_addFluxes (out : Array α) : Indexed.addFluxes n k state out = n.addFluxes k state out := by
  rcases (compares_checkInputs n k state).and (compares_checkSize .fluxOutput n.dof out.size) with
    ⟨⟨hm, ho⟩, hcheck⟩ | ⟨-, what, expected, actual, -, hcheck⟩
  · rw [Indexed.addFluxes, Network.addFluxes, hcheck, leaving_ok, ok_bind, ok_bind, ← Array.foldlM_toList,
      ← Array.foldlM_toList]
    refine foldlM_congr (I := fun out => out.size = n.dof) (fun out c t ho ht => ?_) ho fun c hc out ho =>
      hn.indexed_addCluster (Array.mem_toList_iff.mp hc) hm ho
    rw [size_of_addCluster ht, ho]
  · rw [Indexed.addFluxes, Network.addFluxes, hcheck]
    rfl

theorem indexed_fluxBreakdown : Indexed.fluxBreakdown n k state = n.fluxBreakdown k state := by
  rcases compares_checkInputs n k state with ⟨hm, hcheck⟩ | ⟨-, what, expected, actual, -, hcheck⟩
  · have hzeros : (State.zeros n.dof : Array α).size = n.dof := State.size_zeros n.dof
    rw [Indexed.fluxBreakdown, Network.fluxBreakdown, hcheck, ok_bind, ok_bind, ← Array.foldlM_toList,
      ← Array.foldlM_toList]
    refine foldlM_congr (I := fun b => b.Sized n.dof) (fun b c t hb ht => sized_of_putCluster hb ht)
      ⟨hzeros, hzeros, hzeros, hzeros, hzeros⟩ fun c hc b hb => ?_
    have hmem := Array.mem_toList_iff.mp hc
    rw [hn.indexed_terms hm hmem, bind_assoc, Network.putCluster]
    exact bind_congr fun _ => indexed_putRows _ hb fun row hrow => hn.sound.slot_lt hmem hrow
  · rw [Indexed.fluxBreakdown, Network.fluxBreakdown, hcheck]
    rfl

/-- A visitor that never indexes out of range is shown the same contributions in the same order. -/
theorem indexed_visitPartials {σ : Type} {visit' : σ → Partial α → Except (NetworkFault α) σ}
    {visit : σ → Partial α → σ} {I : σ → Prop} (hI : ∀ s x, I s → I (visit s x))
    (hvisit : ∀ s x, I s → visit' s x = .ok (visit s x)) {s : σ} (hs : I s) :
    Indexed.visitPartials visit' n k state s = n.visitPartials k state visit s := by
  rcases compares_checkInputs n k state with ⟨hm, hcheck⟩ | ⟨-, what, expected, actual, -, hcheck⟩
  · rw [Indexed.visitPartials, Network.visitPartials, hcheck, leaving_ok, ok_bind, ok_bind, ← Array.foldlM_toList,
      ← Array.foldlM_toList]
    refine foldlM_congr (I := I) (fun s c t hs ht => ?_) hs fun c hc s hs => ?_
    · rw [visitCluster_eq_foldl ht]
      exact foldl_keeps hI hs
    · have hrecords := foldl_keeps hI (l := n.recordPartials k state c) hs
      rw [hn.indexed_visitCluster hm (Array.mem_toList_iff.mp hc), indexed_visitAll hI hvisit _ hs, ok_bind,
        Network.visitCluster]
      exact bind_congr fun _ => indexed_visitAll hI hvisit _ hrecords
  · rw [Indexed.visitPartials, Network.visitPartials, hcheck]
    rfl

theorem indexed_addPartial {values : Array α} (hv : values.size = n.sparsity.size) (x : Partial α) :
    Indexed.addPartial n.sparsity values x = .ok (addPartial n.sparsity values x) := by
  have hposition : Indexed.position (α := α) n.sparsity x.row x.column = .ok (n.sparsity.position? x.row x.column) := by
    rw [hn.sparsity]
    exact Indexed.position_ofRows _ _ _
  rw [Indexed.addPartial, hposition, ok_bind, Network.addPartial]
  cases hi : n.sparsity.position? x.row x.column with
  | none => rfl
  | some i => exact if_pos (hv ▸ hn.position?_lt hi)

theorem indexed_addJacobian (values : Array α) :
    Indexed.addJacobian n k state values = n.addJacobian k state values := by
  rcases compares_checkSize (α := α) .jacobianValues n.sparsity.size values.size with
    ⟨hv, hcheck⟩ | ⟨-, what, expected, actual, -, hcheck⟩
  · rw [Indexed.addJacobian, Network.addJacobian, hcheck, leaving_ok, ok_bind, ok_bind]
    exact hn.indexed_visitPartials (I := fun values => values.size = n.sparsity.size)
      (fun values x hv => (size_foldl_addPartial n.sparsity [x] values).trans hv)
      (fun values x hv => hn.indexed_addPartial hv x) hv
  · rw [Indexed.addJacobian, Network.addJacobian, hcheck]
    rfl

end Built
end Network
end ClusterDynamics
