import ClusterDynamics.Flux
import ClusterDynamics.Proofs.Layout

/-! Fluxes slot by slot. Because the slots of all clusters are distinct, adding the rows of one cluster
    after the other adds to each slot the row of its one owner, and storing them leaves exactly that
    row there. -/

namespace ClusterDynamics

/-! ### Loops that may stop -/

section
variable {ε σ β : Type} {step : σ → β → Except ε σ} {next : σ → β → σ}

theorem foldlM_eq_ok : ∀ {l : List β} (s : σ), (∀ x ∈ l, ∀ s, step s x = .ok (next s x)) →
    l.foldlM step s = .ok (l.foldl next s)
  | [], _, _ => rfl
  | x :: l, s, h => by
    rw [List.foldlM_cons, h x List.mem_cons_self s]
    exact foldlM_eq_ok (next s x) fun y hy => h y (List.mem_cons_of_mem x hy)

/-- A loop that stops at an item has gone through the items before it. -/
theorem foldlM_eq_error {l r : List β} {x : β} {stop : σ → ε} (s : σ)
    (hl : ∀ y ∈ l, ∀ s, step s y = .ok (next s y)) (hx : ∀ s, step s x = .error (stop s)) :
    (l ++ x :: r).foldlM step s = .error (stop (l.foldl next s)) := by
  rw [List.foldlM_append, foldlM_eq_ok s hl]
  show List.foldlM step (l.foldl next s) (x :: r) = _
  rw [List.foldlM_cons, hx]
  rfl

end

namespace State

variable {α : Type}

theorem size_putAll (state : Array α) (l : List (Nat × α)) : (putAll state l).size = state.size := by
  induction l generalizing state with
  | nil => rfl
  | cons x l ih => rw [putAll, List.foldl_cons, ← putAll, ih, Array.size_setIfInBounds]

theorem getElem?_putAll_of_notMem {l : List (Nat × α)} {slot : Nat} (state : Array α)
    (h : slot ∉ l.map (·.1)) : (putAll state l)[slot]? = state[slot]? := by
  induction l generalizing state with
  | nil => rfl
  | cons x l ih =>
    rw [List.map_cons, List.mem_cons, not_or] at h
    rw [putAll, List.foldl_cons, ← putAll, ih _ h.2,
      Array.getElem?_setIfInBounds_ne (Ne.symm h.1)]

/-- Storing into distinct slots leaves in each of them its own value. -/
theorem getElem?_putAll {l : List (Nat × α)} (hl : (l.map (·.1)).Nodup) {state : Array α} {slot : Nat}
    {x : α} (hx : (slot, x) ∈ l) (hlt : slot < state.size) : (putAll state l)[slot]? = some x := by
  induction l generalizing state with
  | nil => exact absurd hx List.not_mem_nil
  | cons y l ih =>
    obtain ⟨hy, hl⟩ := List.nodup_cons.mp hl
    rw [putAll, List.foldl_cons, ← putAll]
    rcases List.mem_cons.mp hx with rfl | hx
    · rw [getElem?_putAll_of_notMem _ hy, Array.getElem?_setIfInBounds_self_of_lt hlt]
    · exact ih hl hx (by rwa [Array.size_setIfInBounds])

theorem mem_scattered {c : Cluster α} {v : MomentVector α} {k : BasisIndex} {slot : Nat}
    (h : (k, slot) ∈ c.slots) : (slot, v.get k) ∈ scattered c v :=
  List.mem_map.mpr ⟨(k, slot), h, rfl⟩

theorem map_fst_scattered (c : Cluster α) (v : MomentVector α) :
    (scattered c v).map (·.1) = Network.slotsOf c := by
  rw [scattered, List.map_map]
  rfl

variable [Scalar α]

theorem size_addAll (state : Array α) (l : List (Nat × α)) : (addAll state l).size = state.size := by
  induction l generalizing state with
  | nil => rfl
  | cons x l ih => rw [addAll, List.foldl_cons, ← addAll, ih, Array.size_modify]

theorem value_modify_self {state : Array α} {slot : Nat} (h : slot < state.size) (f : α → α) :
    value (state.modify slot f) slot = f (value state slot) := by
  simp [value, Array.getElem_modify, h]

theorem value_modify_of_ne {state : Array α} {i slot : Nat} (h : i ≠ slot) (f : α → α) :
    value (state.modify i f) slot = value state slot := by
  simp [value, Array.getElem?_modify, h]

theorem size_zeros (n : Nat) : (zeros n : Array α).size = n := Array.size_replicate

@[simp] theorem value_zeros (n slot : Nat) : value (zeros n : Array α) slot = 0 := by
  simp only [value, zeros, Array.getD_eq_getD_getElem?, Array.getElem?_replicate]
  split_ifs <;> rfl

theorem value_addAll_of_notMem {l : List (Nat × α)} {slot : Nat} (state : Array α)
    (h : slot ∉ l.map (·.1)) : value (addAll state l) slot = value state slot := by
  induction l generalizing state with
  | nil => rfl
  | cons x l ih =>
    rw [List.map_cons, List.mem_cons, not_or] at h
    rw [addAll, List.foldl_cons, ← addAll, ih _ h.2, value_modify_of_ne (Ne.symm h.1)]

/-- Adding to distinct slots adds to each of them its own value. -/
theorem value_addAll {l : List (Nat × α)} (hl : (l.map (·.1)).Nodup) {state : Array α} {slot : Nat}
    {x : α} (hx : (slot, x) ∈ l) (hlt : slot < state.size) :
    value (addAll state l) slot = value state slot + x := by
  induction l generalizing state with
  | nil => exact absurd hx List.not_mem_nil
  | cons y l ih =>
    obtain ⟨hy, hl⟩ := List.nodup_cons.mp hl
    rw [addAll, List.foldl_cons, ← addAll]
    rcases List.mem_cons.mp hx with rfl | hx
    · rw [value_addAll_of_notMem _ hy, value_modify_self hlt]
    · have hne : y.1 ≠ slot := fun he => hy (List.mem_map.mpr ⟨(slot, x), hx, he.symm⟩)
      rw [ih hl hx (by rwa [Array.size_modify]), value_modify_of_ne hne]

theorem get_gather {state : Array α} {c : Cluster α} {k : BasisIndex} {slot : Nat}
    (h : (k, slot) ∈ c.slots) : (gather state c).get k = value state slot := by
  rw [gather, get_ofFn, Cluster.mem_slots.mp h]

end State

/-! ### The rows of all clusters -/

namespace Population

variable {α : Type}

theorem foldl_putAll (clusters : Array (Cluster α)) (f : Cluster α → MomentVector α)
    (out : Array α) :
    clusters.foldl (fun out c => State.putAll out (State.scattered c (f c))) out =
      State.putAll out (clusters.toList.flatMap fun c => State.scattered c (f c)) := by
  rw [← Array.foldl_toList, State.putAll, List.foldl_flatMap]
  rfl

theorem foldl_addAll [Scalar α] (clusters : Array (Cluster α)) (f : Cluster α → MomentVector α)
    (out : Array α) :
    clusters.foldl (fun out c => State.addAll out (State.scattered c (f c))) out =
      State.addAll out (clusters.toList.flatMap fun c => State.scattered c (f c)) := by
  rw [← Array.foldl_toList, State.addAll, List.foldl_flatMap]
  rfl

variable {p : Population α}

theorem mem_scattered {c : Cluster α} (hc : c ∈ p.clusters) {k : BasisIndex} {slot : Nat}
    (hslot : (k, slot) ∈ c.slots) (f : Cluster α → MomentVector α) :
    (slot, (f c).get k) ∈ p.clusters.toList.flatMap fun c => State.scattered c (f c) :=
  List.mem_flatMap.mpr ⟨c, Array.mem_toList_iff.mpr hc, State.mem_scattered hslot⟩

namespace Sound
variable (S : p.Sound)
include S

theorem nodup_scattered (f : Cluster α → MomentVector α) :
    ((p.clusters.toList.flatMap fun c => State.scattered c (f c)).map (·.1)).Nodup := by
  rw [List.map_flatMap]
  simp only [State.map_fst_scattered]
  exact S.nodup_slots

variable {c : Cluster α} (hc : c ∈ p.clusters) {k : BasisIndex} {slot : Nat}
  (hslot : (k, slot) ∈ c.slots)
include hc hslot

/-- Adding the rows of all clusters adds to a slot the row of its owner. -/
theorem value_foldl_addAll [Scalar α] (f : Cluster α → MomentVector α) {out : Array α} (ho : out.size = p.dof) :
    State.value (p.clusters.foldl (fun out c => State.addAll out (State.scattered c (f c))) out) slot =
      State.value out slot + (f c).get k := by
  rw [foldl_addAll]
  exact State.value_addAll (S.nodup_scattered f) (mem_scattered hc hslot f)
    (ho ▸ S.slot_lt hc hslot)

/-- Storing the rows of all clusters leaves in a slot the row of its owner. -/
theorem value_foldl_putAll [Scalar α] (f : Cluster α → MomentVector α) {out : Array α} (ho : out.size = p.dof) :
    State.value (p.clusters.foldl (fun out c => State.putAll out (State.scattered c (f c))) out) slot =
      (f c).get k := by
  rw [foldl_putAll, State.value, Array.getD_eq_getD_getElem?,
    State.getElem?_putAll (S.nodup_scattered f) (mem_scattered hc hslot f)
      (ho ▸ S.slot_lt hc hslot)]
  rfl

end Sound
end Population

/-! ### Computed fluxes -/

/-- A loop over five arrays is five loops. -/
theorem FluxBreakdown.foldl_zipTerms {α β : Type} (t : β → FluxTerms α)
    (f : β → MomentVector α → Array α → Array α) : ∀ (l : List β) (b : FluxBreakdown α),
      l.foldl (fun b x => b.zipTerms (t x) (f x)) b =
        ⟨l.foldl (fun out x => f x (t x).production out) b.production,
          l.foldl (fun out x => f x (t x).combination out) b.combination,
          l.foldl (fun out x => f x (t x).dissociation out) b.dissociation,
          l.foldl (fun out x => f x (t x).emission out) b.emission,
          l.foldl (fun out x => f x (t x).sink out) b.sink⟩
  | [], _ => rfl
  | x :: l, b => foldl_zipTerms t f l (b.zipTerms (t x) (f x))

/-- The constants hold one rate per reaction and one diffusion coefficient per cluster. -/
structure RateConstants.Fits {α : Type} (k : RateConstants α) (n : Network α) : Prop where
  rates : k.rates.size = n.reactions.size
  diffusion : k.diffusion.size = n.clusters.size

namespace Network

variable {α : Type} {n : Network α} {k : RateConstants α} {state out : Array α}

/-- The partner of a combination is looked up by its number. -/
theorem combinationOperands_id (S : n.toPopulation.Sound) (c : Cluster α) {partner : Cluster α}
    (h : partner ∈ n.clusters) : n.combinationOperands c partner.id = groupedFirst c partner := by
  rw [combinationOperands, Array.getD_eq_getD_getElem?, S.getElem?_id h, Option.getD_some]

theorem checkInputs_eq_ok (hk : k.Fits n) (hs : state.size = n.dof) :
    n.checkInputs k state = .ok () := by
  unfold checkInputs checkSize RateConstants.size
  rw [if_pos hs, if_pos hk.rates]
  rfl

variable [Scalar α]

/-- Matching constants hold a diffusion coefficient for every cluster. -/
theorem lacks_eq_false (S : n.toPopulation.Sound) (hk : k.Fits n) {c : Cluster α} (hc : c ∈ n.clusters) :
    n.lacks k c = false := by
  obtain ⟨hlt, -⟩ := Array.getElem?_eq_some_iff.mp (S.getElem?_id hc)
  rw [← hk.diffusion] at hlt
  rw [lacks, RateConstants.diffusion?, Array.getElem?_eq_getElem hlt, Option.isNone_some, Bool.and_false]

theorem checkDiffusion_eq_ok {c : Cluster α} (h : n.lacks k c = false) : n.checkDiffusion k c = .ok () := by
  rw [checkDiffusion, h]
  rfl

theorem addCluster_eq_ok {c : Cluster α} (h : n.lacks k c = false) (out : Array α) :
    n.addCluster k state out c = .ok (State.addAll out (State.scattered c (n.terms k state c).total)) := by
  rw [addCluster, checkDiffusion_eq_ok h]
  rfl

theorem putCluster_eq_ok {c : Cluster α} (h : n.lacks k c = false) (b : FluxBreakdown α) :
    n.putCluster k state b c =
      .ok (b.zipTerms (n.terms k state c) fun v out => State.putAll out (State.scattered c v)) := by
  rw [putCluster, checkDiffusion_eq_ok h]
  rfl

/-- The flux of matching inputs is computed, and each slot gains the row of its owner. -/
theorem addFluxes_eq_ok (S : n.toPopulation.Sound) (hk : k.Fits n) (hs : state.size = n.dof)
    (ho : out.size = n.dof) :
    ∃ out', n.addFluxes k state out = .ok out' ∧ out'.size = n.dof ∧
      ∀ c ∈ n.clusters, ∀ row ∈ c.slots,
        State.value out' row.2 = State.value out row.2 + (n.terms k state c).total.get row.1 := by
  have hloop : n.clusters.foldlM (n.addCluster k state) out = .ok (n.clusters.foldl
      (fun out c => State.addAll out (State.scattered c (n.terms k state c).total)) out) := by
    rw [← Array.foldlM_toList, ← Array.foldl_toList]
    exact foldlM_eq_ok out fun c hc out =>
      addCluster_eq_ok (lacks_eq_false S hk (Array.mem_toList_iff.mp hc)) out
  refine ⟨_, ?_, ?_, fun c hc row hrow =>
    S.value_foldl_addAll hc hrow (fun c => (n.terms k state c).total) ho⟩
  · rw [addFluxes, checkInputs_eq_ok hk hs, checkSize, if_pos ho]
    exact hloop
  · rw [Population.foldl_addAll, State.size_addAll, ho]

/-- The breakdown of matching inputs is computed, and each part holds in each slot the row of its
    owner. -/
theorem fluxBreakdown_eq_ok (S : n.toPopulation.Sound) (hk : k.Fits n) (hs : state.size = n.dof) :
    ∃ b, n.fluxBreakdown k state = .ok b ∧ (∀ part ∈ b.parts, part.size = n.dof) ∧
      ∀ c ∈ n.clusters, ∀ row ∈ c.slots,
        State.value b.production row.2 = (n.terms k state c).production.get row.1 ∧
        State.value b.combination row.2 = (n.terms k state c).combination.get row.1 ∧
        State.value b.dissociation row.2 = (n.terms k state c).dissociation.get row.1 ∧
        State.value b.emission row.2 = (n.terms k state c).emission.get row.1 ∧
        State.value b.sink row.2 = (n.terms k state c).sink.get row.1 := by
  let part (f : FluxTerms α → MomentVector α) : Array α :=
    n.clusters.foldl (fun out c => State.putAll out (State.scattered c (f (n.terms k state c))))
      (State.zeros n.dof)
  have hsize : ∀ f, (part f).size = n.dof := fun f => by
    simp only [part]
    rw [Population.foldl_putAll, State.size_putAll, State.zeros, Array.size_replicate]
  have hvalue : ∀ f, ∀ c ∈ n.clusters, ∀ row ∈ c.slots,
      State.value (part f) row.2 = (f (n.terms k state c)).get row.1 := fun f c hc row hrow =>
    S.value_foldl_putAll hc hrow (fun c => f (n.terms k state c)) (by simp [State.zeros])
  refine ⟨⟨part (·.production), part (·.combination), part (·.dissociation), part (·.emission),
    part (·.sink)⟩, ?_, ?_, fun c hc row hrow => ⟨hvalue _ c hc row hrow, hvalue _ c hc row hrow,
      hvalue _ c hc row hrow, hvalue _ c hc row hrow, hvalue _ c hc row hrow⟩⟩
  · simp only [part, ← Array.foldl_toList]
    rw [fluxBreakdown, checkInputs_eq_ok hk hs, ← FluxBreakdown.foldl_zipTerms (n.terms k state)
      (fun c v out => State.putAll out (State.scattered c v)) n.clusters.toList
      ⟨State.zeros n.dof, State.zeros n.dof, State.zeros n.dof, State.zeros n.dof, State.zeros n.dof⟩]
    show n.clusters.foldlM (n.putCluster k state) _ = _
    rw [← Array.foldlM_toList]
    exact foldlM_eq_ok _ fun c hc b =>
      putCluster_eq_ok (lacks_eq_false S hk (Array.mem_toList_iff.mp hc)) b
  · simp [FluxBreakdown.parts, hsize]

end Network

namespace Chain

/-- A different rate for each reaction of the small network. -/
def constants : RateConstants ℚ := ⟨1, #[1, 2, 3, 4, 5, 6], #[7, 0, 0], 3⟩

/-- Three concentrations and one moment. -/
def state : Array ℚ := #[5, 3, 2, 1]

theorem constants_fit {n : Network ℚ} (hc : n.clusters.size = 3) (hr : n.reactions.size = 6) :
    constants.Fits n := ⟨hr.symm, hc.symm⟩

theorem size_state {n : Network ℚ} (hd : n.dof = 4) : state.size = n.dof := hd.symm

end Chain
end ClusterDynamics
