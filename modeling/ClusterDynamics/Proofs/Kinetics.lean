import ClusterDynamics.Proofs.Rows

/-! Composition-resolved kinetics. A reaction stands for one event per composition of its first cluster:
    single compositions are removed and created at a rate. The flux of a cluster is the projection, onto
    the weights of its rows, of what these events do inside its region, less what its sink takes. -/

namespace ClusterDynamics

/-! ### Events -/

/-- Compositions that are removed and created together, at a rate. -/
structure Event (K : Type) where
  rate : K
  removed : Multiset Point
  created : Multiset Point

namespace Event

section
variable {K : Type} [Field K]

/-- The rate at which events create a composition. -/
noncomputable def gain (events : Multiset (Event K)) (x : Point) : K :=
  (events.map fun e => e.rate * (e.created.count x : K)).sum

/-- The rate at which events remove a composition. -/
noncomputable def loss (events : Multiset (Event K)) (x : Point) : K :=
  (events.map fun e => e.rate * (e.removed.count x : K)).sum

/-- The change of a quantity of compositions in an event. -/
noncomputable def effect (f : Point → K) (e : Event K) : K :=
  e.rate * ((e.created.map f).sum - (e.removed.map f).sum)

theorem sum_mul_count (r : Region) (w : Point → K) (m : Multiset Point) :
    ∑ x ∈ r.lattice, w x * (m.count x : K) = (m.map (r.restrict w)).sum := by
  induction m using Multiset.induction_on with
  | empty => simp
  | cons y m ih =>
    have hhead : ∑ x ∈ r.lattice, (if x = y then w x else 0) = r.restrict w y := by
      rw [Finset.sum_ite_eq', Region.restrict]
      simp only [Region.mem_lattice]
    rw [Multiset.map_cons, Multiset.sum_cons, ← ih, ← hhead, ← Finset.sum_add_distrib]
    refine Finset.sum_congr rfl fun x _ => ?_
    rw [Multiset.count_cons]
    split_ifs with h
    · push_cast
      ring
    · simp

/-- What events do to the compositions of a region, weighted by `w`. -/
theorem sum_gain_sub_loss (r : Region) (w : Point → K) (events : Multiset (Event K)) :
    ∑ x ∈ r.lattice, w x * (gain events x - loss events x) =
      (events.map (effect (r.restrict w))).sum := by
  induction events using Multiset.induction_on with
  | empty => simp [gain, loss]
  | cons e events ih =>
    have hsplit : ∀ x, w x * (gain (e ::ₘ events) x - loss (e ::ₘ events) x) =
        e.rate * (w x * (e.created.count x : K)) - e.rate * (w x * (e.removed.count x : K)) +
          w x * (gain events x - loss events x) := fun x => by
      simp only [gain, loss, Multiset.map_cons, Multiset.sum_cons]
      ring
    simp only [hsplit, Finset.sum_add_distrib, Finset.sum_sub_distrib, ← Finset.mul_sum,
      sum_mul_count, ih, Multiset.map_cons, Multiset.sum_cons, effect]
    ring

end

end Event

namespace Network

variable {K : Type} [Field K] [LinearOrder K]

/-- The events that a numbered reaction stands for. In a production the composition `y` of the first
    cluster meets the point `s` of the second one, provided that `y + s` has an owner or is nothing at
    all; in a dissociation `y` falls apart into the monomer at `m` and a composition of the remainder. -/
noncomputable def eventsOf (n : Network K) (k : RateConstants K) (state : Array K) (i : Nat) :
    Reaction K → Multiset (Event K)
  | .production first second =>
    match n.region? first, n.region? second with
    | some g, some s =>
      (g.lattice.filter fun y => y.add s.lo = Point.origin ∨ n.owns (y.add s.lo)).val.map fun y =>
        { rate := k.rate i * n.concentration state first y * n.concentration state second s.lo
          removed := {y, s.lo}
          created := if y.add s.lo = Point.origin then 0 else {y.add s.lo} }
    | _, _ => 0
  | .dissociation parent first second _ _ =>
    match n.region? parent, n.region? first, n.region? second with
    | some p, some m, some r =>
      (p.lattice.filter fun y => r.contains (y.add m.lo.neg)).val.map fun y =>
        { rate := k.rate i * n.concentration state parent y
          removed := {y}
          created := {m.lo, y.add m.lo.neg} }
    | _, _, _ => 0

noncomputable def events (n : Network K) (k : RateConstants K) (state : Array K) :
    Multiset (Event K) :=
  (n.reactions.toList.zipIdx.map fun r => n.eventsOf k state r.2 r.1).sum

end Network

/-! ### Effects of reactions -/

section
variable {K : Type} [Field K]

/-- When no cluster sits at the origin, an encounter does to a quantity what the meetings of all its
    compositions do that annihilate or have an owner for their product. -/
theorem Encounter.effect_ofOperands {p : Population K} (S : p.Sound) (h0 : p.owns Point.origin = false)
    (g s : Cluster K) (f conc : Point → K) (rate : K) :
    (ofOperands p g s).effect f conc rate =
      ∑ y ∈ g.region.lattice with
          y.add s.region.lo = Point.origin ∨ p.owns (y.add s.region.lo) = true,
        conc y * rate * ((if y.add s.region.lo = Point.origin then 0 else f (y.add s.region.lo)) +
          (-f y + -f s.region.lo)) := by
  rw [← sum_pieces _ S h0, effect]
  refine congrArg List.sum (List.map_congr_left fun q hq => Finset.sum_congr rfl fun y hy => ?_)
  change conc y * rate * ((if q.product.isSome then f (y.add s.region.lo) else 0) +
    (-f y + -f s.region.lo)) = _
  rcases of_mem_pieces S hq with ⟨hnone, hbox, -⟩ | ⟨c, hc, hsome, hbox⟩
  · rw [hbox, Region.lattice_unit, Finset.mem_singleton] at hy
    rw [hnone, if_neg (by simp), if_pos (Point.add_eq_origin.mpr hy)]
  · have hproduct : y.add s.region.lo ≠ Point.origin := fun h => by
      have howns := Population.owns_iff.mpr ⟨c, hc, (mem_box hbox hy).2⟩
      rw [h, h0] at howns
      exact Bool.false_ne_true howns
    rw [hsome, Option.isSome_some, if_pos rfl, if_neg hproduct]

end

namespace Network

variable {K : Type} [Field K] [LinearOrder K] {n : Network K} {k : RateConstants K} {state : Array K}

theorem sum_effect_production (S : n.toPopulation.Sound) (h0 : n.owns Point.origin = false)
    {g s : Cluster K} (hg : g ∈ n.clusters) (hs : s ∈ n.clusters) (h : s.isGrouped = false) (i : Nat)
    (f : Point → K) :
    ((n.eventsOf k state i (.production g.id s.id)).map (Event.effect f)).sum =
      (Encounter.ofOperands n.toPopulation g s).effect f (n.concentration state g.id)
        (k.rate i * State.value state s.id) := by
  rw [Encounter.effect_ofOperands S h0, eventsOf, S.region?_id hg, S.region?_id hs, Multiset.map_map,
    Finset.sum]
  refine congrArg Multiset.sum (Multiset.map_congr rfl fun y _ => ?_)
  rw [Function.comp_apply, Event.effect, concentration_single S hs h]
  split_ifs <;> simp <;> ring

theorem sum_effect_dissociation (S : n.toPopulation.Sound) {d : Channel}
    {parent monomer remainder : Cluster K} (hd : d.Joins parent monomer remainder)
    (hp : parent ∈ n.clusters) (hm : monomer ∈ n.clusters) (hr : remainder ∈ n.clusters) (i j : Nat)
    (energy : K) (f : Point → K) :
    ((n.eventsOf k state i (.dissociation d.parent d.monomer d.remainder j energy)).map
        (Event.effect f)).sum =
      d.effect f (n.concentration state d.parent) (k.rate i) := by
  have hbox : d.box.lattice =
      parent.region.lattice.filter fun y => remainder.region.contains (y.add d.offset.neg) := by
    rw [Region.lattice_of_intersection? hd.box_eq]
    ext y
    simp only [Finset.mem_inter, Finset.mem_filter, Region.mem_lattice, Region.contains_shifted]
  rw [Channel.effect, hbox, eventsOf, hd.parent_eq, hd.monomer_eq, hd.remainder_eq, S.region?_id hp,
    S.region?_id hm, S.region?_id hr, Multiset.map_map, hd.offset_eq, Finset.sum]
  refine congrArg Multiset.sum (Multiset.map_congr rfl fun y _ => ?_)
  rw [Function.comp_apply, Event.effect]
  simp
  ring

/-- When no cluster sits at the origin, the encounters and channels of a network have the effects of its
    events. -/
theorem Built.sum_effect (hn : n.Built) (h0 : n.owns Point.origin = false) (f : Point → K) :
    ((n.events k state).map (Event.effect f)).sum =
      (n.plan.productions.zipIdx.map fun e => e.1.effect f (n.concentration state e.1.first)
          (k.rate e.2 * State.value state e.1.second)).sum +
        ((n.plan.dissociations.zipIdx n.plan.productions.length).map fun d =>
          d.1.1.effect f (n.concentration state d.1.1.parent) (k.rate d.2)).sum := by
  have hlist : ∀ l : List (Multiset (Event K)),
      (l.sum.map (Event.effect f)).sum = (l.map fun m => (m.map (Event.effect f)).sum).sum := by
    intro l
    induction l with
    | nil => simp
    | cons m l ih => simp [ih]
  rw [events, hlist, hn.zipIdx_reactions, List.map_map, List.map_append, List.sum_append, List.map_map,
    List.map_map]
  refine congrArg₂ _ (congrArg List.sum (List.map_congr_left fun e he => ?_))
    (congrArg List.sum (List.map_congr_left fun d hd => ?_))
  · obtain ⟨g, hg, s, hs, hsingle, heq⟩ := of_mem_productions (List.fst_mem_of_mem_zipIdx he)
    change ((n.eventsOf k state e.2 (.production e.1.first e.1.second)).map _).sum = _
    rw [heq]
    exact sum_effect_production hn.sound h0 hg hs hsingle e.2 f
  · obtain ⟨parent, hp, monomer, hm, remainder, hr, hj⟩ :=
      hn.of_mem_dissociations (List.fst_mem_of_mem_zipIdx hd)
    exact sum_effect_dissociation hn.sound hj hp hm hr d.2 d.1.2 _ f

/-! ### Fluxes -/

/-- A sink takes from the clusters that it acts on at all. -/
theorem get_sinkTerm {c : Cluster K} {j : BasisIndex} {slot : Nat} (hslot : (j, slot) ∈ c.slots) :
    (n.terms k state c).sink.get j =
      -(max (n.sinkOf c.id) 0 * (k.diffusion? c.id).getD 0 * State.value state slot) := by
  rw [terms, sinkTerm]
  split_ifs with h
  · rw [MomentVector.get_sub, MomentVector.get_zero, MomentVector.get_scale, State.get_gather hslot,
      max_eq_left h.le]
    ring
  · rw [MomentVector.get_zero, max_eq_right (not_lt.mp h)]
    ring

theorem get_total (t : FluxTerms K) (j : BasisIndex) :
    t.total.get j = t.production.get j + t.combination.get j +
      (t.dissociation.get j + t.emission.get j) + t.sink.get j := by
  simp only [FluxTerms.total, MomentVector.get_add]
  ring

variable [IsStrictOrderedRing K]

/-- In a network without a cluster at the origin the flux is the composition-resolved kinetics: each
    slot gains what the events do inside the region of its cluster, weighted by the row of the slot,
    and loses what the sink takes. -/
theorem addFluxes_eq_events {params : NetworkParams K} {material : Material K} {b : Builder K}
    (hb : b.Reachable params material) (hn : b.finish = .ok n) (h0 : n.owns Point.origin = false)
    (hk : k.Fits n) (hstate : state.size = n.dof) {out : Array K} (hout : out.size = n.dof) :
    ∃ out', n.addFluxes k state out = .ok out' ∧ out'.size = n.dof ∧
      ∀ c ∈ n.clusters, ∀ row ∈ c.slots,
        State.value out' row.2 = State.value out row.2 +
          (∑ x ∈ c.region.lattice, Moment.weight c.region row.1 x *
              (Event.gain (n.events k state) x - Event.loss (n.events k state) x) -
            max (n.sinkOf c.id) 0 * (k.diffusion? c.id).getD 0 * State.value state row.2) := by
  obtain ⟨hbuilt, -⟩ := built_of_finish hb hn
  obtain ⟨out', hok, hsize, hrows⟩ := addFluxes_eq_ok hbuilt.sound hk hstate hout
  refine ⟨out', hok, hsize, fun c hc row hrow => ?_⟩
  rw [hrows c hc row hrow, get_total, get_production_add_combination hbuilt hc,
    get_dissociation_add_emission hbuilt hc, ← hbuilt.sum_effect h0, get_sinkTerm hrow,
    Event.sum_gain_sub_loss, ← sub_eq_add_neg]

/-- The small network takes part: its flux adds up pairs, absorption, emission and a sink. -/
theorem chain_addFluxes : ∃ n, Chain.builder.finish = .ok n ∧ n.owns Point.origin = false ∧
    Chain.constants.Fits n ∧ Chain.state.size = n.dof ∧
    ∃ out', n.addFluxes Chain.constants Chain.state (State.zeros n.dof) = .ok out' ∧
      out'.size = n.dof ∧ ∀ c ∈ n.clusters, ∀ row ∈ c.slots,
        State.value out' row.2 = State.value (State.zeros n.dof) row.2 +
          (∑ x ∈ c.region.lattice, Moment.weight c.region row.1 x *
              (Event.gain (n.events Chain.constants Chain.state) x -
                Event.loss (n.events Chain.constants Chain.state) x) -
            max (n.sinkOf c.id) 0 * (Chain.constants.diffusion? c.id).getD 0 *
              State.value Chain.state row.2) := by
  obtain ⟨n, hn, hc, hd, hr, h0⟩ := Chain.finish_ok
  have hk := Chain.constants_fit hc hr
  have hs := Chain.size_state hd
  exact ⟨n, hn, h0, hk, hs,
    addFluxes_eq_events Chain.reachable hn h0 hk hs (State.size_zeros n.dof)⟩

end Network
end ClusterDynamics
