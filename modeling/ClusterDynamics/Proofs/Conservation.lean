import ClusterDynamics.Inventory
import ClusterDynamics.Proofs.Rows

/-! Reactions conserve defects. The content of a state along an axis is the sum of the coordinates of its
    compositions, so a reaction changes it by the coordinates of what it makes less those of what it
    takes, which is nothing. What remains of the rate at which the content changes is the sinks. -/

namespace ClusterDynamics

variable {K : Type} [Field K]

/-! ### Effects are linear -/

namespace Encounter

variable (e : Encounter) (f g conc : Point → K) (rate : K)

theorem effect_add : e.effect (f + g) conc rate = e.effect f conc rate + e.effect g conc rate := by
  simp only [effect, ← List.sum_map_add, ← Finset.sum_add_distrib, Pi.add_apply]
  refine congrArg List.sum (List.map_congr_left fun q _ => Finset.sum_congr rfl fun y _ => ?_)
  split_ifs <;> ring

theorem effect_smul (t : K) : e.effect (t • f) conc rate = t * e.effect f conc rate := by
  simp only [effect, ← List.sum_map_mul_left, Finset.mul_sum, Pi.smul_apply, smul_eq_mul]
  refine congrArg List.sum (List.map_congr_left fun q _ => Finset.sum_congr rfl fun y _ => ?_)
  split_ifs <;> ring

end Encounter

namespace Channel

variable (c : Channel) (f g conc : Point → K) (rate : K)

theorem effect_add : c.effect (f + g) conc rate = c.effect f conc rate + c.effect g conc rate := by
  simp only [effect, ← Finset.sum_add_distrib, Pi.add_apply]
  exact Finset.sum_congr rfl fun y _ => by ring

theorem effect_smul (t : K) : c.effect (t • f) conc rate = t * c.effect f conc rate := by
  simp only [effect, Finset.mul_sum, Pi.smul_apply, smul_eq_mul]
  exact Finset.sum_congr rfl fun y _ => by ring

end Channel

namespace Network

variable [LinearOrder K]

/-- The change of a quantity in all encounters together. -/
noncomputable def productionEffect (n : Network K) (k : RateConstants K) (state : Array K) :
    (Point → K) →ₗ[K] K where
  toFun f := (n.plan.productions.zipIdx.map fun e =>
    e.1.effect f (n.concentration state e.1.first) (k.rate e.2 * State.value state e.1.second)).sum
  map_add' f g := by simp only [Encounter.effect_add, List.sum_map_add]
  map_smul' t f := by
    simp only [Encounter.effect_smul, List.sum_map_mul_left, RingHom.id_apply, smul_eq_mul]

/-- The change of a quantity in all channels together. -/
noncomputable def dissociationEffect (n : Network K) (k : RateConstants K) (state : Array K) :
    (Point → K) →ₗ[K] K where
  toFun f := ((n.plan.dissociations.zipIdx n.plan.productions.length).map fun d =>
    d.1.1.effect f (n.concentration state d.1.1.parent) (k.rate d.2)).sum
  map_add' f g := by simp only [Channel.effect_add, List.sum_map_add]
  map_smul' t f := by
    simp only [Channel.effect_smul, List.sum_map_mul_left, RingHom.id_apply, smul_eq_mul]

end Network

/-! ### Coordinates -/

/-- The coordinate of a composition that has an owner. -/
def Population.coordinate (p : Population K) (a : Direction) (x : Point) : K :=
  if p.owns x then x.get a else 0

namespace Population

variable {p : Population K}

theorem coordinate_of_contains {c : Cluster K} (hc : c ∈ p.clusters) {x : Point}
    (hx : c.region.contains x = true) (a : Direction) : p.coordinate a x = x.get a :=
  if_pos (owns_iff.mpr ⟨c, hc, hx⟩)

theorem coordinate_lo (S : p.Sound) {s : Cluster K} (hs : s ∈ p.clusters) (h : s.isGrouped = false)
    (a : Direction) : p.coordinate a s.region.lo = s.region.lo.get a := by
  refine coordinate_of_contains hs ?_ a
  rw [← Region.mem_lattice, Region.lattice_of_isUnit (S.isUnit hs h)]
  exact Finset.mem_singleton_self _

end Population

/-- What an encounter makes has the coordinates of what it takes, also when nothing is left. -/
theorem Encounter.effect_coordinate {p : Population K} (S : p.Sound) {g s : Cluster K}
    (hg : g ∈ p.clusters) (hs : s ∈ p.clusters) (h : s.isGrouped = false) (conc : Point → K) (rate : K)
    (a : Direction) : (ofOperands p g s).effect (p.coordinate a) conc rate = 0 := by
  refine List.sum_eq_zero fun z hz => ?_
  obtain ⟨q, hq, rfl⟩ := List.mem_map.mp hz
  refine Finset.sum_eq_zero fun y hy => mul_eq_zero_of_right _ ?_
  change (if q.product.isSome then p.coordinate a (y.add s.region.lo) else 0) +
    (-p.coordinate a y + -p.coordinate a s.region.lo) = 0
  rw [Population.coordinate_of_contains hg (contains_of_mem_pieces S hq hy),
    Population.coordinate_lo S hs h]
  rcases of_mem_pieces S hq with ⟨hnone, hbox, -⟩ | ⟨c, hc, hsome, hbox⟩
  · rw [hbox, Region.lattice_unit, Finset.mem_singleton] at hy
    rw [hnone, if_neg (by simp), hy, Point.get_neg]
    push_cast
    ring
  · rw [hsome, Option.isSome_some, if_pos rfl,
      Population.coordinate_of_contains hc (mem_box hbox hy).2, Point.get_add]
    push_cast
    ring

/-- A channel leaves the coordinates of the parent, shared between monomer and remainder. -/
theorem Channel.effect_coordinate {p : Population K} (S : p.Sound) {d : Channel}
    {parent monomer remainder : Cluster K} (hd : d.Joins parent monomer remainder)
    (hp : parent ∈ p.clusters) (hm : monomer ∈ p.clusters) (hr : remainder ∈ p.clusters)
    (conc : Point → K) (rate : K) (a : Direction) : d.effect (p.coordinate a) conc rate = 0 := by
  refine Finset.sum_eq_zero fun y hy => mul_eq_zero_of_right _ ?_
  rw [Region.lattice_of_intersection? hd.box_eq, Finset.mem_inter, Region.mem_lattice,
    Region.mem_lattice, Region.contains_shifted] at hy
  rw [Population.coordinate_of_contains hp hy.1, Population.coordinate_of_contains hr hy.2,
    hd.offset_eq, Population.coordinate_lo S hm hd.single, Point.get_add, Point.get_neg]
  push_cast
  ring

/-! ### Content -/

variable [LinearOrder K]

/-- What the moments of a cluster add to the content along an axis. -/
def Moment.total (r : Region) (a : Direction) (v : MomentVector K) : K :=
  volume r * center r a * v.get ⟨0, Nat.succ_pos maxAxes⟩ + halfWidth r a * norm r a * v.get a.succ

theorem Moment.total_eq (r : Region) (a : Direction) (v : MomentVector K) :
    total r a v = volume r * center r a * v.get 0 + halfWidth r a * norm r a * v.get a.succ := rfl

theorem Moment.total_add (r : Region) (a : Direction) (v w : MomentVector K) :
    total r a (v.add w) = total r a v + total r a w := by
  simp only [total_eq, MomentVector.get_add]
  ring

/-- Both moments of the weights of a region, applied to whatever is linear in them, give its coordinate
    along the axis. -/
theorem Moment.total_of_linear [IsStrictOrderedRing K] {p : Population K} (S : p.Sound)
    (T : (Point → K) →ₗ[K] K) (a : Direction) :
    (p.clusters.toList.map fun c =>
      volume c.region * center c.region a * T (c.region.restrict (weight c.region 0)) +
        halfWidth c.region a * norm c.region a * T (c.region.restrict (weight c.region a.succ))).sum =
      T (p.coordinate a) := by
  have hcluster : ∀ c : Cluster K,
      volume c.region * center c.region a * T (c.region.restrict (weight c.region 0)) +
        halfWidth c.region a * norm c.region a * T (c.region.restrict (weight c.region a.succ)) =
      T fun x => if c.region.contains x then (x.get a : K) else 0 := by
    intro c
    rw [← smul_eq_mul, ← smul_eq_mul (a := halfWidth c.region a * _), ← map_smul, ← map_smul, ← map_add]
    refine congrArg T (funext fun x => ?_)
    simp only [Pi.add_apply, Pi.smul_apply, smul_eq_mul, Region.restrict]
    split_ifs with h
    · exact coordinate_of_weights h a
    · ring
  have hpoint : (p.clusters.toList.map fun (c : Cluster K) (x : Point) =>
      if c.region.contains x then (x.get a : K) else 0).sum = p.coordinate a := by
    funext x
    rw [Pi.list_sum_apply, List.map_map]
    exact S.sum_owner x _
  simp only [hcluster]
  rw [← hpoint, map_list_sum, List.map_map]
  rfl

namespace Network

variable {n : Network K} {k : RateConstants K} {state : Array K}

theorem addContent_eq (S : n.toPopulation.Sound) {c : Cluster K} (hc : c ∈ n.clusters)
    {f : MomentVector K} (hf : ∀ row ∈ c.slots, State.value state row.2 = f.get row.1) (a : Direction)
    (t : K) : addContent state a t c = t + Moment.total c.region a f := by
  have hmean : State.value state c.id = f.get 0 := hf (0, c.id) (Cluster.mem_slots.mpr rfl)
  rw [Moment.total_eq]
  unfold addContent
  rw [hmean]
  cases hslot : c.moments.get a with
  | some slot =>
    have hmem : (a.succ, slot) ∈ c.slots := by
      rw [Cluster.slots_eq]
      exact List.mem_cons_of_mem _ (List.mem_filterMap.mpr ⟨a, mem_directions a, by rw [hslot]; rfl⟩)
    have hmoment : State.value state slot = f.get a.succ := hf _ hmem
    simp only [hmoment]
    ring
  | none =>
    have hwidth : Moment.isGrouped c.region a = false := by
      have := S.moments c hc a
      rw [hslot] at this
      exact this.symm
    simp [Moment.halfWidth, hwidth]

/-- The content of a state whose slots hold given rows. -/
theorem content_of_rows (S : n.toPopulation.Sound) (hsize : state.size = n.dof)
    {f : Cluster K → MomentVector K}
    (hf : ∀ c ∈ n.clusters, ∀ row ∈ c.slots, State.value state row.2 = (f c).get row.1) :
    n.content state = .ok (Vector.ofFn fun a =>
      (n.clusters.toList.map fun c => Moment.total c.region a (f c)).sum) := by
  have hfold : ∀ (a : Direction) (l : List (Cluster K)), (∀ c ∈ l, c ∈ n.clusters) → ∀ t : K,
      l.foldl (addContent state a) t = t + (l.map fun c => Moment.total c.region a (f c)).sum := by
    intro a l
    induction l with
    | nil => intro _ t; simp
    | cons c l ih =>
      intro hl t
      have hc := hl c List.mem_cons_self
      rw [List.foldl_cons, ih (fun d hd => hl d (List.mem_cons_of_mem c hd)),
        addContent_eq S hc (hf c hc), List.map_cons, List.sum_cons, add_assoc]
  rw [content, if_neg (not_not.mpr hsize)]
  congr 2
  funext a
  rw [← Array.foldl_toList, hfold a _ (fun c hc => Array.mem_toList_iff.mp hc), zero_add]

/-! ### Rates of change -/

theorem productionEffect_coordinate (hn : n.Built) (a : Direction) :
    n.productionEffect k state (n.coordinate a) = 0 := by
  refine List.sum_eq_zero fun z hz => ?_
  obtain ⟨e, he, rfl⟩ := List.mem_map.mp hz
  obtain ⟨g, hg, s, hs, hsingle, heq⟩ := of_mem_productions (List.fst_mem_of_mem_zipIdx he)
  rw [heq]
  exact Encounter.effect_coordinate hn.sound hg hs hsingle _ _ a

theorem dissociationEffect_coordinate (hn : n.Built) (a : Direction) :
    n.dissociationEffect k state (n.coordinate a) = 0 := by
  refine List.sum_eq_zero fun z hz => ?_
  obtain ⟨d, hd, rfl⟩ := List.mem_map.mp hz
  obtain ⟨parent, hp, monomer, hm, remainder, hr, hj⟩ :=
    hn.of_mem_dissociations (List.fst_mem_of_mem_zipIdx hd)
  exact Channel.effect_coordinate hn.sound hj hp hm hr _ _ a

/-- The content of rows, summed over all clusters. -/
def rowContent (n : Network K) (f : Cluster K → MomentVector K) (a : Direction) : K :=
  (n.clusters.toList.map fun c => Moment.total c.region a (f c)).sum

theorem rowContent_add (f g : Cluster K → MomentVector K) (a : Direction) :
    n.rowContent (fun c => (f c).add (g c)) a = n.rowContent f a + n.rowContent g a := by
  simp only [rowContent, Moment.total_add, List.sum_map_add]

/-- Without a positive loss coefficient the sinks take nothing. -/
theorem rowContent_sink_eq_zero (hnone : ∀ c ∈ n.clusters, n.sinkOf c.id ≤ 0) (a : Direction) :
    n.rowContent (fun c => (n.terms k state c).sink) a = 0 := by
  refine List.sum_eq_zero fun z hz => ?_
  obtain ⟨c, hc, rfl⟩ := List.mem_map.mp hz
  have hzero : (n.terms k state c).sink = MomentVector.zero :=
    if_neg (not_lt.mpr (hnone c (Array.mem_toList_iff.mp hc)))
  simp [hzero, Moment.total_eq, MomentVector.get_zero]

variable [IsStrictOrderedRing K]

/-- Rows that are the effects on their weights have the content of the effect on the coordinate. -/
theorem rowContent_of_effect (hn : n.Built) {f g : Cluster K → MomentVector K}
    {T : (Point → K) →ₗ[K] K}
    (hrow : ∀ c ∈ n.clusters, ∀ j, (f c).get j + (g c).get j =
      T (c.region.restrict (Moment.weight c.region j))) (a : Direction) :
    n.rowContent f a + n.rowContent g a = T (n.coordinate a) := by
  rw [rowContent, rowContent, ← List.sum_map_add, ← Moment.total_of_linear hn.sound]
  refine congrArg List.sum (List.map_congr_left fun c hc => ?_)
  rw [← hrow c (Array.mem_toList_iff.mp hc), ← hrow c (Array.mem_toList_iff.mp hc), Moment.total_eq,
    Moment.total_eq]
  ring

/-- What productions add to the content, they take from it. -/
theorem rowContent_production (hn : n.Built) (a : Direction) :
    n.rowContent (fun c => (n.terms k state c).production) a +
      n.rowContent (fun c => (n.terms k state c).combination) a = 0 :=
  (rowContent_of_effect hn (T := n.productionEffect k state)
    (fun _ hc j => get_production_add_combination hn hc j) a).trans (productionEffect_coordinate hn a)

/-- What dissociations add to the content, they take from it. -/
theorem rowContent_dissociation (hn : n.Built) (a : Direction) :
    n.rowContent (fun c => (n.terms k state c).dissociation) a +
      n.rowContent (fun c => (n.terms k state c).emission) a = 0 :=
  (rowContent_of_effect hn (T := n.dissociationEffect k state)
    (fun _ hc j => get_dissociation_add_emission hn hc j) a).trans (dissociationEffect_coordinate hn a)

/-- Only the sinks are left of the whole flux. -/
theorem rowContent_total (hn : n.Built) (a : Direction) :
    n.rowContent (fun c => (n.terms k state c).total) a =
      n.rowContent (fun c => (n.terms k state c).sink) a := by
  simp only [FluxTerms.total, rowContent_add, rowContent_production hn, zero_add]
  rw [rowContent_dissociation hn, zero_add]

/-- The content changes at the rate that the sinks alone have. Productions and dissociations cancel,
    whatever the single rate constants are, so without a sink nothing changes. -/
theorem contentRate_eq_content_sink {params : NetworkParams K} {material : Material K} {b : Builder K}
    (hb : b.Reachable params material) (hfinish : b.finish = .ok n) (hk : k.Fits n)
    (hstate : state.size = n.dof) :
    ∃ parts rate, n.fluxBreakdown k state = .ok parts ∧ n.contentRate k state = .ok rate ∧
      n.content parts.sink = .ok rate ∧
      ((∀ c ∈ n.clusters, n.sinkOf c.id ≤ 0) → ∀ a, rate.get a = 0) ∧
      ∃ made met released shed, n.content parts.production = .ok made ∧
        n.content parts.combination = .ok met ∧ n.content parts.dissociation = .ok released ∧
        n.content parts.emission = .ok shed ∧
        ∀ a, made.get a + met.get a = 0 ∧ released.get a + shed.get a = 0 := by
  obtain ⟨hn, -⟩ := built_of_finish hb hfinish
  have S := hn.sound
  obtain ⟨parts, hparts, hsizes, hvalues⟩ := fluxBreakdown_eq_ok S hk hstate
  obtain ⟨flux, hflux, hsize, hflow⟩ :=
    addFluxes_eq_ok S hk hstate (State.size_zeros n.dof)
  have hof : ∀ f : Cluster K → MomentVector K, ∀ part ∈ parts.parts,
      (∀ c ∈ n.clusters, ∀ row ∈ c.slots, State.value part row.2 = (f c).get row.1) →
        n.content part = .ok (Vector.ofFn (n.rowContent f)) :=
    fun f part hpart hf => content_of_rows S (hsizes part hpart) hf
  have hsink := hof (fun c => (n.terms k state c).sink) parts.sink (by simp [FluxBreakdown.parts])
    fun c hc row hrow => (hvalues c hc row hrow).2.2.2.2
  refine ⟨parts, Vector.ofFn (n.rowContent fun c => (n.terms k state c).sink), hparts, ?_, hsink, ?_,
    _, _, _, _,
    hof (fun c => (n.terms k state c).production) parts.production (by simp [FluxBreakdown.parts])
      fun c hc row hrow => (hvalues c hc row hrow).1,
    hof (fun c => (n.terms k state c).combination) parts.combination (by simp [FluxBreakdown.parts])
      fun c hc row hrow => (hvalues c hc row hrow).2.1,
    hof (fun c => (n.terms k state c).dissociation) parts.dissociation (by simp [FluxBreakdown.parts])
      fun c hc row hrow => (hvalues c hc row hrow).2.2.1,
    hof (fun c => (n.terms k state c).emission) parts.emission (by simp [FluxBreakdown.parts])
      fun c hc row hrow => (hvalues c hc row hrow).2.2.2.1, fun a => ⟨?_, ?_⟩⟩
  · have htotal := content_of_rows S hsize (f := fun c => (n.terms k state c).total)
      fun c hc row hrow => by rw [hflow c hc row hrow, State.value_zeros, zero_add]
    rw [contentRate, hflux]
    refine htotal.trans ?_
    exact congrArg (fun v => Except.ok (Vector.ofFn v)) (funext fun a => rowContent_total hn a)
  · intro hnone a
    rw [get_ofFn]
    exact rowContent_sink_eq_zero hnone a
  · rw [get_ofFn, get_ofFn]
    exact rowContent_production hn a
  · rw [get_ofFn, get_ofFn]
    exact rowContent_dissociation hn a

/-- The small network loses single atoms to its sink, and nothing else. -/
theorem chain_contentRate : ∃ n, Chain.builder.finish = .ok n ∧ Chain.constants.Fits n ∧
    Chain.state.size = n.dof ∧
    ∃ parts rate, n.fluxBreakdown Chain.constants Chain.state = .ok parts ∧
      n.contentRate Chain.constants Chain.state = .ok rate ∧ n.content parts.sink = .ok rate ∧
      ((∀ c ∈ n.clusters, n.sinkOf c.id ≤ 0) → ∀ a, rate.get a = 0) ∧
      ∃ made met released shed, n.content parts.production = .ok made ∧
        n.content parts.combination = .ok met ∧ n.content parts.dissociation = .ok released ∧
        n.content parts.emission = .ok shed ∧
        ∀ a, made.get a + met.get a = 0 ∧ released.get a + shed.get a = 0 := by
  obtain ⟨n, hn, hc, hd, hr, -⟩ := Chain.finish_ok
  have hk := Chain.constants_fit hc hr
  have hs := Chain.size_state hd
  exact ⟨n, hn, hk, hs, contentRate_eq_content_sink Chain.reachable hn hk hs⟩

end Network
end ClusterDynamics
