import ClusterDynamics.Proofs.Overlap
import ClusterDynamics.Proofs.Reactions
import ClusterDynamics.Proofs.StateVector

/-! Rows as effects on compositions. A quantity `f` of compositions changes when compositions react: in an
    encounter `y` and `s` vanish and `y + s` appears, in a channel `y` falls apart into `m` and `y - m`.
    The terms that the flux adds to row `j` of a cluster are the effects of all encounters and channels
    on the weight of that row, which counts inside the cluster's region only. -/

namespace ClusterDynamics

/-! ### Quantities of compositions -/

section
variable {K : Type} [Field K]

/-- A quantity that counts inside a region only. -/
def Region.restrict (r : Region) (f : Point → K) (x : Point) : K := if r.contains x then f x else 0

/-- A quantity of one cluster, asked at a point that another cluster owns. -/
theorem Population.Sound.restrict_of_owner {p : Population K} (S : p.Sound) {c r : Cluster K}
    (hc : c ∈ p.clusters) (hr : r ∈ p.clusters) {x : Point} (hx : r.region.contains x = true) (f : Point → K) :
    c.region.restrict f x = if r.id = c.id then f x else 0 := by
  unfold Region.restrict
  by_cases h : r.id = c.id
  · rw [if_pos h, if_pos (S.eq_of_id hr hc h ▸ hx)]
  · rw [if_neg h, if_neg fun hcx => h (congrArg Cluster.id (S.eq_of_contains hr hc hx hcx))]

/-- The change of `f` in an encounter, when `conc` are the concentrations of the first cluster and the
    reactions run at the rate `rate` per concentration. -/
noncomputable def Encounter.effect (f : Point → K) (conc : Point → K) (rate : K) (e : Encounter) : K :=
  (e.pieces.map fun q => ∑ y ∈ q.box.lattice,
    conc y * rate * ((if q.product.isSome then f (y.add e.shift) else 0) + (-f y + -f e.shift))).sum

/-- The change of `f` in a channel. -/
noncomputable def Channel.effect (f : Point → K) (conc : Point → K) (rate : K) (c : Channel) : K :=
  ∑ y ∈ c.box.lattice, conc y * rate * (f (y.add c.offset.neg) + f c.offset + -f y)

end

variable {K : Type} [Field K] [LinearOrder K]

namespace Network

variable (n : Network K) (state : Array K)

/-- The concentration that a cluster assigns to a composition of its region. -/
def concentration (id : Nat) (y : Point) : K :=
  match n.clusters[id]? with
  | some c => Moment.density c.region (State.gather state c) y
  | none => 0

end Network

/-! ### Moments -/

theorem MomentVector.get_zero (j : BasisIndex) : (MomentVector.zero : MomentVector K).get j = 0 := by
  simp [MomentVector.zero, Vector.get]

theorem MomentVector.get_foldl_add {β : Type} (f : β → MomentVector K) (j : BasisIndex) (l : List β) :
    ∀ v : MomentVector K, (l.foldl (fun t r => t.add (f r)) v).get j =
      v.get j + (l.map fun r => (f r).get j).sum := by
  induction l with
  | nil => simp
  | cons r l ih =>
    intro v
    rw [List.foldl_cons, ih, MomentVector.get_add, List.map_cons, List.sum_cons, add_assoc]

theorem MomentVector.get_foldl_sub {β : Type} (f : β → MomentVector K) (j : BasisIndex) (l : List β) :
    ∀ v : MomentVector K, (l.foldl (fun t r => t.sub (f r)) v).get j =
      v.get j + (l.map fun r => -(f r).get j).sum := by
  induction l with
  | nil => simp
  | cons r l ih =>
    intro v
    rw [List.foldl_cons, ih, MomentVector.get_sub, List.map_cons, List.sum_cons, sub_eq_add_neg,
      add_assoc]

theorem MomentMatrix.get_add_mulVec (m m' : MomentMatrix K) (v : MomentVector K) (j : BasisIndex) :
    ((m.add m').mulVec v).get j = (m.mulVec v).get j + (m'.mulVec v).get j := by
  have hrow : ∀ i, ((m.add m').get j).get i = (m.get j).get i + (m'.get j).get i :=
    MomentMatrix.entry_add m m' j
  simp only [MomentMatrix.get_mulVec, Moment.dot_eq_sum, hrow, add_mul, Finset.sum_add_distrib]

theorem not_isGrouped_of_isUnit {r : Region} (h : r.isUnit = true) (a : Direction) :
    Moment.isGrouped r a = false := by
  rw [Moment.isGrouped, Region.isUnit_iff.mp h a]
  rfl

/-- On a single point the mean concentration is the concentration. -/
theorem density_of_isUnit {r : Region} (h : r.isUnit = true) (v : MomentVector K) (x : Point) :
    Moment.density r v x = v.get 0 := by
  rw [Moment.density, Fin.sum_univ_succ, Moment.phi_zero, one_mul]
  refine add_eq_left.mpr (Finset.sum_eq_zero fun a _ => ?_)
  have hunused : Moment.uses r a.succ = false := not_isGrouped_of_isUnit h a
  rw [Moment.phi_of_not_uses hunused, zero_mul]

/-- The weights of a single point do not ask where a density sits. -/
theorem weight_congr_of_isUnit {r : Region} (h : r.isUnit = true) (j : BasisIndex) (x y : Point) :
    (Moment.weight r j x : K) = Moment.weight r j y := by
  cases j using Fin.cases with
  | zero => rfl
  | succ a =>
    have hunused : Moment.uses r a.succ = false := not_isGrouped_of_isUnit h a
    rw [Moment.weight_of_not_uses hunused, Moment.weight_of_not_uses hunused]

/-! ### Clusters by number -/

namespace Network

variable {n : Network K} {k : RateConstants K} {state : Array K} {c g s : Cluster K}

theorem gather_id (S : n.toPopulation.Sound) (hc : c ∈ n.clusters) :
    n.gather state c.id = State.gather state c := by
  rw [gather, S.getElem?_id hc]

theorem concentration_id (S : n.toPopulation.Sound) (hc : c ∈ n.clusters) (y : Point) :
    n.concentration state c.id y = Moment.density c.region (State.gather state c) y := by
  rw [concentration, S.getElem?_id hc]

theorem get_zero_gather (state : Array K) (c : Cluster K) :
    (State.gather state c).get 0 = State.value state c.id :=
  State.get_gather (Cluster.mem_slots.mpr rfl)

theorem concentration_single (S : n.toPopulation.Sound) (hc : c ∈ n.clusters)
    (h : c.isGrouped = false) (y : Point) : n.concentration state c.id y = State.value state c.id := by
  rw [concentration_id S hc, density_of_isUnit (S.isUnit hc h), get_zero_gather]

/-! ### One record -/

/-- What a record adds to row `j` when the cluster is produced. -/
def productionRow (n : Network K) (k : RateConstants K) (state : Array K) (j : BasisIndex)
    (r : Record Couple K) : K :=
  (r.coefs.mulVec (n.gather state r.participants.first)).get j *
    (k.rate r.reaction * State.value state r.participants.second)

/-- What a record adds to row `j` when the cluster meets a partner. -/
def combinationRow (n : Network K) (k : RateConstants K) (state : Array K) (c : Cluster K)
    (j : BasisIndex) (r : Record Nat K) : K :=
  -((r.coefs.mulVec (State.gather state (n.combinationOperands c r.participants).1)).get j *
    (k.rate r.reaction * State.value state (n.combinationOperands c r.participants).2.id))

/-- What a record adds to row `j` when the cluster is released. -/
def dissociationRow (n : Network K) (k : RateConstants K) (state : Array K) (j : BasisIndex)
    (r : Record Nat K) : K :=
  (r.coefs.mulVec (n.gather state r.participants)).get j * k.rate r.reaction

/-- What a record adds to row `j` when the cluster falls apart. -/
def emissionRow (k : RateConstants K) (state : Array K) (c : Cluster K) (j : BasisIndex)
    (r : Record Couple K) : K :=
  -((r.coefs.mulVec (State.gather state c)).get j * k.rate r.reaction)

theorem get_productionTerm (links : Links K) (j : BasisIndex) :
    (n.productionTerm k state links).get j = (links.production.map (n.productionRow k state j)).sum := by
  rw [productionTerm, MomentVector.get_foldl_add, MomentVector.get_zero, zero_add]
  simp only [MomentVector.get_scale]
  rfl

theorem get_combinationTerm (links : Links K) (j : BasisIndex) :
    (n.combinationTerm k state c links).get j =
      (links.combining.map (n.combinationRow k state c j)).sum := by
  rw [combinationTerm, MomentVector.get_foldl_sub, MomentVector.get_zero, zero_add]
  simp only [MomentVector.get_scale]
  rfl

theorem get_dissociationTerm (links : Links K) (j : BasisIndex) :
    (n.dissociationTerm k state links).get j =
      (links.dissociating.map (n.dissociationRow k state j)).sum := by
  rw [dissociationTerm, MomentVector.get_foldl_add, MomentVector.get_zero, zero_add]
  simp only [MomentVector.get_scale]
  rfl

theorem get_emissionTerm (links : Links K) (j : BasisIndex) :
    (emissionTerm k state c links).get j = (links.emission.map (emissionRow k state c j)).sum := by
  rw [emissionTerm, MomentVector.get_foldl_sub, MomentVector.get_zero, zero_add]
  simp only [MomentVector.get_scale]
  rfl

theorem additive_productionRow (j : BasisIndex) : Record.Additive (n.productionRow k state j) :=
  fun r t hr hp => by
    simp only [productionRow, Record.add, hr, hp, MomentMatrix.get_add_mulVec, add_mul]

theorem additive_combinationRow (j : BasisIndex) : Record.Additive (n.combinationRow k state c j) :=
  fun r t hr hp => by
    simp only [combinationRow, Record.add, hr, hp, MomentMatrix.get_add_mulVec, add_mul, neg_add]

theorem additive_dissociationRow (j : BasisIndex) : Record.Additive (n.dissociationRow k state j) :=
  fun r t hr hp => by
    simp only [dissociationRow, Record.add, hr, hp, MomentMatrix.get_add_mulVec, add_mul]

theorem additive_emissionRow (j : BasisIndex) : Record.Additive (emissionRow k state c j) :=
  fun r t hr _ => by
    simp only [emissionRow, Record.add, hr, MomentMatrix.get_add_mulVec, add_mul, neg_add]

/-! ### One encounter -/

variable [IsStrictOrderedRing K]

section
variable (S : n.toPopulation.Sound) (hg : g ∈ n.clusters)
include S hg

/-- The first cluster of an encounter. Which of two single clusters carries the moments is no matter. -/
theorem combinationRow_first (hs : s ∈ n.clusters) (i : Nat) (j : BasisIndex) (q : Region) :
    n.combinationRow k state g j ⟨i, s.id, Moment.coefficients g.region Point.origin g.region q⟩ =
      ∑ y ∈ q.lattice, n.concentration state g.id y * (k.rate i * State.value state s.id) *
        -Moment.weight g.region j y := by
  unfold combinationRow
  dsimp only
  rw [combinationOperands_id S g hs, Moment.get_coefficients_mulVec, Finset.sum_mul,
    ← Finset.sum_neg_distrib]
  refine Finset.sum_congr rfl fun y _ => ?_
  rw [Point.add_origin, groupedFirst]
  cases hgrouped : g.isGrouped with
  | true =>
    rw [if_pos rfl, concentration_id S hg]
    ring
  | false =>
    rw [if_neg Bool.false_ne_true, concentration_single S hg hgrouped,
      density_of_isUnit (S.isUnit hg hgrouped), get_zero_gather]
    ring

theorem combinationRow_second (hs : s ∈ n.clusters) (h : s.isGrouped = false) (i : Nat)
    (j : BasisIndex) (q : Region) :
    n.combinationRow k state s j ⟨i, g.id, Moment.coefficients s.region Point.origin g.region q⟩ =
      ∑ y ∈ q.lattice, n.concentration state g.id y * (k.rate i * State.value state s.id) *
        -Moment.weight s.region j s.region.lo := by
  unfold combinationRow
  dsimp only
  rw [combinationOperands_id S s hg, groupedFirst, h, if_neg Bool.false_ne_true,
    Moment.get_coefficients_mulVec, Finset.sum_mul, ← Finset.sum_neg_distrib]
  refine Finset.sum_congr rfl fun y _ => ?_
  rw [weight_congr_of_isUnit (S.isUnit hs h) j (y.add Point.origin) s.region.lo, concentration_id S hg]
  ring

variable (hc : c ∈ n.clusters)
include hc

theorem sum_productionRecords (s : Cluster K) (i : Nat) (j : BasisIndex) :
    ((ReactionPlan.productionRecords n.toPopulation i (.ofOperands n.toPopulation g s)).map fun x =>
        if x.1 = c.id then n.productionRow k state j x.2 else 0).sum =
      ((Encounter.ofOperands n.toPopulation g s).pieces.map fun q => ∑ y ∈ q.box.lattice,
        n.concentration state g.id y * (k.rate i * State.value state s.id) *
          (if q.product.isSome then
            c.region.restrict (Moment.weight c.region j) (y.add s.region.lo) else 0)).sum := by
  have hfirst : n.region? (Encounter.ofOperands n.toPopulation g s).first = some g.region :=
    S.region?_id hg
  rw [ReactionPlan.productionRecords, hfirst, sum_map_filterMap]
  refine congrArg List.sum (List.map_congr_left fun q hq => ?_)
  rcases Encounter.of_mem_pieces S hq with ⟨hnone, -, -⟩ | ⟨r, hr, hsome, hbox⟩
  · simp [hnone]
  · have hrow : n.productionRow k state j ⟨i, ⟨g.id, s.id⟩,
        Moment.coefficients r.region s.region.lo g.region q.box⟩ =
        ∑ y ∈ q.box.lattice, n.concentration state g.id y * (k.rate i * State.value state s.id) *
          Moment.weight r.region j (y.add s.region.lo) := by
      simp only [productionRow, gather_id S hg, Moment.get_coefficients_mulVec, Finset.sum_mul,
        concentration_id S hg]
      exact Finset.sum_congr rfl fun y _ => by ring
    have howner : ∀ y ∈ q.box.lattice,
        c.region.restrict (Moment.weight c.region j) (y.add s.region.lo) =
          if r.id = c.id then (Moment.weight c.region j (y.add s.region.lo) : K) else 0 :=
      fun y hy => S.restrict_of_owner hc hr (Encounter.mem_box hbox hy).2 _
    change ((q.product.bind fun id => (n.region? id).bind fun r => some (id,
      (⟨i, ⟨g.id, s.id⟩, Moment.coefficients r s.region.lo g.region q.box⟩ : Record Couple K))).map
        _).getD 0 = _
    rw [hsome, Option.bind_some, S.region?_id hr, Option.bind_some, Option.map_some, Option.getD_some]
    simp only [Option.isSome_some, if_true]
    rw [Finset.sum_congr rfl fun y hy => by rw [howner y hy]]
    by_cases h : r.id = c.id
    · obtain rfl := S.eq_of_id hr hc h
      simpa using hrow
    · simp [h]

theorem sum_combiningRecords (hs : s ∈ n.clusters) (h : s.isGrouped = false) (i : Nat)
    (j : BasisIndex) :
    ((ReactionPlan.combiningRecords n.toPopulation i (.ofOperands n.toPopulation g s)).map fun x =>
        if x.1 = c.id then n.combinationRow k state c j x.2 else 0).sum =
      ((Encounter.ofOperands n.toPopulation g s).pieces.map fun q => ∑ y ∈ q.box.lattice,
        n.concentration state g.id y * (k.rate i * State.value state s.id) *
          (-c.region.restrict (Moment.weight c.region j) y +
            -c.region.restrict (Moment.weight c.region j) s.region.lo)).sum := by
  have hfirst : n.region? (Encounter.ofOperands n.toPopulation g s).first = some g.region :=
    S.region?_id hg
  have hsecond : n.region? (Encounter.ofOperands n.toPopulation g s).second = some s.region :=
    S.region?_id hs
  have hlo : s.region.contains s.region.lo = true :=
    (Region.contains_of_isUnit (S.isUnit hs h)).mpr rfl
  rw [ReactionPlan.combiningRecords, hfirst, hsecond]
  dsimp only
  rw [sum_map_flatMap]
  refine congrArg List.sum (List.map_congr_left fun q hq => ?_)
  have howner : ∀ y ∈ q.box.lattice, c.region.restrict (Moment.weight c.region j) y =
      if g.id = c.id then (Moment.weight c.region j y : K) else 0 :=
    fun y hy => S.restrict_of_owner hc hg (Encounter.contains_of_mem_pieces S hq hy) _
  rw [Finset.sum_congr rfl fun y hy => by rw [howner y hy], S.restrict_of_owner hc hs hlo]
  simp only [List.map_cons, List.map_nil, List.sum_cons, List.sum_nil, add_zero, mul_add,
    Finset.sum_add_distrib]
  congr 1
  · by_cases hid : g.id = c.id
    · obtain rfl := S.eq_of_id hg hc hid
      rw [if_pos (show (Encounter.ofOperands n.toPopulation g s).first = g.id from rfl)]
      simp only [if_true]
      exact combinationRow_first S hg hs i j q.box
    · simp [Encounter.ofOperands, hid]
  · by_cases hid : s.id = c.id
    · obtain rfl := S.eq_of_id hs hc hid
      rw [if_pos (show (Encounter.ofOperands n.toPopulation g s).second = s.id from rfl)]
      simp only [if_true]
      exact combinationRow_second S hg hs h i j q.box
    · simp [Encounter.ofOperands, hid]

end

/-! ### One channel -/

section
variable {d : Channel} {parent monomer remainder : Cluster K} (S : n.toPopulation.Sound)
  (hd : d.Joins parent monomer remainder) (hp : parent ∈ n.clusters) (hc : c ∈ n.clusters)
include S hd hp hc

theorem sum_dissociatingRecords (hm : monomer ∈ n.clusters) (hr : remainder ∈ n.clusters) (i : Nat)
    (j : BasisIndex) :
    ((ReactionPlan.dissociatingRecords n.toPopulation i d).map fun x =>
        if x.1 = c.id then n.dissociationRow k state j x.2 else 0).sum =
      ∑ y ∈ d.box.lattice, n.concentration state parent.id y * k.rate i *
        (c.region.restrict (Moment.weight c.region j) (y.add d.offset.neg) +
          c.region.restrict (Moment.weight c.region j) d.offset) := by
  have hbox : parent.region.intersection? (remainder.region.shifted d.offset.neg.neg) = some d.box := by
    rw [Point.neg_neg]
    exact hd.box_eq
  have hrem : ∀ y ∈ d.box.lattice,
      c.region.restrict (Moment.weight c.region j) (y.add d.offset.neg) =
        if remainder.id = c.id then (Moment.weight c.region j (y.add d.offset.neg) : K) else 0 :=
    fun y hy => S.restrict_of_owner hc hr (Encounter.mem_box hbox hy).2 _
  have hlo : monomer.region.contains d.offset = true :=
    (Region.contains_of_isUnit (S.isUnit hm hd.single)).mpr hd.offset_eq
  rw [ReactionPlan.dissociatingRecords, hd.parent_eq, hd.monomer_eq, hd.remainder_eq, S.region?_id hp,
    S.region?_id hm, S.region?_id hr, S.restrict_of_owner hc hm hlo,
    Finset.sum_congr rfl fun y hy => by rw [hrem y hy]]
  simp only [List.map_cons, List.map_nil, List.sum_cons, List.sum_nil, add_zero, mul_add,
    Finset.sum_add_distrib, dissociationRow, gather_id S hp, Moment.get_coefficients_mulVec,
    Finset.sum_mul, concentration_id S hp]
  congr 1
  · by_cases hid : remainder.id = c.id
    · obtain rfl := S.eq_of_id hr hc hid
      simp only [if_true]
      exact Finset.sum_congr rfl fun y _ => by ring
    · simp [hid]
  · by_cases hid : monomer.id = c.id
    · obtain rfl := S.eq_of_id hm hc hid
      simp only [if_true]
      refine Finset.sum_congr rfl fun y _ => ?_
      rw [weight_congr_of_isUnit (S.isUnit hm hd.single) j (y.add Point.origin) d.offset]
      ring
    · simp [hid]

theorem sum_emissionRecords (i : Nat) (j : BasisIndex) :
    ((ReactionPlan.emissionRecords n.toPopulation i d).map fun x =>
        if x.1 = c.id then emissionRow k state c j x.2 else 0).sum =
      ∑ y ∈ d.box.lattice, n.concentration state parent.id y * k.rate i *
        -c.region.restrict (Moment.weight c.region j) y := by
  have howner : ∀ y ∈ d.box.lattice, c.region.restrict (Moment.weight c.region j) y =
      if parent.id = c.id then (Moment.weight c.region j y : K) else 0 := fun y hy => by
    rw [Region.lattice_of_intersection? hd.box_eq, Finset.mem_inter, Region.mem_lattice] at hy
    exact S.restrict_of_owner hc hp hy.1 _
  rw [ReactionPlan.emissionRecords, hd.parent_eq, S.region?_id hp,
    Finset.sum_congr rfl fun y hy => by rw [howner y hy]]
  simp only [List.map_cons, List.map_nil, List.sum_cons, List.sum_nil, add_zero, emissionRow,
    Moment.get_coefficients_mulVec, Finset.sum_mul, concentration_id S hp, Point.add_origin]
  by_cases hid : parent.id = c.id
  · obtain rfl := S.eq_of_id hp hc hid
    simp only [if_true]
    rw [← Finset.sum_neg_distrib]
    exact Finset.sum_congr rfl fun y _ => by ring
  · simp [hid]

end

/-! ### Whole rows -/

/-- Productions change row `j` of a cluster by the effect of every encounter on the weight of the row. -/
theorem get_production_add_combination (hn : n.Built) (hc : c ∈ n.clusters) (j : BasisIndex) :
    (n.terms k state c).production.get j + (n.terms k state c).combination.get j =
      (n.plan.productions.zipIdx.map fun e =>
        e.1.effect (c.region.restrict (Moment.weight c.region j)) (n.concentration state e.1.first)
          (k.rate e.2 * State.value state e.1.second)).sum := by
  have hlt : c.id < n.clusters.size :=
    (Array.getElem?_eq_some_iff.mp (hn.sound.getElem?_id hc)).1
  rw [terms, get_productionTerm, get_combinationTerm, hn.linksOf hc,
    ReactionPlan.sum_records hlt 0 (additive_productionRow j)
      fun e _ i => ⟨_, ReactionPlan.coherent_productionRecords n.toPopulation i e⟩,
    ReactionPlan.sum_records hlt 0 (additive_combinationRow j)
      fun e _ i => ⟨_, ReactionPlan.coherent_combiningRecords n.toPopulation i e⟩,
    ← List.sum_map_add]
  refine congrArg List.sum (List.map_congr_left fun e he => ?_)
  obtain ⟨g, hg, s, hs, hsingle, heq⟩ := of_mem_productions (List.fst_mem_of_mem_zipIdx he)
  rw [heq, sum_productionRecords hn.sound hg hc, sum_combiningRecords hn.sound hg hc hs hsingle,
    ← List.sum_map_add, Encounter.effect]
  refine congrArg List.sum (List.map_congr_left fun q _ => ?_)
  rw [← Finset.sum_add_distrib]
  exact Finset.sum_congr rfl fun y _ => (mul_add _ _ _).symm

/-- Dissociations change row `j` of a cluster by the effect of every channel on the weight of the row. -/
theorem get_dissociation_add_emission (hn : n.Built) (hc : c ∈ n.clusters) (j : BasisIndex) :
    (n.terms k state c).dissociation.get j + (n.terms k state c).emission.get j =
      ((n.plan.dissociations.zipIdx n.plan.productions.length).map fun d =>
        d.1.1.effect (c.region.restrict (Moment.weight c.region j))
          (n.concentration state d.1.1.parent) (k.rate d.2)).sum := by
  have hlt : c.id < n.clusters.size :=
    (Array.getElem?_eq_some_iff.mp (hn.sound.getElem?_id hc)).1
  rw [terms, get_dissociationTerm, get_emissionTerm, hn.linksOf hc,
    ReactionPlan.sum_records hlt _ (additive_dissociationRow j)
      fun e _ i => ⟨_, ReactionPlan.coherent_dissociatingRecords n.toPopulation i e⟩,
    ReactionPlan.sum_records hlt _ (additive_emissionRow j)
      fun e _ i => ⟨_, ReactionPlan.coherent_emissionRecords n.toPopulation i e⟩,
    ← List.sum_map_add, List.zipIdx_map, List.map_map]
  refine congrArg List.sum (List.map_congr_left fun d hd => ?_)
  obtain ⟨parent, hp, monomer, hm, remainder, hr, hj⟩ :=
    hn.of_mem_dissociations (List.fst_mem_of_mem_zipIdx hd)
  simp only [Function.comp_apply, Prod.map_fst, Prod.map_snd, id_eq]
  rw [sum_dissociatingRecords hn.sound hj hp hc hm hr, sum_emissionRecords hn.sound hj hp hc,
    ← Finset.sum_add_distrib, Channel.effect, hj.parent_eq]
  exact Finset.sum_congr rfl fun y _ => (mul_add _ _ _).symm

end Network
end ClusterDynamics
