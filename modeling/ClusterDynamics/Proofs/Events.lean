import ClusterDynamics.Proofs.Movers
import ClusterDynamics.Proofs.Productions

/-! Which compositions meet. Whether two compositions take part in a production does not depend on how the
    clusters are grouped: one of them has to move, which makes it a cluster of its own, and their sum has
    to vanish or to be admissible. So the grouped network has the production events of the network that
    tracks every composition by itself. -/

namespace ClusterDynamics

variable {α : Type}

namespace Network

/-- A composition at `x` and one at `y` combine: some production has the clusters that hold them as its
    partners, and their sum vanishes or is owned. -/
def Produces (n : Network α) (x y : Point) : Prop :=
  (∃ a ∈ n.clusters, ∃ c ∈ n.clusters, a.region.contains x = true ∧ c.region.contains y = true ∧
      ∃ i, n.Combines i a.id c.id) ∧
    (x.add y = Point.origin ∨ n.owns (x.add y) = true)

theorem Produces.symm {n : Network α} {x y : Point} (h : n.Produces x y) : n.Produces y x := by
  obtain ⟨⟨a, ha, c, hc, hx, hy, i, first, second, hi, hpair⟩, hsum⟩ := h
  exact ⟨⟨c, hc, a, ha, hy, hx, i, first, second, hi, hpair.trans Sym2.eq_swap⟩, Point.add_comm x y ▸ hsum⟩

/-- Both compositions are tracked, one of them moves, and their sum vanishes or is tracked. -/
structure Meets [Scalar α] (m : Material α) (admits : Point → Bool) (x y : Point) : Prop where
  left : admits x = true
  right : admits y = true
  moves : m.moves (m.space.toComposition x) = true ∨ m.moves (m.space.toComposition y) = true
  sum : x.add y = Point.origin ∨ admits (x.add y) = true

namespace Generated

variable [Analytic α] {n : Network α} {p : Partition} (G : n.Generated p) {admits : Point → Bool}
  (T : n.material.Tracks admits) (hcounts : Countable admits) {dim : Nat} {primary : Direction}
  {schedule : Option (BinSchedule α)}

include G in
/-- A cluster that moves stands for one composition, which moves. -/
theorem moves_of_isMobile {c : Cluster α} (hc : c ∈ n.clusters) (hmobile : c.isMobile = true) {x : Point}
    (hx : c.region.contains x = true) : n.material.moves (n.material.space.toComposition x) = true := by
  by_cases hunit : c.region.isUnit = true
  · rw [(Region.contains_of_isUnit hunit).mp hx, ← G.composition_of_isUnit hc hunit,
      ← G.isMobile_of_isUnit hc hunit]
    exact hmobile
  · rw [Cluster.isMobile, (G.of_mem_clusters hc).2.2, Material.seedProperties, if_neg hunit] at hmobile
    simp [ClusterProperties.immobile] at hmobile

include G T hcounts in
theorem isMobile_of_moves (B : n.material.Binned admits dim primary schedule) {c : Cluster α}
    (hc : c ∈ n.clusters) {x : Point} (hx : c.region.contains x = true)
    (hmoves : n.material.moves (n.material.space.toComposition x) = true) : c.isMobile = true := by
  have hunit := G.isUnit_of_moves T B hc hcounts hx hmoves
  rw [G.isMobile_of_isUnit hc hunit, G.composition_of_isUnit hc hunit,
    ← (Region.contains_of_isUnit hunit).mp hx]
  exact hmoves

include G T hcounts in
/-- An admissible composition that moves is a cluster of its own, and this cluster moves. -/
theorem exists_mobile (B : n.material.Binned admits dim primary schedule) {x : Point}
    (hx : admits x = true) (hmoves : n.material.moves (n.material.space.toComposition x) = true) :
    ∃ c ∈ n.clusters, c.region.isUnit = true ∧ c.region.lo = x ∧
      c.composition = n.material.space.toComposition x ∧ c.isMobile = true := by
  obtain ⟨c, hc, hcx⟩ := Population.owns_iff.mp ((G.owns_iff T).mpr hx)
  have hunit := G.isUnit_of_moves T B hc hcounts hcx hmoves
  have hmobile := G.isMobile_of_moves T hcounts B hc hcx hmoves
  obtain rfl := (Region.contains_of_isUnit hunit).mp hcx
  exact ⟨c, hc, hunit, rfl, G.composition_of_isUnit hc hunit, hmobile⟩

include G T hcounts in
/-- The production events of a generated network say nothing about its clusters. -/
theorem produces_iff (hn : n.Built) (B : n.material.Binned admits dim primary schedule) {x y : Point} :
    n.Produces x y ↔ Meets n.material admits x y := by
  constructor
  · rintro ⟨⟨a, ha, c, hc, hx, hy, i, hi⟩, hsum⟩
    have R := hn.reactive_of_combines ha hc hi
    refine ⟨G.admits_of_contains T ha hx, G.admits_of_contains T hc hy, ?_, ?_⟩
    · rcases R.mobile with hmobile | hmobile
      · exact .inl (G.moves_of_isMobile ha hmobile hx)
      · exact .inr (G.moves_of_isMobile hc hmobile hy)
    · rcases hsum with horigin | howned
      · exact .inl horigin
      · exact .inr ((G.owns_iff T).mp howned)
  · intro h
    have hsum : x.add y = Point.origin ∨ n.owns (x.add y) = true := by
      rcases h.sum with horigin | hadmits
      · exact .inl horigin
      · exact .inr ((G.owns_iff T).mpr hadmits)
    have hmeet : ∀ {x y}, admits x = true → admits y = true →
        n.material.moves (n.material.space.toComposition x) = true →
        (x.add y = Point.origin ∨ n.owns (x.add y) = true) → n.Produces x y := by
      intro x y hx hy hmoves hsum
      obtain ⟨a, ha, hunit, rfl, -, hmobile⟩ := G.exists_mobile T hcounts B hx hmoves
      obtain ⟨c, hc, hcy⟩ := Population.owns_iff.mp ((G.owns_iff T).mpr hy)
      have hax : a.region.contains a.region.lo = true := (Region.contains_of_isUnit hunit).mpr rfl
      have hsingle : a.isGrouped = false := by simpa [hunit] using hn.sound.grouped a ha
      have R : n.Reactive a c := ⟨.inl hmobile, .inl hsingle, _, ⟨_, _, hax, hcy, rfl⟩, hsum⟩
      exact ⟨⟨a, ha, c, hc, hax, hcy, hn.exists_combines ha hc R⟩, hsum⟩
    rcases h.moves with hmoves | hmoves
    · exact hmeet h.left h.right hmoves hsum
    · exact (hmeet h.right h.left hmoves (Point.add_comm x y ▸ hsum)).symm

end Generated

/-! ### With and without grouping -/

section
variable [Analytic α] {params : NetworkParams α} {m : Material α}

/-- Accepted parameters are accepted without grouping, for a material that differs in nothing but the rule
    of its regions. -/
theorem exists_rule_ungrouped (h : params.chooseMaterial = .ok m) :
    ∃ rule, ({ params with grouping := none } : NetworkParams α).chooseMaterial =
      .ok { m with rule := rule } := by
  have hvalid : ({ params with grouping := none } : NetworkParams α).validate = .ok () := by
    have h := (NetworkParams.chooseMaterial_eq_ok h).1
    unfold NetworkParams.validate at h ⊢
    obtain ⟨hsink, -⟩ := check_bind_eq_ok.mp h
    exact check_bind_eq_ok.mpr ⟨hsink, rfl⟩
  have hbuild := (NetworkParams.chooseMaterial_eq_ok h).2
  have hungrouped : ∃ rule, params.material.build { params with grouping := none } =
      .ok { m with rule := rule } := by
    cases hkind : params.material with
    | tungsten =>
      rw [hkind, MaterialKind.build] at hbuild
      split_ifs at hbuild with htable
      cases hbuild
      exact ⟨_, if_neg htable⟩
    | iron =>
      rw [hkind, MaterialKind.build] at hbuild
      cases hbuild
      exact ⟨_, rfl⟩
    | xenon =>
      rw [hkind, MaterialKind.build] at hbuild
      split_ifs at hbuild with hnone
      cases hbuild
      exact ⟨_, if_neg hnone⟩
  obtain ⟨rule, hbuild'⟩ := hungrouped
  exact ⟨rule, bind_eq_ok.mpr ⟨(), hvalid, hbuild'⟩⟩

theorem chooseMaterial_ungrouped (h : params.chooseMaterial = .ok m) :
    ∃ m', ({ params with grouping := none } : NetworkParams α).chooseMaterial = .ok m' ∧
      m'.space = m.space ∧ ∀ c, m'.moves c = m.moves c := by
  obtain ⟨rule, h⟩ := exists_rule_ungrouped h
  exact ⟨_, h, rfl, fun _ => rfl⟩

/-- Unless a number leaves its machine word, there is a network as soon as there is an admissible point. -/
theorem exists_ofParams (hchoice : params.chooseMaterial = .ok m)
    (hmin : ∀ g, params.grouping = some g → g.minWidth = 1)
    (hwords : Network.ofParams params ≠ .error .overflow) (hcounts : Countable params.admits)
    (hsome : ∃ x, params.admits x = true) : ∃ n, Network.ofParams params = .ok n := by
  have T := Material.tracks_of_chooseMaterial hchoice hmin
  rw [ofParams_eq hchoice] at hwords ⊢
  obtain ⟨p, hp⟩ := (Builder.onlyOverflow_generated params T hcounts).exists_eq_ok fun h =>
    hwords (by rw [h]; rfl)
  rw [hp] at hwords ⊢
  obtain ⟨x, hx⟩ := hsome
  obtain ⟨r, hr, -⟩ := T.rule.exists_mem_admitted
    (Material.partition_eq_ok (Builder.seeds_of_generated hp).1) hx
  exact (Builder.onlyOverflow_finish_generated hp (List.ne_nil_of_mem hr)).exists_eq_ok hwords

theorem isUnit_of_ungrouped {n : Network α} (h : Network.ofParams params = .ok n)
    (hnone : params.grouping = none) : ∀ c ∈ n.clusters, c.region.isUnit = true := by
  obtain ⟨-, hchoice, p, G⟩ := generated_of_ofParams h
  have T := Material.tracks_of_chooseMaterial hchoice (by rw [hnone]; exact fun _ h => nomatch h)
  obtain ⟨dim, primary, B⟩ := Material.binned_of_chooseMaterial hchoice
  intro c hc
  refine G.isUnit_of_below T B hc fun s hs => ?_
  rw [hnone] at hs
  cases hs

/-- Parameters with bins that may be as narrow as one have the network that their admissible points need,
    whose events are those of the admissible points. -/
theorem exists_produces_iff (hchoice : params.chooseMaterial = .ok m)
    (hmin : ∀ g, params.grouping = some g → g.minWidth = 1)
    (hwords : Network.ofParams params ≠ .error .overflow) (hcounts : Countable params.admits)
    (hsome : ∃ x, params.admits x = true) :
    ∃ n, Network.ofParams params = .ok n ∧ (∀ x y, n.Produces x y ↔ Meets m params.admits x y) ∧
      ∀ x, params.admits x = true → m.moves (m.space.toComposition x) = true →
        ∃ c ∈ n.clusters, c.region.isUnit = true ∧ c.region.lo = x ∧
          c.composition = m.space.toComposition x ∧ c.isMobile = true := by
  obtain ⟨n, hn⟩ := exists_ofParams hchoice hmin hwords hcounts hsome
  obtain ⟨hbuilt, hchoice', p, G⟩ := generated_of_ofParams hn
  obtain rfl : m = n.material := Except.ok.inj (hchoice.symm.trans hchoice')
  have T := Material.tracks_of_chooseMaterial hchoice hmin
  obtain ⟨dim, primary, B⟩ := Material.binned_of_chooseMaterial hchoice
  exact ⟨n, hn, fun x y => G.produces_iff T hcounts hbuilt B, fun x hx hmoves =>
    G.exists_mobile T hcounts B hx hmoves⟩

/-- A grouped network has the production events of the network without groups, and every composition
    that moves is a cluster of its own in it. -/
theorem produces_ungrouped {g : GroupingParams α} (hchoice : params.chooseMaterial = .ok m)
    (hgrouping : params.grouping = some g) (hmin : g.minWidth = 1)
    (hwords : Network.ofParams params ≠ .error .overflow)
    (hwords' : Network.ofParams { params with grouping := none } ≠ .error .overflow)
    (hcounts : ∀ x, params.admits x = true → ∀ a : Direction, (x.get a).natAbs < 4294967296)
    (hsome : ∃ x, params.admits x = true) :
    ∃ n n', Network.ofParams params = .ok n ∧ Network.ofParams { params with grouping := none } = .ok n' ∧
      (∀ x y, n.Produces x y ↔ n'.Produces x y) ∧
        ∀ x, params.admits x = true → m.moves (m.space.toComposition x) = true →
          ∃ c ∈ n.clusters, c.region.isUnit = true ∧ c.region.lo = x ∧
            c.composition = m.space.toComposition x ∧ c.isMobile = true := by
  obtain ⟨m', hchoice', hspace, hmoves⟩ := chooseMaterial_ungrouped hchoice
  have hadmits : ({ params with grouping := none } : NetworkParams α).admits = params.admits := rfl
  have hnarrow : ∀ g', params.grouping = some g' → g'.minWidth = 1 := by
    intro g' hg'
    rw [hgrouping] at hg'
    cases hg'
    exact hmin
  obtain ⟨n, hn, hproduces, hmobile⟩ := exists_produces_iff hchoice hnarrow hwords hcounts hsome
  obtain ⟨n', hn', hproduces', -⟩ :=
    exists_produces_iff hchoice' (fun _ h => nomatch h) hwords' hcounts hsome
  refine ⟨n, n', hn, hn', ?_, hmobile⟩
  intro x y
  rw [hproduces, hproduces', hadmits]
  constructor
  · rintro ⟨hx, hy, hmove, hsum⟩
    exact ⟨hx, hy, by rwa [hspace, hmoves, hmoves], hsum⟩
  · rintro ⟨hx, hy, hmove, hsum⟩
    exact ⟨hx, hy, by rwa [hspace, hmoves, hmoves] at hmove, hsum⟩

end
end Network

/-! ### Iron with and without bins -/

namespace Bins
open DefectSpace
open scoped Pair

/-- Without bins each of the seven compositions has a cluster. -/
theorem ungrouped_ok : ∃ n, Network.ofParams { params with grouping := none } = .ok n ∧ n.clusters.size = 7 :=
  exists_eq_ok (by decide +kernel)

/-- Both networks let the single interstitial meet six vacancies, which share a bin in one of them. -/
theorem produces_same : ∃ n n', Network.ofParams params = .ok n ∧
    Network.ofParams { params with grouping := none } = .ok n' ∧ n.clusters.size = 5 ∧ n'.clusters.size = 7 ∧
      n.Produces (point 0 (-1)) (point 0 6) ∧ n'.Produces (point 0 (-1)) (point 0 6) := by
  obtain ⟨n, hn, hsize, -⟩ := ofParams_ok
  obtain ⟨n', hn', hsize'⟩ := ungrouped_ok
  have hchoice : params.chooseMaterial = .ok (Iron.material params) := rfl
  have hwords : Network.ofParams params ≠ .error .overflow := by
    rw [hn]
    exact fun h => nomatch h
  have hwords' : Network.ofParams { params with grouping := none } ≠ .error .overflow := by
    rw [hn']
    exact fun h => nomatch h
  have hsix : params.admits (point 0 6) = true := admits_iff.mpr ⟨6, by decide, rfl⟩
  have hmeets : Network.Meets (Iron.material params) params.admits (point 0 (-1)) (point 0 6) :=
    ⟨admits_iff.mpr ⟨-1, by decide, rfl⟩, hsix, .inl (by decide +kernel),
      .inr (admits_iff.mpr ⟨5, by decide, add_point _ _ _ _⟩)⟩
  obtain ⟨k, k', hk, hk', hsame, -⟩ := Network.produces_ungrouped hchoice rfl rfl hwords hwords'
    countable_admits ⟨_, hsix⟩
  obtain rfl : n = k := Except.ok.inj (hn.symm.trans hk)
  obtain rfl : n' = k' := Except.ok.inj (hn'.symm.trans hk')
  obtain ⟨j, hj, hproduces, -⟩ := Network.exists_produces_iff hchoice minWidth_eq_one hwords
    countable_admits ⟨_, hsix⟩
  obtain rfl : n = j := Except.ok.inj (hn.symm.trans hj)
  have hevent := (hproduces _ _).mpr hmeets
  exact ⟨n, n', hn, hn', hsize, hsize', hevent, (hsame _ _).mp hevent⟩

end Bins
end ClusterDynamics
