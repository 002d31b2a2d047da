import ClusterDynamics.Proofs.Events
import ClusterDynamics.Proofs.Reversal
import ClusterDynamics.Proofs.SmallRegions

/-! What grouping does to the dissociations. A group is taken apart as one composition, the one that stands
    for its region, so a composition sheds what the representative of its group lets go. The
    representatives of metal groups have vacancies, and helium as soon as some member has; only the
    interstitials of mixed bubbles in tungsten tell members with helium from those without. -/

namespace ClusterDynamics

variable {α : Type}

/-! ### Events of dissociation -/

/-- The composition at `x` may emit the one at `y`. -/
def Material.releases (m : Material α) (x y : Point) : Bool :=
  m.canEmit (m.space.toComposition x) (m.space.toComposition y)

namespace Network

/-- A composition at `x` sheds one at `y`: some dissociation takes the cluster that holds `x` apart into
    the one that holds `y` and the one that holds what remains. -/
def Emits (n : Network α) (x y : Point) : Prop :=
  ∃ P ∈ n.clusters, ∃ M ∈ n.clusters, ∃ R ∈ n.clusters, P.region.contains x = true ∧
    M.region.contains y = true ∧ R.region.contains (x.add y.neg) = true ∧ ∃ i, n.Dissociates i P.id M.id R.id

/-- The composition, a listed monomer and what remains without it are tracked, and one of these two moves. -/
structure Separable [Scalar α] (m : Material α) (admits : Point → Bool) (x y : Point) : Prop where
  whole : admits x = true
  monomer : admits y = true
  rest : admits (x.add y.neg) = true
  listed : m.space.toComposition y ∈ m.monomers
  moves : m.moves (m.space.toComposition y) = true ∨ m.moves (m.space.toComposition (x.add y.neg)) = true

namespace Generated

variable [Analytic α] {n : Network α} {p : Partition} (G : n.Generated p) {admits : Point → Bool}
  (T : n.material.Tracks admits) (hcounts : Countable admits) {dim : Nat} {primary : Direction}
  {schedule : Option (BinSchedule α)} (B : n.material.Binned admits dim primary schedule)

include G T B in
/-- A listed monomer that is admissible is a cluster of its own. -/
theorem exists_monomer {y : Point} (hy : admits y = true) (hlow : y.get primary ≤ 1) :
    ∃ M ∈ n.clusters, M.region.isUnit = true ∧ M.region.lo = y ∧
      M.composition = n.material.space.toComposition y := by
  obtain ⟨M, hM, hin⟩ := Population.owns_iff.mp ((G.owns_iff T).mpr hy)
  have hcorner := (Region.contains_iff.mp hin primary).1
  have hunit := G.isUnit_of_low T B hM (by omega)
  obtain rfl := (Region.contains_of_isUnit hunit).mp hin
  exact ⟨M, hM, hunit, rfl, G.composition_of_isUnit hM hunit⟩

include G T hcounts B in
/-- What is shed by which composition depends on the clusters only through the composition that stands for
    the parent. -/
theorem emits_iff (hn : n.Built) (horigin : admits Point.origin = false)
    (hlow : ∀ y, admits y = true → n.material.space.toComposition y ∈ n.material.monomers →
      y.get primary ≤ 1) {x y : Point} : n.Emits x y ↔
    Separable n.material admits x y ∧ ∃ P ∈ n.clusters, P.region.contains x = true ∧
      n.material.releases P.region.anchor y = true := by
  constructor
  · rintro ⟨P, hP, M, hM, R, hR, hx, hy, hrest, i, hi⟩
    have hreversible := hn.reversible_of_dissociates hP hM hR hi
    have hunit := hn.sound.isUnit hM hreversible.single
    have hcomposition : M.composition = n.material.space.toComposition y := by
      rw [G.composition_of_isUnit hM hunit, (Region.contains_of_isUnit hunit).mp hy]
    have hemits := hreversible.emits
    rw [hcomposition, (G.of_mem_clusters hP).2.1] at hemits
    obtain ⟨j, hj⟩ := hreversible.production
    have hmoves := (hn.reactive_of_combines hM hR hj).mobile.imp
      (fun hmobile => G.moves_of_isMobile hM hmobile hy) fun hmobile => G.moves_of_isMobile hR hmobile hrest
    exact ⟨⟨G.admits_of_contains T hP hx, G.admits_of_contains T hM hy, G.admits_of_contains T hR hrest,
      hcomposition ▸ hreversible.listed, hmoves⟩, P, hP, hx, hemits⟩
  · rintro ⟨E, P, hP, hx, hemits⟩
    rw [Material.releases, ← (G.of_mem_clusters hP).2.1] at hemits
    obtain ⟨M, hM, hunit, rfl, hcomposition⟩ := G.exists_monomer T B E.monomer (hlow y E.monomer E.listed)
    obtain ⟨R, hR, hrest⟩ := Population.owns_iff.mp ((G.owns_iff T).mpr E.rest)
    have hy : M.region.contains M.region.lo = true := (Region.contains_of_isUnit hunit).mpr rfl
    have hsingle : M.isGrouped = false := by simpa [hunit] using hn.sound.grouped M hM
    have hother : M.id ≠ P.id := by
      intro hid
      obtain rfl := hn.sound.eq_of_id hM hP hid
      have hnothing := E.rest
      rw [(Region.contains_of_isUnit hunit).mp hx, Point.add_comm, Point.neg_add, horigin] at hnothing
      cases hnothing
    have hsum : M.region.lo.add (x.add M.region.lo.neg) = x := by rw [Point.add_comm, Point.add_neg_add]
    have hmobile := E.moves.imp (G.isMobile_of_moves T hcounts B hM hy)
      (G.isMobile_of_moves T hcounts B hR hrest)
    have hreactive : n.Reactive M R :=
      ⟨hmobile, .inl hsingle, x, ⟨_, _, hy, hrest, hsum⟩, .inr ((G.owns_iff T).mpr E.whole)⟩
    have hmeets : P.region.intersects (R.region.shifted M.region.lo) = true :=
      Region.intersects_iff_exists.mpr ⟨x, hx, Region.contains_shifted.mpr hrest⟩
    exact ⟨P, hP, M, hM, R, hR, hx, hy, hrest, hn.exists_dissociates hP hM hR
      ⟨hsingle, hcomposition ▸ E.listed, hother, hcomposition ▸ hemits,
        ⟨_, hn.placed M hM hunit, hmeets⟩, hn.exists_combines hM hR hreactive⟩⟩

end Generated
end Network

/-! ### Composition of a parent -/

theorem Region.le_anchor {r : Region} {x : Point} (hx : r.contains x = true) {a : Direction} {k : Int}
    (hk : k ≤ x.get a) (hlow : r.isUnit = false → k ≤ r.lo.get a) : k ≤ r.anchor.get a := by
  by_cases hunit : r.isUnit = true
  · rwa [anchor, if_pos hunit, ← (contains_of_isUnit hunit).mp hx]
  · have hempty := isEmpty_of_contains hx
    have hcorner := (contains_iff.mp (contains_anchor hempty) a).1
    exact le_trans (hlow (by simpa using hunit)) hcorner

/-- The anchor has defects of an axis when the given composition has, or when it has none but others of the
    region do. -/
theorem Region.anchor_pos_iff {r : Region} {x : Point} (hx : r.contains x = true) {a : Direction}
    (hlo : 0 ≤ r.lo.get a) : 0 < r.anchor.get a ↔ 0 < x.get a ∨ x.get a = 0 ∧ 1 < r.width a := by
  have hxa := contains_iff.mp hx a
  unfold anchor width
  split_ifs with hunit
  · have hone := isUnit_iff.mp hunit a
    unfold width at hone
    omega
  · rw [get_representative]
    omega

/-- Which metals let bubbles shed interstitials. -/
structure Material.ShedsMonomers (m : Material α) (trap : Bool) : Prop where
  monomers_eq : m.monomers = RateLaw.defectMonomers
  canEmit_iff : ∀ (parent : Composition) (s : Species), s ≠ .xenon →
    (m.canEmit parent (.single s 1) = true ↔
      2 ≤ parent.total ∧ (0 < parent.get s ∨ trap = true ∧ s = .interstitial ∧ parent.isMixed = true))

theorem Tungsten.shedsMonomers [Analytic α] (p : NetworkParams α) :
    (Tungsten.material p).ShedsMonomers true where
  monomers_eq := rfl
  canEmit_iff parent s hs := by
    show Tungsten.canEmit parent (.single s 1) = true ↔ _
    unfold Tungsten.canEmit
    by_cases htotal : parent.total < 2
    · simp [htotal, Nat.not_le.mpr htotal]
    · rw [if_neg htotal]
      cases s with
      | xenon => exact absurd rfl hs
      | _ => simp [Composition.single, Composition.set, Composition.empty, Composition.get,
          Nat.not_lt.mp htotal]

theorem Iron.shedsMonomers [Analytic α] (p : NetworkParams α) :
    (Iron.material p).ShedsMonomers false where
  monomers_eq := rfl
  canEmit_iff parent s hs := by
    show Iron.canEmit parent (.single s 1) = true ↔ _
    have hentries : (Composition.single s 1).entries = [(s, 1)] := by
      cases s <;> decide
    rw [Iron.canEmit, hentries]
    simp

namespace DefectSpace

/-- The composition is helium beside at least two vacancies. -/
structure Bubble (c : Composition) (helium : Int) : Prop where
  total : 2 ≤ c.total
  helium_pos : 0 < c.helium ↔ 0 < helium
  vacancy_pos : 0 < c.vacancy
  interstitial : c.interstitial = 0
  mixed : c.isMixed = true ↔ 0 < helium

theorem bubble_point {h v : Int} (hh : 0 ≤ h) (hfit : h.natAbs < 4294967296) (hv : 2 ≤ v)
    (hvfit : v.natAbs < 4294967296) : Bubble (space.toComposition (point h v)) h := by
  have hzero : (0 : UInt32).toNat = 0 := rfl
  rw [toComposition_point hh, if_neg (by omega)]
  generalize hc : (Composition.single .helium (UInt32.ofNat h.natAbs)).set .vacancy
    (UInt32.ofNat v.natAbs) = c
  have hhelium : c.helium = UInt32.ofNat h.natAbs := by rw [← hc]; rfl
  have hvacancy : c.vacancy = UInt32.ofNat v.natAbs := by rw [← hc]; rfl
  have hinterstitial : c.interstitial = 0 := by rw [← hc]; rfl
  have hxenon : c.xenon = 0 := by rw [← hc]; rfl
  have hpos : 0 < c.vacancy := by
    rw [hvacancy, UInt32.lt_iff_toNat_lt, UInt32.toNat_ofNat_of_lt' hvfit, hzero]
    omega
  have hiff : 0 < c.helium ↔ 0 < h := by
    rw [hhelium, UInt32.lt_iff_toNat_lt, UInt32.toNat_ofNat_of_lt' hfit, hzero]
    omega
  refine ⟨?_, hiff, hpos, hinterstitial, fun hmixed => ?_, fun h => ?_⟩
  · rw [Composition.total, hvacancy, UInt32.toNat_ofNat_of_lt' hvfit]
    omega
  · by_contra hnone
    rw [← hiff] at hnone
    simp [Composition.isMixed, Composition.entries, Species.all, Composition.get, hnone, hpos, hxenon,
      hinterstitial] at hmixed
  · exact Composition.isMixed_of_pos (s := .helium) (t := .vacancy) (by decide) (hiff.mpr h) hpos

/-- The composition that stands for a region sheds the interstitial for its helium, but the composition at
    `x` has none. -/
structure Strays (r : Region) (x y : Point) : Prop where
  interstitial : y = point 0 (-1)
  pure : x.get heliumAxis = 0
  wide : 1 < r.width heliumAxis

variable {m : Material α} {trap : Bool} {d : DefectSpace} {r : Region} {x y : Point}

theorem Bubble.canEmit_iff {c : Composition} {helium : Int} (hc : Bubble c helium) (L : m.ShedsMonomers trap)
    {s : Species} (hs : s ≠ .xenon) : m.canEmit c (.single s 1) = true ↔
      s = .helium ∧ 0 < helium ∨ s = .vacancy ∨ trap = true ∧ s = .interstitial ∧ 0 < helium := by
  rw [L.canEmit_iff c s hs, hc.mixed]
  cases s with
  | helium => simp [hc.total, Composition.get, hc.helium_pos]
  | xenon => exact absurd rfl hs
  | vacancy => simp [hc.total, Composition.get, hc.vacancy_pos]
  | interstitial => simp [hc.total, Composition.get, hc.interstitial]

theorem bubble_of_contains (hi : 0 ≤ d.maxInterstitial) (hv : 0 ≤ d.maxVacancy)
    (hcounts : Countable d.isAdmissible) (hr : ∀ z, r.contains z = true → d.isAdmissible z = true)
    (hlow : 2 ≤ r.lo.get defectAxis) (hx : r.contains x = true) :
    0 ≤ x.get heliumAxis ∧ Bubble (space.toComposition x) (x.get heliumAxis) := by
  have hadmissible := hr x hx
  have he := eq_point_of_isAdmissible hadmissible
  have hdefects := (Region.contains_iff.mp hx defectAxis).1
  have hfit := hcounts x hadmissible
  rw [he] at hadmissible
  have hhelium := ((isAdmissible_point hi hv).mp hadmissible).1
  refine ⟨hhelium, ?_⟩
  have hbubble := bubble_point hhelium (hfit _) (show 2 ≤ x.get defectAxis by omega) (hfit _)
  rwa [← he] at hbubble

theorem helium_pos_of_rest (hi : 0 ≤ d.maxInterstitial) (hv : 0 ≤ d.maxVacancy)
    (hrest : d.isAdmissible (x.add (point 1 0).neg) = true) : 0 < x.get heliumAxis := by
  have he := eq_point_of_isAdmissible hrest
  rw [he] at hrest
  have hhelium := ((isAdmissible_point hi hv).mp hrest).1
  rw [Point.get_add, Point.get_neg] at hhelium
  change 0 ≤ x.get heliumAxis + -1 at hhelium
  omega

/-- The composition that stands for a region sheds what the compositions of the region shed. Where bubbles
    shed interstitials it does so for those without helium, too. -/
theorem canEmit_anchor_iff (L : m.ShedsMonomers trap) (hi : 0 ≤ d.maxInterstitial) (hv : 0 ≤ d.maxVacancy)
    (hcounts : Countable d.isAdmissible) (hr : ∀ z, r.contains z = true → d.isAdmissible z = true)
    (hlow : r.isUnit = false → 2 ≤ r.lo.get defectAxis) (hx : r.contains x = true)
    (hplace : space.toPoint (space.toComposition y) = .ok y)
    (hlisted : space.toComposition y ∈ m.monomers) (hrest : d.isAdmissible (x.add y.neg) = true) :
    (m.canEmit (space.toComposition r.anchor) (space.toComposition y) = true ↔
      m.canEmit (space.toComposition x) (space.toComposition y) = true ∨ trap = true ∧ Strays r x y) ∧
    (Strays r x y → m.canEmit (space.toComposition x) (space.toComposition y) = false) := by
  -- A region of one point is its own anchor, and in every other region all compositions are bubbles.
  by_cases hunit : r.isUnit = true
  · have hnone : ¬Strays r x y := by
      intro h
      have hwide := h.wide
      rw [Region.isUnit_iff.mp hunit heliumAxis] at hwide
      omega
    rw [Region.anchor, if_pos hunit, ← (Region.contains_of_isUnit hunit).mp hx]
    exact ⟨by simp [hnone], fun h => absurd h hnone⟩
  · have hlow := hlow (by simpa using hunit)
    have hempty := Region.isEmpty_of_contains hx
    have hcorner := Region.contains_lo hempty
    have hpos := Region.anchor_pos_iff hx (bubble_of_contains hi hv hcounts hr hlow hcorner).1
    obtain ⟨hhelium, hX⟩ := bubble_of_contains hi hv hcounts hr hlow hx
    obtain ⟨-, hA⟩ := bubble_of_contains hi hv hcounts hr hlow (Region.contains_anchor hempty)
    rw [L.monomers_eq] at hlisted
    rcases eq_of_listed hlisted hplace with ⟨h, rfl⟩ | ⟨h, rfl⟩ | ⟨h, rfl⟩ <;>
      rw [h, hA.canEmit_iff L (by decide), hX.canEmit_iff L (by decide)]
    · have hone := helium_pos_of_rest hi hv hrest
      have hnone : ¬Strays r x (point 1 0) := fun hs => absurd hs.interstitial (by decide)
      exact ⟨by simp [hpos, hone], fun hs => absurd hs hnone⟩
    · have hnone : ¬Strays r x (point 0 1) := fun hs => absurd hs.interstitial (by decide)
      exact ⟨by simp, fun hs => absurd hs hnone⟩
    · have hstrays : Strays r x (point 0 (-1)) ↔ x.get heliumAxis = 0 ∧ 1 < r.width heliumAxis :=
        ⟨fun hs => ⟨hs.pure, hs.wide⟩, fun h => ⟨rfl, h.1, h.2⟩⟩
      rw [hstrays, hpos]
      constructor
      · simp [and_or_left]
      · rintro ⟨hpure, -⟩
        rw [← Bool.not_eq_true, hX.canEmit_iff L (by decide)]
        simp [hpure]

end DefectSpace

theorem Xenon.two_le_of_rest {maxXenon : Nat} {x : Point}
    (hrest : isAdmissible maxXenon (x.add (point 1).neg) = true) : 2 ≤ x.get Direction.first := by
  obtain ⟨k, hk, he⟩ := isAdmissible_iff.mp hrest
  have hget := congrArg (Vector.get · Direction.first) he
  change (x.add (point 1).neg).get Direction.first = k at hget
  rw [Point.get_add, Point.get_neg] at hget
  change x.get Direction.first + -1 = k at hget
  omega

theorem Xenon.canEmit_of_two_le [Analytic α] {p : NetworkParams α} {k : Int} (hk : 2 ≤ k)
    (hfit : k.natAbs < 4294967296) :
    (Xenon.material p).canEmit (space.toComposition (point k)) (.single .xenon 1) = true := by
  have htwo : (2 : UInt32) ≤ UInt32.ofNat k.natAbs := by
    rw [UInt32.le_iff_toNat_le, UInt32.toNat_ofNat_of_lt' hfit, show (2 : UInt32).toNat = 2 from rfl]
    omega
  rw [toComposition_point (by omega)]
  show ((1 : UInt32) == 1 && decide (2 ≤ UInt32.ofNat k.natAbs)) = true
  rw [decide_eq_true htwo]
  rfl

/-! ### Configured materials -/

namespace Material
open DefectSpace

/-- How a configured material groups and sheds: its monomers stay below the bins, and the composition that
    stands for a region sheds what the others do, but for strays in tungsten. -/
structure Sheds [Analytic α] (p : NetworkParams α) (m : Material α) (dim : Nat) (primary : Direction) :
    Prop where
  binned : m.Binned p.admits dim primary (p.grouping.map .ofGrouping)
  origin : p.admits Point.origin = false
  low : ∀ {y}, m.space.toPoint (m.space.toComposition y) = .ok y →
    m.space.toComposition y ∈ m.monomers → y.get primary ≤ 1
  releases_anchor_iff : Countable p.admits → ∀ {r : Region} {x y : Point},
    (∀ z, r.contains z = true → p.admits z = true) → (r.isUnit = false → 2 ≤ r.lo.get primary) →
    r.contains x = true → m.space.toPoint (m.space.toComposition y) = .ok y →
    m.space.toComposition y ∈ m.monomers → p.admits (x.add y.neg) = true →
      (m.releases r.anchor y = true ↔ m.releases x y = true ∨ p.material = .tungsten ∧ Strays r x y) ∧
      (p.material = .tungsten ∧ Strays r x y → m.releases x y = false)

variable [Analytic α] {p : NetworkParams α} {m : Material α}

theorem IsMetal.sheds {d : DefectSpace} (hm : m.IsMetal p d) (hadmits : p.admits = d.isAdmissible)
    {trap : Bool} (L : m.ShedsMonomers trap) (htrap : p.material = .tungsten ↔ trap = true)
    (hbinned : m.Binned d.isAdmissible 2 defectAxis (p.grouping.map .ofGrouping)) :
    m.Sheds p 2 defectAxis := by
  obtain ⟨-, hi, hv, -⟩ := hm.nonneg
  refine ⟨hadmits ▸ hbinned, ?_, ?_, ?_⟩
  · rw [hadmits]
    by_contra horigin
    rw [Bool.not_eq_false] at horigin
    have hcolumn := (isAdmissible_point (h := 0) (x := 0) hi hv).mp horigin
    rw [show d.column 0 = (1, d.maxHelium) from rfl] at hcolumn
    omega
  · intro y hplace hlisted
    rw [hm.space_eq] at hplace hlisted
    rw [L.monomers_eq] at hlisted
    rcases eq_of_listed hlisted hplace with ⟨-, rfl⟩ | ⟨-, rfl⟩ | ⟨-, rfl⟩ <;> decide
  · simp only [hadmits, releases, hm.space_eq, htrap]
    intro hcounts r x y hr hlow hx hplace hlisted hrest
    obtain ⟨hiff, hstrays⟩ := DefectSpace.canEmit_anchor_iff L hi hv hcounts hr hlow hx hplace hlisted hrest
    exact ⟨hiff, fun h => hstrays h.2⟩

theorem sheds_xenon (hkind : p.material = .xenon) (hvalid : p.validate = .ok ()) :
    (Xenon.material p).Sheds p 1 Direction.first := by
  have hmonomer : ∀ {y}, Xenon.space.toPoint (Xenon.space.toComposition y) = .ok y →
      Xenon.space.toComposition y ∈ [Composition.single .xenon 1] →
        Xenon.space.toComposition y = .single .xenon 1 ∧ y = Xenon.point 1 := by
    intro y hplace hlisted
    have h := List.mem_singleton.mp hlisted
    rw [h] at hplace
    exact ⟨h, (Except.ok.inj hplace).symm⟩
  have hadmits := NetworkParams.admits_xenon hkind
  refine ⟨hadmits ▸ binned_xenon hvalid, ?_, ?_, ?_⟩
  · rw [hadmits]
    rfl
  · intro y hplace hlisted
    obtain ⟨-, rfl⟩ := hmonomer hplace hlisted
    decide
  · rw [hadmits]
    intro hcounts r x y hr hlow hx hplace hlisted hrest
    obtain ⟨hy, rfl⟩ := hmonomer hplace hlisted
    have hemits : ∀ z, r.contains z = true → 2 ≤ z.get Direction.first →
        (Xenon.material p).canEmit (Xenon.space.toComposition z) (.single .xenon 1) = true := by
      intro z hz hatoms
      have hfit := hcounts z (hr z hz) Direction.first
      obtain ⟨k, -, rfl⟩ := Xenon.isAdmissible_iff.mp (hr z hz)
      exact Xenon.canEmit_of_two_le hatoms hfit
    have hempty := Region.isEmpty_of_contains hx
    have hatoms := Xenon.two_le_of_rest hrest
    have hnone : ¬p.material = .tungsten := by
      rw [hkind]
      decide
    rw [releases, releases, show (Xenon.material p).space = Xenon.space from rfl, hy,
      hemits _ (Region.contains_anchor hempty) (Region.le_anchor hx hatoms hlow), hemits x hx hatoms]
    simp [hnone]

/-- Every configured material sheds so. -/
theorem exists_sheds_of_chooseMaterial (h : p.chooseMaterial = .ok m) :
    ∃ dim primary, m.Sheds p dim primary := by
  have hvalid := (NetworkParams.chooseMaterial_eq_ok h).1
  obtain ⟨hkind, rfl⟩ | ⟨hkind, rfl⟩ | ⟨hkind, rfl⟩ := NetworkParams.material_of_chooseMaterial h
  · exact ⟨_, _, (Tungsten.isMetal p).sheds (NetworkParams.admits_tungsten hkind) (Tungsten.shedsMonomers p)
      (by simp [hkind]) ((Tungsten.isMetal p).binned hvalid Tungsten.vacancy_le_one)⟩
  · exact ⟨_, _, (Iron.isMetal p).sheds (NetworkParams.admits_iron hkind) (Iron.shedsMonomers p)
      (by simp [hkind]) ((Iron.isMetal p).binned hvalid Iron.vacancy_le_one)⟩
  · exact ⟨_, _, sheds_xenon hkind hvalid⟩

end Material

/-! ### With and without grouping -/

namespace Network
open DefectSpace

variable [Analytic α] {params : NetworkParams α} {m : Material α}

/-- A network sheds what is separable and what its clusters let through. Without bins these ask the
    composition itself; with bins there are the strays besides. -/
theorem exists_emits_iff (hchoice : params.chooseMaterial = .ok m)
    (hmin : ∀ g, params.grouping = some g → g.minWidth = 1)
    (hwords : Network.ofParams params ≠ .error .overflow) (hcounts : Countable params.admits)
    (hsome : ∃ x, params.admits x = true) :
    ∃ n, Network.ofParams params = .ok n ∧
      (∀ x y, n.Emits x y ↔ Separable m params.admits x y ∧ (m.releases x y = true ∨
        params.material = .tungsten ∧ ∃ P ∈ n.clusters, P.region.contains x = true ∧ Strays P.region x y)) ∧
      ∀ x y, Separable m params.admits x y → params.material = .tungsten →
        (∃ P ∈ n.clusters, P.region.contains x = true ∧ Strays P.region x y) → m.releases x y = false := by
  obtain ⟨n, hn⟩ := exists_ofParams hchoice hmin hwords hcounts hsome
  obtain ⟨hbuilt, hchoice', p, G⟩ := generated_of_ofParams hn
  obtain rfl : m = n.material := Except.ok.inj (hchoice.symm.trans hchoice')
  have T := Material.tracks_of_chooseMaterial hchoice hmin
  obtain ⟨dim, primary, S⟩ := Material.exists_sheds_of_chooseMaterial hchoice
  have hemits : ∀ {x y}, n.Emits x y ↔ Separable n.material params.admits x y ∧ ∃ P ∈ n.clusters,
      P.region.contains x = true ∧ n.material.releases P.region.anchor y = true :=
    G.emits_iff T hcounts S.binned hbuilt S.origin fun y hy => S.low (T.placed y hy (hcounts y hy))
  -- What an owner sheds, by the composition that it holds.
  have howner : ∀ {x y}, Separable n.material params.admits x y →
      ∀ P ∈ n.clusters, P.region.contains x = true →
        (n.material.releases P.region.anchor y = true ↔
          n.material.releases x y = true ∨ params.material = .tungsten ∧ Strays P.region x y) ∧
        (params.material = .tungsten ∧ Strays P.region x y → n.material.releases x y = false) := by
    intro x y E P hP hx
    refine S.releases_anchor_iff hcounts (fun z hz => G.admits_of_contains T hP hz) (fun hgrouped => ?_) hx
      (T.placed y E.monomer (hcounts y E.monomer)) E.listed E.rest
    by_contra hlow
    rw [G.isUnit_of_low T S.binned hP (by omega)] at hgrouped
    cases hgrouped
  refine ⟨n, hn, fun x y => ?_, ?_⟩
  · rw [hemits]
    refine and_congr_right fun E => ⟨?_, ?_⟩
    · rintro ⟨P, hP, hx, hemit⟩
      rcases ((howner E P hP hx).1.mp hemit) with hemit | ⟨hkind, hstrays⟩
      · exact .inl hemit
      · exact .inr ⟨hkind, P, hP, hx, hstrays⟩
    · rintro (hemit | ⟨hkind, P, hP, hx, hstrays⟩)
      · obtain ⟨P, hP, hx⟩ := Population.owns_iff.mp ((G.owns_iff T).mpr E.whole)
        exact ⟨P, hP, hx, (howner E P hP hx).1.mpr (.inl hemit)⟩
      · exact ⟨P, hP, hx, (howner E P hP hx).1.mpr (.inr ⟨hkind, hstrays⟩)⟩
  · rintro x y E hkind ⟨P, hP, hx, hstrays⟩
    exact (howner E P hP hx).2 ⟨hkind, hstrays⟩

/-- Without bins no region is wide enough for a stray. -/
theorem exists_emits_iff_of_ungrouped (hchoice : params.chooseMaterial = .ok m)
    (hnone : params.grouping = none) (hwords : Network.ofParams params ≠ .error .overflow)
    (hcounts : Countable params.admits) (hsome : ∃ x, params.admits x = true) :
    ∃ n, Network.ofParams params = .ok n ∧
      ∀ x y, n.Emits x y ↔ Separable m params.admits x y ∧ m.releases x y = true := by
  obtain ⟨n, hn, hemits, -⟩ :=
    exists_emits_iff hchoice (by rw [hnone]; exact fun _ h => nomatch h) hwords hcounts hsome
  refine ⟨n, hn, fun x y => ?_⟩
  have hstrays : ¬∃ P ∈ n.clusters, P.region.contains x = true ∧ Strays P.region x y := by
    rintro ⟨P, hP, -, h⟩
    have hwide := h.wide
    rw [Region.isUnit_iff.mp (isUnit_of_ungrouped hn hnone P hP) heliumAxis] at hwide
    omega
  rw [hemits]
  exact and_congr_right fun _ => ⟨fun h => h.resolve_right fun h => hstrays h.2, .inl⟩

/-- Bins add events in tungsten alone: a composition of vacancies sheds an interstitial when it shares its
    cluster with bubbles. Apart from these strays, a grouped network sheds what the network without groups
    does, which is what the material lets each composition emit. -/
theorem emits_ungrouped {g : GroupingParams α} (hchoice : params.chooseMaterial = .ok m)
    (hgrouping : params.grouping = some g) (hmin : g.minWidth = 1)
    (hwords : Network.ofParams params ≠ .error .overflow)
    (hwords' : Network.ofParams { params with grouping := none } ≠ .error .overflow)
    (hcounts : ∀ x, params.admits x = true → ∀ a : Direction, (x.get a).natAbs < 4294967296)
    (hsome : ∃ x, params.admits x = true) :
    ∃ n n', Network.ofParams params = .ok n ∧ Network.ofParams { params with grouping := none } = .ok n' ∧
      (∀ x y, n'.Emits x y → n.Emits x y) ∧
      (∀ x y, n.Emits x y ∧ ¬n'.Emits x y ↔ params.material = .tungsten ∧
        Separable m params.admits x y ∧ ∃ P ∈ n.clusters, P.region.contains x = true ∧ Strays P.region x y) ∧
      ∀ x y, n.Emits x y → (n'.Emits x y ↔ m.releases x y = true) := by
  obtain ⟨rule, hchoice'⟩ := exists_rule_ungrouped hchoice
  have hnarrow : ∀ g', params.grouping = some g' → g'.minWidth = 1 := by
    intro g' hg'
    rw [hgrouping] at hg'
    cases hg'
    exact hmin
  obtain ⟨n, hn, hemits, hstrays⟩ := exists_emits_iff hchoice hnarrow hwords hcounts hsome
  obtain ⟨n', hn', hemits'⟩ := exists_emits_iff_of_ungrouped hchoice' rfl hwords' hcounts hsome
  have hungrouped : ∀ {x y}, n'.Emits x y ↔ Separable m params.admits x y ∧ m.releases x y = true := by
    intro x y
    rw [hemits']
    exact and_congr_left' ⟨fun E => ⟨E.whole, E.monomer, E.rest, E.listed, E.moves⟩,
      fun E => ⟨E.whole, E.monomer, E.rest, E.listed, E.moves⟩⟩
  refine ⟨n, n', hn, hn', ?_, ?_, ?_⟩
  · intro x y h
    obtain ⟨E, hemit⟩ := hungrouped.mp h
    exact (hemits x y).mpr ⟨E, .inl hemit⟩
  · intro x y
    constructor
    · rintro ⟨h, h'⟩
      obtain ⟨E, hemit | ⟨hkind, hstray⟩⟩ := (hemits x y).mp h
      · exact absurd (hungrouped.mpr ⟨E, hemit⟩) h'
      · exact ⟨hkind, E, hstray⟩
    · rintro ⟨hkind, E, hstray⟩
      refine ⟨(hemits x y).mpr ⟨E, .inr ⟨hkind, hstray⟩⟩, fun h' => ?_⟩
      have hemit := (hungrouped.mp h').2
      rw [hstrays x y E hkind hstray] at hemit
      cases hemit
  · intro x y h
    rw [hungrouped]
    exact and_iff_right ((hemits x y).mp h).1

end Network

/-! ### Vacancies beside bubbles -/

namespace Trap
open DefectSpace
open scoped Pair

/-- Tungsten with up to three vacancies, in bins of two and three that also hold one helium atom. -/
def params : NetworkParams ℚ :=
  { NetworkParams.standard with
    material := .tungsten
    maxHelium := 1
    maxVacancy := 3
    maxInterstitial := 1
    grouping := some ⟨2, 2, 0, 1⟩ }

theorem minWidth_eq_one : ∀ g, params.grouping = some g → g.minWidth = 1 := by
  rintro g ⟨⟩
  rfl

theorem countable_admits : Countable params.admits :=
  (Material.tracks_of_chooseMaterial (m := Tungsten.material params) rfl minWidth_eq_one).countable
    (by decide)

theorem ofParams_ne_overflow : Network.ofParams params ≠ .error .overflow :=
  Network.ofParams_ne_overflow (m := Tungsten.material params) rfl minWidth_eq_one countable_admits
    (by decide +kernel)

theorem ungrouped_ne_overflow : Network.ofParams { params with grouping := none } ≠ .error .overflow :=
  Network.ofParams_ne_overflow (m := Tungsten.material { params with grouping := none }) rfl
    (fun _ h => nomatch h) countable_admits (by decide +kernel)

/-- Two vacancies share their cluster with bubbles of helium. -/
theorem exists_wide {n : Network ℚ} (hn : Network.ofParams params = .ok n) :
    ∃ P ∈ n.clusters, P.region.contains (point 0 2) = true ∧ 1 < P.region.width heliumAxis := by
  obtain ⟨-, hchoice, p, G⟩ := Network.generated_of_ofParams hn
  have hmaterial : Tungsten.material params = n.material := Except.ok.inj hchoice
  have hwide : (match (Tungsten.material params).partition with
      | .ok p => (p.regions .admitted).any fun r =>
        r.contains (point 0 2) && decide (1 < r.width heliumAxis)
      | .error _ => false) = true := by decide +kernel
  rw [hmaterial, G.partition] at hwide
  obtain ⟨r, hr, hwide⟩ := List.any_eq_true.mp hwide
  obtain ⟨P, hP, rfl⟩ := G.exists_cluster hr
  rw [Bool.and_eq_true, decide_eq_true_eq] at hwide
  exact ⟨P, hP, hwide⟩

/-- With bins two vacancies shed an interstitial and keep a third vacancy, without bins they do not. -/
theorem emits_stray : ∃ n n', Network.ofParams params = .ok n ∧
    Network.ofParams { params with grouping := none } = .ok n' ∧
      n.Emits (point 0 2) (point 0 (-1)) ∧ ¬n'.Emits (point 0 2) (point 0 (-1)) := by
  obtain ⟨n, n', hn, hn', -, hstrays, -⟩ := Network.emits_ungrouped
    (m := Tungsten.material params) rfl rfl rfl ofParams_ne_overflow ungrouped_ne_overflow
    countable_admits ⟨point 0 2, by decide⟩
  obtain ⟨P, hP, hin, hwide⟩ := exists_wide hn
  refine ⟨n, n', hn, hn', (hstrays _ _).mpr ⟨rfl, ?_, P, hP, hin, rfl, rfl, hwide⟩⟩
  exact ⟨by decide, by decide, by decide, by decide, .inl (by decide +kernel)⟩

end Trap
end ClusterDynamics
