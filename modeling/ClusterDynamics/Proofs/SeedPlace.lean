import ClusterDynamics.Proofs.Coverage
import ClusterDynamics.Proofs.RoundTrip
import ClusterDynamics.Proofs.SignedPoints

/-! What a material makes of a region that its axes may not express. The composition at the anchor of a region
    is read off the axes one by one, so its species always lie on axes of their own: it has a place, and the
    search for the place refuses no region. The place is what words can count of the anchor, and so it is the
    anchor itself only where counts can express it. Other regions get the composition of another point. -/

namespace ClusterDynamics

variable {α : Type}

namespace Material

/-- Finding the anchor of a region and the motion of its composition stays within machine words. -/
def seedFits (m : Material α) (r : Region) : Bool :=
  r.anchorFits && (!r.isUnit || m.motionFits (m.space.toComposition r.anchor))

/-- Only a number that leaves its machine word keeps a material from making a seed. -/
theorem seedFor_eq [Scalar α] {m : Material α} {r : Region} (hspace : m.space.Valid) :
    m.seedFor r = if m.seedFits r then .ok (m.seedOf r) else .error .overflow := by
  have hplace : (m.space.locatePoint (m.space.toComposition r.anchor) : Except (NetworkFault α) Point) =
      .ok (m.space.truncated r.anchor) :=
    PhaseSpace.locatePoint_eq_ok.mpr (PhaseSpace.toPoint_toComposition hspace r.anchor)
  unfold seedFor seedFits
  cases hanchor : r.anchorFits with
  | false => rfl
  | true =>
    show (m.space.locatePoint (m.space.toComposition r.anchor) >>= _) = _
    rw [hplace]
    cases hmotion : !r.isUnit || m.motionFits (m.space.toComposition r.anchor) <;> rfl

/-- The seed that a built-in material makes of any region stands at the truncated anchor: the lower corner of a
    single point, the rounded centre of any other region. It stands at the anchor itself exactly when counts can
    express the anchor, and no region is refused as a misplaced composition. -/
theorem seedFor_of_chooseMaterial [Analytic α] {p : NetworkParams α} {m : Material α}
    (h : p.chooseMaterial = .ok m) (r : Region) :
    (m.seedFits r = false → m.seedFor r = .error .overflow) ∧
    (m.seedFits r = true → ∃ s, m.seedFor r = .ok s ∧ s.region = r ∧
      m.space.toPoint s.composition = .ok (m.space.truncated r.anchor) ∧
      (m.space.toPoint s.composition = .ok r.anchor ↔ m.space.Expresses r.anchor)) := by
  have hspace := valid_of_chooseMaterial h
  have hplace := PhaseSpace.toPoint_toComposition hspace r.anchor
  constructor
  · intro hfits
    rw [seedFor_eq hspace, hfits]
    rfl
  · intro hfits
    refine ⟨m.seedOf r, ?_, rfl, hplace, ?_⟩
    · rw [seedFor_eq hspace, hfits]
      rfl
    · rw [show (m.seedOf r).composition = m.space.toComposition r.anchor from rfl, hplace, Except.ok.injEq,
        PhaseSpace.truncated_eq_self_iff]

end Material

/-! ### Xenon regions off the axis -/

namespace Adrift
open scoped Pair

/-- Xenon clusters of up to five atoms. -/
def params : NetworkParams ℚ := { NetworkParams.standard with material := .xenon, maxXenon := 5 }

/-- The group of three to five atoms stands at four. A group centred at minus two atoms stands at the origin, a
    group that leaves the axis on the axis, and a single point beyond the words at what is left modulo `2 ^ 32`. -/
theorem seedFor_xenon :
    let m := Xenon.material params
    (∃ s, m.seedFor (.ofInclusive [(3, 5)]) = .ok s ∧ m.space.toPoint s.composition = .ok #v[4, 0, 0, 0]) ∧
      (∃ s, m.seedFor (.ofInclusive [(-3, -1)]) = .ok s ∧ m.space.toPoint s.composition = .ok Point.origin ∧
        m.space.toPoint s.composition ≠ .ok #v[-2, 0, 0, 0]) ∧
      (∃ s, m.seedFor (.ofInclusive [(2, 4), (5, 7)]) = .ok s ∧
        m.space.toPoint s.composition = .ok #v[3, 0, 0, 0]) ∧
      ∃ s, m.seedFor (.unit #v[4294967298, 0, 0, 0]) = .ok s ∧
        m.space.toPoint s.composition = .ok #v[2, 0, 0, 0] := by
  intro m
  have hseed := fun r => (Material.seedFor_of_chooseMaterial (p := params) (m := m) rfl r).2
  refine ⟨?_, ?_, ?_, ?_⟩
  · obtain ⟨s, hs, -, hplace, -⟩ := hseed (.ofInclusive [(3, 5)]) (by decide +kernel)
    exact ⟨s, hs, hplace.trans (by decide +kernel)⟩
  · obtain ⟨s, hs, -, hplace, hanchor⟩ := hseed (.ofInclusive [(-3, -1)]) (by decide +kernel)
    refine ⟨s, hs, hplace.trans (by decide +kernel), fun h => ?_⟩
    have hplain := (hanchor.mp h).plain Direction.first (Axis.plain .xenon) rfl rfl
    exact absurd hplain (by decide)
  · obtain ⟨s, hs, -, hplace, -⟩ := hseed (.ofInclusive [(2, 4), (5, 7)]) (by decide +kernel)
    exact ⟨s, hs, hplace.trans (by decide +kernel)⟩
  · obtain ⟨s, hs, -, hplace, -⟩ := hseed (.unit #v[4294967298, 0, 0, 0]) (by decide +kernel)
    exact ⟨s, hs, hplace.trans (by decide +kernel)⟩

end Adrift
end ClusterDynamics
