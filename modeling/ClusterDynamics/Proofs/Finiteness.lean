import ClusterDynamics.Proofs.Metal

/-! Sizes of the physics. Arithmetic that rounds to the nearest number of its format keeps a result
    between the powers of two that the exact result lies between, as long as these are numbers of the
    format. The formulas of the materials stay far below the largest of them for all counts, so no
    radius and no diffusion factor overflows, and no energy but the one that a table does not list. -/

namespace ClusterDynamics

variable {α : Type}

namespace Scalar

variable [Scalar α]

/-- A number that is at most `2 ^ k` in size. -/
structure Within (k : Nat) (x : α) : Prop where
  finite : isFinite x = true
  above : ¬ x < ofInt (-2 ^ k)
  below : ¬ ofInt (2 ^ k) < x

/-- A number between one and `2 ^ k`, by which division makes nothing larger. -/
structure Sized (k : Nat) (x : α) : Prop extends Within k x where
  one_le : ¬ x < 1

end Scalar

open Scalar

/-- Arithmetic in a format that reaches `2 ^ 1023`, rounded to nearest. Roots and powers may be off by
    more than that, but not by a factor of two. -/
class LawfulRounding (α : Type) [Analytic α] : Prop where
  infinity : isFinite (Analytic.infinity : α) = false
  zero : Within 0 (0 : α)
  one : Within 0 (1 : α)
  pi : Sized 2 (Analytic.pi : α)
  ofInt {k : Nat} {n : Int} : k < 1024 → n.natAbs ≤ 2 ^ k → Within k (Scalar.ofInt n : α)
  one_le_ofInt {n : Int} : 1 ≤ n → ¬ (Scalar.ofInt n : α) < 1
  literal {k m e : Nat} {down : Bool} : k < 1024 →
    (if down then m ≤ 2 ^ k * 10 ^ e else m * 10 ^ e ≤ 2 ^ k) →
      Within k (OfScientific.ofScientific m down e : α)
  one_le_literal {m e : Nat} {down : Bool} : (if down then 10 ^ e ≤ m else 1 ≤ m) →
    ¬ (OfScientific.ofScientific m down e : α) < 1
  add {j k : Nat} {x y : α} : Within j x → Within k y → max j k + 1 < 1024 → Within (max j k + 1) (x + y)
  sub {j k : Nat} {x y : α} : Within j x → Within k y → max j k + 1 < 1024 → Within (max j k + 1) (x - y)
  mul {j k : Nat} {x y : α} : Within j x → Within k y → j + k < 1024 → Within (j + k) (x * y)
  one_le_mul {j k : Nat} {x y : α} : Sized j x → Sized k y → ¬ x * y < 1
  div {j k : Nat} {x y : α} : Within j x → Sized k y → Within j (x / y)
  sqrt {k : Nat} {x : α} : Sized k x → Within k (Analytic.sqrt x)
  cbrt {k : Nat} {x : α} : Within k x → k + 1 < 1024 → Within (k + 1) (Analytic.cbrt x)
  pow {k n : Nat} : k + 1 < 1024 → n ≤ 2 ^ k →
    Within (k + 1) (Analytic.pow (Scalar.ofNat n) (2.0 / 3.0) : α)

variable [Analytic α] [LawfulRounding α]

namespace LawfulRounding

theorem count (n : UInt32) : Within 32 (Scalar.ofNat n.toNat : α) := by
  have hword := n.toNat_lt
  exact ofInt (by simp) (by simpa using hword.le)

theorem sized_ofNat {k n : Nat} (hk : k < 1024) (h : n ≤ 2 ^ k) (hpos : 0 < n) :
    Sized k (Scalar.ofNat n : α) :=
  ⟨ofInt hk (by simpa using h), one_le_ofInt (by omega)⟩

theorem sized_count {n : UInt32} (h : 0 < n) : Sized 32 (Scalar.ofNat n.toNat : α) :=
  sized_ofNat (by simp) (by simpa using n.toNat_lt.le) (UInt32.lt_iff_toNat_lt.mp h)

theorem sized_literal {k m e : Nat} {down : Bool} (hk : k < 1024)
    (h : if down then m ≤ 2 ^ k * 10 ^ e else m * 10 ^ e ≤ 2 ^ k)
    (hone : if down then 10 ^ e ≤ m else 1 ≤ m) : Sized k (OfScientific.ofScientific m down e : α) :=
  ⟨literal hk h, one_le_literal hone⟩

theorem sized_mul {j k : Nat} {x y : α} (hx : Sized j x) (hy : Sized k y) (h : j + k < 1024) :
    Sized (j + k) (x * y) :=
  ⟨mul hx.toWithin hy.toWithin h, one_le_mul hx hy⟩

theorem surface (n : UInt32) : Within 33 (RateLaw.surface (Scalar.ofNat n.toNat) : α) :=
  pow (by simp) (by simpa using n.toNat_lt.le)

end LawfulRounding

open LawfulRounding

/-! ### Radii -/

namespace RateLaw

variable {lattice n : α}

theorem within_cube (h : Within 0 lattice) : Within 0 (Analytic.cube lattice) :=
  mul h (mul h h (by simp)) (by simp)

/-- The two spheres that the radii of defects compare. -/
theorem within_shells (h : Within 0 lattice) (hn : Within 32 n) :
    Within 35 (Analytic.cbrt (3.0 * Analytic.cube lattice * n / (8.0 * Analytic.pi))) ∧
      Within 3 (Analytic.cbrt (3.0 * Analytic.cube lattice / (8.0 * Analytic.pi))) := by
  have hcell : Within 2 (3.0 * Analytic.cube lattice) :=
    mul (literal (k := 2) (by simp) (by simp)) (within_cube h) (by simp)
  have hsolid : Sized 5 (8.0 * Analytic.pi : α) :=
    sized_mul (sized_literal (k := 3) (by simp) (by simp) (by simp)) pi (by simp)
  refine ⟨?_, ?_⟩
  · exact cbrt (div (mul hcell hn (by simp)) hsolid) (by simp)
  · exact cbrt (div hcell hsolid) (by simp)

theorem isFinite_loopRadius (h : Within 0 lattice) (hn : Within 32 n) :
    isFinite (loopRadius n lattice) = true := by
  obtain ⟨hlarge, hsmall⟩ := within_shells h hn
  have hroot : Within 2 (Analytic.sqrt 3.0 / 4.0 : α) :=
    div (sqrt (sized_literal (by simp) (by simp) (by simp)))
      (sized_literal (k := 2) (by simp) (by simp) (by simp))
  exact (sub (add (mul hroot h (by simp)) hlarge (by simp)) hsmall (by simp)).finite

theorem isFinite_heliumRadius (h : Within 0 lattice) (hn : Within 32 n) :
    isFinite (heliumRadius n lattice) = true := by
  obtain ⟨hlarge, hsmall⟩ := within_shells h hn
  have hfirst : Within 0 (0.3 : α) := literal (by simp) (by simp)
  exact (sub (add hfirst hlarge (by simp)) hsmall (by simp)).finite

theorem isFinite_clusterRadius (h : Within 0 lattice) (c : Composition) :
    isFinite (clusterRadius lattice c) = true := by
  unfold clusterRadius
  split_ifs
  · exact isFinite_loopRadius h (count _)
  · exact isFinite_loopRadius h (count _)
  · exact isFinite_heliumRadius h (count _)

end RateLaw

/-! ### Diffusion factors -/

theorem LawfulRounding.isFinite_literal {m e : Nat} {down : Bool}
    (h : if down then m ≤ 2 ^ 64 * 10 ^ e else m * 10 ^ e ≤ 2 ^ 64) :
    isFinite (OfScientific.ofScientific m down e : α) = true :=
  (literal (by simp) h).finite

omit [LawfulRounding α] in
theorem isFinite_getD {l : List α} {d : α} (hl : ∀ x ∈ l, isFinite x = true) (hd : isFinite d = true) (i : Nat) :
    isFinite (l[i]?.getD d) = true := by
  cases h : l[i]? with
  | none => exact hd
  | some x => exact hl x (List.mem_of_getElem? h)

theorem Tungsten.isFinite_diffusionFactor (c : Composition) : isFinite (diffusionFactor c : α) = true := by
  have hzero : isFinite (0 : α) = true := zero.finite
  unfold diffusionFactor
  split_ifs with hnone hhelium hinterstitial htable hvacancy
  · exact hzero
  · refine isFinite_getD ?_ hzero _
    simp [heliumDiffusion, isFinite_literal]
  · have htotal : Sized 3 (Scalar.ofNat c.total : α) := by
      have hpos : c.total ≠ 0 := by simp_all [Composition.isEmpty]
      exact sized_ofNat (by simp) (by omega) (by omega)
    exact (div (literal (k := 64) (by simp) (by simp)) htotal).finite
  · exact hzero
  · exact isFinite_literal (by simp)
  · exact hzero

theorem Iron.isFinite_diffusionFactor (c : Composition) : isFinite (diffusionFactor c : α) = true := by
  unfold diffusionFactor
  split
  · exact isFinite_literal (by simp)
  · exact isFinite_literal (by simp)
  · exact isFinite_literal (by simp)
  · exact zero.finite

/-! ### Formation energies -/

/-- The vacancies of a bubble, its helium atoms and the pressure among them. -/
theorem isFinite_bubble {c : Composition} (h : 0 < c.vacancy) {a b p : α} (ha : Within 4 a) (hb : Within 4 b)
    (hp : Within 0 p) :
    isFinite (a * RateLaw.surface (Scalar.ofNat c.vacancy.toNat) + Scalar.ofNat c.helium.toNat * b
      + p * Scalar.ofNat c.helium.toNat * (Scalar.ofNat c.helium.toNat - 1)
        / Scalar.ofNat c.vacancy.toNat) = true := by
  have hhelium : Within 32 (Scalar.ofNat c.helium.toNat : α) := count _
  -- The largest term: two counts of helium atoms, over at least one vacancy.
  have hpressure : Within 65 (p * Scalar.ofNat c.helium.toNat * (Scalar.ofNat c.helium.toNat - 1)
      / Scalar.ofNat c.vacancy.toNat) :=
    div (mul (mul hp hhelium (by simp)) (sub hhelium one (by simp)) (by simp)) (sized_count h)
  have hvacancy : Within 37 (a * RateLaw.surface (Scalar.ofNat c.vacancy.toNat)) :=
    mul ha (surface _) (by simp)
  exact (add (add hvacancy (mul hhelium hb (by simp)) (by simp)) hpressure (by simp)).finite

theorem isFinite_surface {a : α} (h : Within 4 a) (n : UInt32) :
    isFinite (a * RateLaw.surface (Scalar.ofNat n.toNat)) = true :=
  (mul h (surface n) (by simp)).finite

theorem Xenon.isFinite_formationEnergy (c : Composition) : isFinite (formationEnergy c : α) = true :=
  isFinite_surface (literal (by simp) (by simp)) c.xenon

theorem Iron.isFinite_formationEnergy (c : Composition) : isFinite (formationEnergy c : α) = true := by
  unfold formationEnergy
  split_ifs with hvacancy hinterstitial
  · refine isFinite_bubble hvacancy (literal (by simp) (by simp)) ?_ (literal (by simp) (by simp))
    exact sub (literal (k := 3) (by simp) (by simp)) (literal (k := 3) (by simp) (by simp)) (by simp)
  · exact isFinite_surface (literal (by simp) (by simp)) _
  · exact isFinite_surface (literal (by simp) (by simp)) _

/-- Pure helium that the table of the kind does not list. -/
def MaterialKind.beyondTable (kind : MaterialKind) (c : Composition) : Bool :=
  decide (kind = .tungsten ∧ c.vacancy = 0 ∧ c.interstitial = 0 ∧
    ConfigFault.tabulatedHelium < c.helium.toNat)

theorem Tungsten.isFinite_heliumFormation (i : Nat) :
    isFinite ((heliumFormation[i]?).getD Analytic.infinity : α) = decide (i < ConfigFault.tabulatedHelium) := by
  have hall : ∀ x ∈ (heliumFormation : List α), isFinite x = true := by
    simp [heliumFormation, isFinite_literal]
  by_cases h : i < ConfigFault.tabulatedHelium
  · have hlength : i < (heliumFormation : List α).length := h
    simp [h, hlength, hall]
  · have hlength : (heliumFormation : List α).length ≤ i := Nat.le_of_not_lt h
    simp [h, hlength, infinity]

theorem Tungsten.isFinite_formationEnergy (c : Composition) :
    isFinite (formationEnergy c : α) = !MaterialKind.tungsten.beyondTable c := by
  unfold formationEnergy MaterialKind.beyondTable
  dsimp only
  split_ifs with hvacancy hinterstitial hhelium
  · have hne : c.vacancy ≠ 0 := UInt32.pos_iff_ne_zero.mp hvacancy
    have henergy : isFinite (_ : α) = true :=
      isFinite_bubble hvacancy (a := 3.6) (b := 6.15 - heliumVacancyBinding) (p := heliumPressure)
        (literal (by simp) (by simp))
        (sub (literal (k := 3) (by simp) (by simp)) (literal (k := 3) (by simp) (by simp)) (by simp))
        (literal (by simp) (by simp))
    simpa [hne] using henergy
  · have hne : c.interstitial ≠ 0 := UInt32.pos_iff_ne_zero.mp hinterstitial
    have henergy : isFinite (10.0 * RateLaw.surface (Scalar.ofNat c.interstitial.toNat) : α) = true :=
      isFinite_surface (literal (by simp) (by simp)) _
    simpa [hne] using henergy
  · simp [hhelium, zero.finite]
  · have hv : c.vacancy = 0 := by simpa [UInt32.pos_iff_ne_zero] using hvacancy
    have hi : c.interstitial = 0 := by simpa [UInt32.pos_iff_ne_zero] using hinterstitial
    have hlisted : c.helium.toNat - 1 < ConfigFault.tabulatedHelium ↔
        ¬ ConfigFault.tabulatedHelium < c.helium.toNat := by omega
    rw [isFinite_heliumFormation, decide_eq_decide.mpr hlisted, decide_not]
    simp [hv, hi]

/-! ### Materials -/

/-- The radii and diffusion factors of a configured material are finite, and so are its energies except for
    the helium that its table does not list. -/
theorem NetworkParams.isFinite_of_chooseMaterial {p : NetworkParams α} {m : Material α}
    (h : p.chooseMaterial = .ok m) (c : Composition) :
    isFinite (m.diffusionFactor c) = true ∧ isFinite (m.reactionRadius c) = true ∧
      isFinite (m.formationEnergy c) = !p.material.beyondTable c := by
  rcases NetworkParams.material_of_chooseMaterial h with ⟨hkind, rfl⟩ | ⟨hkind, rfl⟩ | ⟨hkind, rfl⟩
  · rw [hkind]
    exact ⟨Tungsten.isFinite_diffusionFactor c,
      RateLaw.isFinite_clusterRadius (literal (by simp) (by simp)) c, Tungsten.isFinite_formationEnergy c⟩
  · rw [hkind]
    exact ⟨Iron.isFinite_diffusionFactor c,
      RateLaw.isFinite_clusterRadius (literal (by simp) (by simp)) c, Iron.isFinite_formationEnergy c⟩
  · rw [hkind]
    refine ⟨?_, ?_, Xenon.isFinite_formationEnergy c⟩
    · show isFinite (if c.xenon = 1 then 7.6e8 else 0 : α) = true
      split_ifs
      · exact isFinite_literal (by simp)
      · exact zero.finite
    · have hsphere : Sized 5 (4.0 * Analytic.pi : α) :=
        sized_mul (sized_literal (k := 3) (by simp) (by simp) (by simp)) pi (by simp)
      have hvolume : Within 34 (3.0 * Scalar.ofNat c.xenon.toNat * Xenon.atomicVolume : α) :=
        mul (mul (literal (k := 2) (by simp) (by simp)) (count _) (by simp))
          (literal (k := 0) (by simp) (by simp)) (by simp)
      exact (cbrt (div hvolume hsphere) (by simp)).finite

end ClusterDynamics
