import ClusterDynamics.Proofs.Codecs
import ClusterDynamics.Proofs.Finiteness
import Mathlib.Analysis.SpecialFunctions.Pow.NthRootLemmas

/-! Decimal numbers with nine places, rounded towards zero, and one number above all others. They have
    exact numerals and obey the laws of rounding, so networks over them can be built, written and read. -/

namespace ClusterDynamics

/-- A number of billionths, or the number above all of them. -/
inductive FixedPoint
  | units (n : Int)
  | infinite
deriving DecidableEq, Repr, Inhabited

namespace FixedPoint

/-- How many units make one. -/
def scale : Nat := 1000000000

/-- An operation on units; nothing finite comes of what is infinite. -/
def lift (f : Int → Int → Int) : FixedPoint → FixedPoint → FixedPoint
  | units a, units b => units (f a b)
  | _, _ => infinite

/-- Applies a function to the units; infinity stays. -/
def map (f : Int → Int) : FixedPoint → FixedPoint
  | units a => units (f a)
  | infinite => infinite

/-- A function of the magnitude, extended to negative numbers by their sign. -/
def ofMagnitude (f : Nat → Nat) : FixedPoint → FixedPoint := map fun a => a.sign * f a.natAbs

/-- Comparison, with infinity above every number and not below itself. -/
def less : FixedPoint → FixedPoint → Bool
  | units a, units b => decide (a < b)
  | units _, infinite => true
  | infinite, _ => false

instance : Scalar FixedPoint where
  add := lift (· + ·)
  sub := lift (· - ·)
  mul := lift fun a b => (a * b).tdiv scale
  div x y := if y = units 0 then infinite else lift (fun a b => (a * scale).tdiv b) x y
  neg := map fun a => -a
  zero := units 0
  one := units scale
  lt x y := less x y = true
  ofScientific m down e := units (if down then m * scale / 10 ^ e else m * 10 ^ e * scale : Nat)
  ofInt n := units (n * scale)
  less _ _ := inferInstance
  isZero x := x == units 0
  isFinite x := x != infinite

instance : Analytic FixedPoint where
  pi := units 3141592653
  exp := map fun a => scale + a
  sqrt := ofMagnitude fun a => Nat.sqrt (a * scale)
  cbrt := ofMagnitude fun a => Nat.nthRoot 3 (a * scale ^ 2)
  -- The only power of the physics is the one with the exponent two thirds.
  pow x _ := ofMagnitude (fun a => Nat.nthRoot 3 (a ^ 2 * scale)) x
  infinity := infinite
  floor
    | units a => a / scale
    | infinite => 9223372036854775807

/-- A number is written as its units with the power `-9`. -/
def numeral : FixedPoint → Numeral
  | units a => ⟨decide (a < 0), Numeral.digitsOf a.natAbs, [], some (true, ['9'])⟩
  | infinite => default

/-- The number that a numeral rounds to, towards zero. -/
def ofNumeral? (n : Numeral) : FixedPoint :=
  let shift := n.scale + 9
  let magnitude := if 0 ≤ shift then n.significand * 10 ^ shift.toNat else n.significand / 10 ^ (-shift).toNat
  units (if n.negative then -magnitude else magnitude)

instance : ScalarText FixedPoint where
  plain x := (numeral x).text
  numeral := numeral
  cell x := (numeral x).text
  ofNumeral? n := some (ofNumeral? n)

/-! ### Numerals -/

theorem ofNumeral?_numeral (a : Int) : ofNumeral? (numeral (units a)) = units a := by
  have hscale : (numeral (units a)).scale = -9 := rfl
  have hsignificand : (numeral (units a)).significand = a.natAbs := by
    rw [Numeral.significand, numeral, List.append_nil, Numeral.digitValue_digitsOf]
  have hsign : (numeral (units a)).negative = decide (a < 0) := rfl
  have hmagnitude : (if a < 0 then -(a.natAbs : Int) else a.natAbs) = a := by omega
  simp only [ofNumeral?, hscale, hsignificand, hsign, decide_eq_true_eq]
  simpa using hmagnitude

theorem wellFormed_numeral (a : Int) : (numeral (units a)).WellFormed where
  whole := Numeral.run_digitsOf a.natAbs
  lead := (Numeral.wellFormed_ofInt a).lead
  fraction := by simp [numeral]
  power := by
    intro p hp
    cases hp
    exact ⟨by simp, by simp⟩

theorem eq_units {x : FixedPoint} (h : Scalar.isFinite x = true) : ∃ a, x = units a := by
  cases x with
  | units a => exact ⟨a, rfl⟩
  | infinite => cases h

instance : LawfulText FixedPoint where
  wellFormed_numeral := by
    intro x h
    obtain ⟨a, rfl⟩ := eq_units h
    exact wellFormed_numeral a
  ofNumeral?_numeral := by
    intro x h
    obtain ⟨a, rfl⟩ := eq_units h
    exact congrArg some (ofNumeral?_numeral a)

/-! ### Rounding -/

open Scalar

variable {j k : Nat} {a b : Int} {x y : FixedPoint}

theorem units_lt_units : units a < units b ↔ a < b := by
  show decide (a < b) = true ↔ a < b
  exact decide_eq_true_iff

theorem within_units : Within k (units a) ↔ a.natAbs ≤ 2 ^ k * scale := by
  have hpower : ((2 ^ k * scale : Nat) : Int) = 2 ^ k * scale := by push_cast; rfl
  constructor
  · rintro ⟨-, habove, hbelow⟩
    have hlo : ¬ a < -2 ^ k * scale := fun h => habove (units_lt_units.mpr h)
    have hhi : ¬ 2 ^ k * scale < a := fun h => hbelow (units_lt_units.mpr h)
    rw [neg_mul] at hlo
    omega
  · intro h
    refine ⟨rfl, ?_, ?_⟩
    · intro hlt
      have hlt : a < -2 ^ k * scale := units_lt_units.mp hlt
      rw [neg_mul] at hlt
      omega
    · intro hlt
      have hlt : 2 ^ k * scale < a := units_lt_units.mp hlt
      omega

theorem exists_within (h : Within k x) : ∃ a, x = units a ∧ a.natAbs ≤ 2 ^ k * scale := by
  obtain ⟨a, rfl⟩ := eq_units h.finite
  exact ⟨a, rfl, within_units.mp h⟩

theorem one_le_units : ¬ units a < 1 ↔ (scale : Int) ≤ a := by
  show ¬ units a < units scale ↔ _
  rw [units_lt_units, not_lt]

theorem exists_sized (h : Sized k x) : ∃ a : Nat, x = units a ∧ scale ≤ a ∧ a ≤ 2 ^ k * scale := by
  obtain ⟨a, rfl, ha⟩ := exists_within h.toWithin
  have hone := one_le_units.mp h.one_le
  obtain ⟨n, rfl⟩ := Int.eq_ofNat_of_zero_le (show 0 ≤ a by omega)
  exact ⟨n, rfl, by simpa using hone, by simpa using ha⟩

/-- The sign does not enlarge a magnitude. -/
theorem within_ofMagnitude {f : Nat → Nat} (h : f a.natAbs ≤ 2 ^ k * scale) :
    Within k (ofMagnitude f (units a)) := by
  have hsign : a.sign.natAbs ≤ 1 := by
    rcases lt_trichotomy a 0 with ha | rfl | ha
    · simp [Int.sign_eq_neg_one_of_neg ha]
    · simp
    · simp [Int.sign_eq_one_of_pos ha]
  refine within_units.mpr ?_
  rw [Int.natAbs_mul]
  calc a.sign.natAbs * f a.natAbs ≤ 1 * (2 ^ k * scale) := Nat.mul_le_mul hsign h
    _ = 2 ^ k * scale := one_mul _

/-- The cube root of a magnitude that is small beside the cube of a bound. -/
theorem nthRoot_le {m n : Nat} (h : m ≤ n ^ 3) : Nat.nthRoot 3 m ≤ n := by
  have hroot : Nat.nthRoot 3 m ^ 3 ≤ n ^ 3 := (Nat.pow_nthRoot_le (.inl (by simp))).trans h
  exact (Nat.pow_le_pow_iff_left (by simp)).mp hroot

theorem within_mono {l : Nat} (h : Within k x) (hkl : k ≤ l) : Within l x := by
  obtain ⟨a, rfl, ha⟩ := exists_within h
  exact within_units.mpr (ha.trans (Nat.mul_le_mul_right _ (Nat.pow_le_pow_right (by simp) hkl)))

theorem within_add {c : Int} (hc : c.natAbs ≤ a.natAbs + b.natAbs) (ha : a.natAbs ≤ 2 ^ j * scale)
    (hb : b.natAbs ≤ 2 ^ k * scale) : Within (max j k + 1) (units c) := by
  have hj : 2 ^ j * scale ≤ 2 ^ max j k * scale :=
    Nat.mul_le_mul_right _ (Nat.pow_le_pow_right (by simp) (le_max_left j k))
  have hk : 2 ^ k * scale ≤ 2 ^ max j k * scale :=
    Nat.mul_le_mul_right _ (Nat.pow_le_pow_right (by simp) (le_max_right j k))
  refine within_units.mpr ?_
  rw [pow_succ, mul_right_comm]
  omega

theorem scale_pos : 0 < scale := by decide

instance : LawfulRounding FixedPoint where
  infinity := rfl
  zero := within_units.mpr (by simp)
  one := within_units.mpr (by simp)
  pi := ⟨within_units.mpr (by decide), one_le_units.mpr (by decide)⟩
  ofInt := by
    intro k n _ h
    refine within_units.mpr ?_
    rw [Int.natAbs_mul]
    exact Nat.mul_le_mul_right _ h
  one_le_ofInt := by
    intro n h
    exact one_le_units.mpr (le_mul_of_one_le_left (by decide) h)
  literal := by
    intro k m e down _ h
    refine within_units.mpr ?_
    rw [Int.natAbs_natCast]
    cases down with
    | true =>
      refine Nat.div_le_of_le_mul ?_
      calc m * scale ≤ 2 ^ k * 10 ^ e * scale := Nat.mul_le_mul_right _ h
        _ = 10 ^ e * (2 ^ k * scale) := by ring
    | false => exact Nat.mul_le_mul_right _ h
  one_le_literal := by
    intro m e down h
    refine one_le_units.mpr (Int.ofNat_le.mpr ?_)
    cases down with
    | true =>
      rw [if_pos rfl, Nat.le_div_iff_mul_le (by positivity), mul_comm]
      exact Nat.mul_le_mul_right _ h
    | false =>
      have hpower : 0 < m * 10 ^ e := Nat.mul_pos h (by positivity)
      exact Nat.le_mul_of_pos_left _ hpower
  add := by
    intro j k x y hx hy _
    obtain ⟨a, rfl, ha⟩ := exists_within hx
    obtain ⟨b, rfl, hb⟩ := exists_within hy
    exact within_add (Int.natAbs_add_le a b) ha hb
  sub := by
    intro j k x y hx hy _
    obtain ⟨a, rfl, ha⟩ := exists_within hx
    obtain ⟨b, rfl, hb⟩ := exists_within hy
    exact within_add (Int.natAbs_sub_le a b) ha hb
  mul := by
    intro j k x y hx hy _
    obtain ⟨a, rfl, ha⟩ := exists_within hx
    obtain ⟨b, rfl, hb⟩ := exists_within hy
    refine within_units.mpr ?_
    rw [Int.natAbs_tdiv, Int.natAbs_mul]
    refine Nat.div_le_of_le_mul ?_
    calc a.natAbs * b.natAbs ≤ (2 ^ j * scale) * (2 ^ k * scale) := Nat.mul_le_mul ha hb
      _ = scale * (2 ^ (j + k) * scale) := by rw [pow_add]; ring
  one_le_mul := by
    intro j k x y hx hy
    obtain ⟨a, rfl, ha, -⟩ := exists_sized hx
    obtain ⟨b, rfl, hb, -⟩ := exists_sized hy
    have hquotient : scale ≤ a * b / scale := (Nat.le_div_iff_mul_le scale_pos).mpr (Nat.mul_le_mul ha hb)
    exact one_le_units.mpr (Int.ofNat_le.mpr hquotient)
  div := by
    intro j k x y hx hy
    obtain ⟨a, rfl, ha⟩ := exists_within hx
    obtain ⟨b, rfl, hb, -⟩ := exists_sized hy
    have hne : units (b : Int) ≠ units 0 := by
      have hpos := scale_pos.trans_le hb
      simpa using hpos.ne'
    show Within j (if _ then _ else _)
    rw [if_neg hne]
    refine within_units.mpr (le_trans ?_ ha)
    rw [Int.natAbs_tdiv, Int.natAbs_mul]
    exact Nat.div_le_of_le_mul (mul_comm b a.natAbs ▸ Nat.mul_le_mul_left _ hb)
  sqrt := by
    intro k x hx
    obtain ⟨a, rfl, -, ha⟩ := exists_sized hx
    refine within_ofMagnitude ?_
    rw [Int.natAbs_natCast]
    refine (Nat.sqrt_le_sqrt (m := a * scale) (n := (2 ^ k * scale) ^ 2) ?_).trans_eq (Nat.sqrt_eq' _)
    calc a * scale ≤ (2 ^ k * scale) * (2 ^ k * scale) :=
          Nat.mul_le_mul ha (Nat.le_mul_of_pos_left _ (by positivity))
      _ = (2 ^ k * scale) ^ 2 := (sq _).symm
  cbrt := by
    intro k x hx _
    obtain ⟨a, rfl, ha⟩ := exists_within hx
    refine within_mono (within_ofMagnitude (k := k) (nthRoot_le ?_)) (Nat.le_succ k)
    have hscale : scale ≤ 2 ^ k * scale := Nat.le_mul_of_pos_left _ (by positivity)
    calc a.natAbs * scale ^ 2 ≤ (2 ^ k * scale) * (2 ^ k * scale) ^ 2 :=
          Nat.mul_le_mul ha (Nat.pow_le_pow_left hscale 2)
      _ = (2 ^ k * scale) ^ 3 := by ring
  pow := by
    intro k n _ h
    refine within_mono (within_ofMagnitude (k := k) (nthRoot_le ?_)) (Nat.le_succ k)
    rw [Int.natAbs_mul, Int.natAbs_natCast, Int.natAbs_natCast]
    have hsquare : n ^ 2 ≤ (2 ^ k) ^ 3 :=
      (Nat.pow_le_pow_left h 2).trans (Nat.pow_le_pow_right (by positivity) (by simp))
    calc (n * scale) ^ 2 * scale = n ^ 2 * scale ^ 3 := by ring
      _ ≤ (2 ^ k) ^ 3 * scale ^ 3 := Nat.mul_le_mul_right _ hsquare
      _ = (2 ^ k * scale) ^ 3 := (mul_pow _ _ 3).symm

end FixedPoint
end ClusterDynamics
