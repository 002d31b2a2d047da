import ClusterDynamics.Decimal.Numeral
import Mathlib.Data.List.TakeDrop

/-! Numerals are read back as they were written. What follows a numeral must not look like a part of it:
    then the reader takes the numeral as a whole and leaves the rest. -/

namespace ClusterDynamics
namespace Numeral

/-! ### Runs of digits -/

/-- A run of at least one digit. -/
structure Run (ds : List Char) : Prop where
  ne_nil : ds ≠ []
  isDigit : ∀ c ∈ ds, c.isDigit = true

/-- The text does not begin with a digit. -/
def NoDigit (cs : List Char) : Prop := ∀ c rest, cs = c :: rest → c.isDigit = false

theorem noDigit_cons {c : Char} {cs : List Char} (h : c.isDigit = false) : NoDigit (c :: cs) := by
  intro d rest he
  cases he
  exact h

theorem scanDigits_append {ds rest : List Char} (hds : Run ds) (hrest : NoDigit rest) :
    scanDigits (ds ++ rest) = some (ds, rest) := by
  have htail : rest.takeWhile Char.isDigit = [] ∧ rest.dropWhile Char.isDigit = rest := by
    cases rest with
    | nil => simp
    | cons c rest => simp [hrest c rest rfl]
  have hspan : (ds ++ rest).span Char.isDigit = (ds, rest) := by
    rw [List.span_eq_takeWhile_dropWhile, List.takeWhile_append_of_pos hds.isDigit,
      List.dropWhile_append_of_pos hds.isDigit, htail.1, htail.2, List.append_nil]
  rw [scanDigits, hspan]
  cases ds with
  | nil => exact absurd rfl hds.ne_nil
  | cons c ds => rfl

/-! ### Natural numbers -/

theorem digitsOf_eq (n : Nat) : digitsOf n = Nat.toDigits 10 n := by
  rw [digitsOf, Nat.toString_eq_ofList_toDigits, String.toList_ofList]

theorem run_digitsOf (n : Nat) : Run (digitsOf n) := by
  rw [digitsOf_eq]
  refine ⟨Nat.toDigits_ne_nil, ?_⟩
  intro c hc
  exact Nat.isDigit_of_mem_toDigits (by decide) (by decide) hc

theorem digitValue_digitsOf (n : Nat) : digitValue (digitsOf n) = n := by
  rw [digitsOf_eq]
  exact Nat.ofDigitChars_ten_toDigits

/-- Digits of a positive number do not begin with a zero. -/
theorem head_toDigits {n : Nat} (h : 0 < n) : ∀ rest, Nat.toDigits 10 n ≠ '0' :: rest := by
  induction n using Nat.strongRecOn with
  | ind n ih =>
    intro rest hrest
    by_cases hlt : n < 10
    · rw [Nat.toDigits_of_lt_base hlt] at hrest
      have hdigit : ∀ k < 10, 0 < k → Nat.digitChar k ≠ '0' := by decide
      exact hdigit n hlt h (List.cons.inj hrest).1
    · rw [Nat.toDigits_of_base_le (by decide) (Nat.le_of_not_lt hlt)] at hrest
      obtain ⟨c, cs, hcs⟩ := List.exists_cons_of_ne_nil (Nat.toDigits_ne_nil (b := 10) (n := n / 10))
      rw [hcs, List.cons_append] at hrest
      refine ih (n / 10) (Nat.div_lt_self h (by decide)) (Nat.div_pos (Nat.le_of_not_lt hlt) (by decide)) cs ?_
      rw [hcs, (List.cons.inj hrest).1]

/-! ### Well-formed numerals -/

/-- The parts of the numeral are runs of digits, and the whole part has no superfluous zero. -/
structure WellFormed (n : Numeral) : Prop where
  whole : Run n.whole
  lead : n.whole = ['0'] ∨ ∀ rest, n.whole ≠ '0' :: rest
  fraction : ∀ c ∈ n.fraction, c.isDigit = true
  power : ∀ p, n.power = some p → Run p.2

/-- What follows does not carry the numeral on. -/
def Ends (cs : List Char) : Prop :=
  ∀ c rest, cs = c :: rest → c.isDigit = false ∧ c ≠ '.' ∧ c ≠ 'e' ∧ c ≠ 'E'

theorem Ends.noDigit {cs : List Char} (h : Ends cs) : NoDigit cs := fun c rest he => (h c rest he).1

theorem scanWhole_append {ds rest : List Char} (hds : Run ds) (hlead : ds = ['0'] ∨ ∀ cs, ds ≠ '0' :: cs)
    (hrest : NoDigit rest) : scanWhole (ds ++ rest) = some (ds, rest) := by
  rcases hlead with rfl | hlead
  · rfl
  · obtain ⟨c, cs, rfl⟩ := List.exists_cons_of_ne_nil hds.ne_nil
    have hc : c ≠ '0' := by
      rintro rfl
      exact hlead cs rfl
    rw [← scanDigits_append hds hrest, List.cons_append, scanWhole]
    simpa using hc

theorem scanSigned_append (negative : Bool) {ds rest : List Char} (hds : Run ds) (hrest : NoDigit rest) :
    scanSigned ((if negative then ['-'] else []) ++ ds ++ rest) = some ((negative, ds), rest) := by
  have hscan := scanDigits_append hds hrest
  cases negative with
  | true => simp [scanSigned, hscan]
  | false =>
    obtain ⟨c, cs, rfl⟩ := List.exists_cons_of_ne_nil hds.ne_nil
    have hc := hds.isDigit c List.mem_cons_self
    have hminus : c ≠ '-' := by
      rintro rfl
      exact absurd hc (by decide)
    have hplus : c ≠ '+' := by
      rintro rfl
      exact absurd hc (by decide)
    simp only [Bool.false_eq_true, if_false, List.nil_append]
    rw [List.cons_append] at hscan ⊢
    rw [scanSigned, hscan]
    · rfl
    · simpa using hminus
    · simpa using hplus

/-- The characters of the fraction, with its point. -/
def fractionChars (n : Numeral) : List Char := if n.fraction.isEmpty then [] else '.' :: n.fraction

/-- The characters of the power of ten, with its mark. -/
def powerChars (n : Numeral) : List Char :=
  match n.power with
  | none => []
  | some (negative, ds) => 'e' :: ((if negative then ['-'] else []) ++ ds)

theorem chars_eq (n : Numeral) :
    n.chars = (if n.negative then ['-'] else []) ++ n.whole ++ n.fractionChars ++ n.powerChars := rfl

variable {n : Numeral} (hn : n.WellFormed) {rest : List Char} (hrest : Ends rest)
include hn hrest

theorem scanPower_append : scanPower (n.powerChars ++ rest) = some (n.power, rest) := by
  unfold powerChars
  cases hp : n.power with
  | none =>
    cases rest with
    | nil => rfl
    | cons c rest =>
      obtain ⟨-, -, he, hE⟩ := hrest c rest rfl
      simp only [List.nil_append]
      rw [scanPower]
      · simpa using he
      · simpa using hE
  | some p =>
    obtain ⟨negative, ds⟩ := p
    have hscan := scanSigned_append negative (hn.power _ hp) hrest.noDigit
    simp only [List.cons_append, scanPower, hscan, Option.map_some]

omit hn in
theorem ends_power : Ends (n.powerChars ++ rest) ∨ ∃ cs, n.powerChars ++ rest = 'e' :: cs := by
  unfold powerChars
  cases n.power with
  | none => exact .inl hrest
  | some p => exact .inr ⟨_, rfl⟩

theorem scanFraction_append :
    scanFraction (n.fractionChars ++ (n.powerChars ++ rest)) = some (n.fraction, n.powerChars ++ rest) := by
  have hpower : NoDigit (n.powerChars ++ rest) ∧ ∀ cs, n.powerChars ++ rest ≠ '.' :: cs := by
    rcases ends_power hrest with h | ⟨cs, h⟩
    · exact ⟨h.noDigit, fun cs he => (h _ _ he).2.1 rfl⟩
    · rw [h]
      exact ⟨noDigit_cons (by decide), fun cs he => by cases he⟩
  unfold fractionChars
  cases hf : n.fraction with
  | nil =>
    simp only [List.isEmpty_nil, if_true, List.nil_append]
    cases hcs : n.powerChars ++ rest with
    | nil => rfl
    | cons c cs =>
      rw [scanFraction]
      rintro cs' he
      exact hpower.2 cs' (hcs.trans he)
  | cons c ds =>
    have hrun : Run (c :: ds) := ⟨by simp, hf ▸ hn.fraction⟩
    simp only [List.isEmpty_cons, Bool.false_eq_true, if_false, List.cons_append, scanFraction]
    exact scanDigits_append hrun hpower.1

omit hn in
theorem noDigit_fraction : NoDigit (n.fractionChars ++ (n.powerChars ++ rest)) := by
  unfold fractionChars
  cases n.fraction with
  | nil =>
    rcases ends_power hrest with h | ⟨cs, h⟩
    · exact h.noDigit
    · simp only [List.isEmpty_nil, if_true, List.nil_append, h]
      exact noDigit_cons (by decide)
  | cons c ds => exact noDigit_cons (by decide)

theorem scanUnsigned_append (negative : Bool) :
    scanUnsigned negative (n.whole ++ (n.fractionChars ++ (n.powerChars ++ rest))) =
      some ({ n with negative := negative }, rest) := by
  unfold scanUnsigned
  rw [scanWhole_append hn.whole hn.lead (noDigit_fraction hrest)]
  simp only [Option.bind_eq_bind, Option.bind_some, scanFraction_append hn hrest, scanPower_append hn hrest]
  rfl

omit hn hrest in
theorem scan_cons {c : Char} (hc : c ≠ '-') (cs : List Char) : scan (c :: cs) = scanUnsigned false (c :: cs) := by
  rw [scan]
  simpa using hc

/-- A well-formed numeral is read back, and what follows it is left. -/
theorem scan_chars : scan (n.chars ++ rest) = some (n, rest) := by
  have hscan := scanUnsigned_append hn hrest n.negative
  rw [chars_eq, List.append_assoc, List.append_assoc, List.append_assoc]
  cases hneg : n.negative with
  | true =>
    rw [hneg] at hscan
    simp only [if_true, List.cons_append, List.nil_append, scan, hscan]
    rw [← hneg]
  | false =>
    rw [hneg] at hscan
    obtain ⟨c, cs, hcs⟩ := List.exists_cons_of_ne_nil hn.whole.ne_nil
    have hc : c ≠ '-' := by
      rintro rfl
      exact absurd (hn.whole.isDigit '-' (hcs ▸ List.mem_cons_self)) (by decide)
    have hhead : scan (n.whole ++ (n.fractionChars ++ (n.powerChars ++ rest))) =
        scanUnsigned false (n.whole ++ (n.fractionChars ++ (n.powerChars ++ rest))) := by
      rw [hcs, List.cons_append]
      exact scan_cons hc _
    simp only [Bool.false_eq_true, if_false, List.nil_append]
    rw [hhead, hscan, ← hneg]

omit hn hrest

/-! ### Integers -/

theorem wellFormed_ofInt (i : Int) : (ofInt i).WellFormed := by
  refine ⟨run_digitsOf _, ?_, by simp [ofInt], by simp [ofInt]⟩
  show digitsOf i.natAbs = ['0'] ∨ ∀ rest, digitsOf i.natAbs ≠ '0' :: rest
  rw [digitsOf_eq]
  rcases Nat.eq_zero_or_pos i.natAbs with h | h
  · exact .inl (by rw [h]; rfl)
  · exact .inr (head_toDigits h)

theorem toInt?_ofInt (i : Int) : (ofInt i).toInt? = some i := by
  have hinteger : (ofInt i).isInteger = true := rfl
  rw [toInt?, hinteger, if_pos rfl]
  simp only [ofInt, digitValue_digitsOf, decide_eq_true_eq]
  split_ifs with hneg hzero
  · omega
  · congr 1
    omega
  · congr 1
    omega

end Numeral
end ClusterDynamics
