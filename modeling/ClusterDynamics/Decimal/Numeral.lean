import ClusterDynamics.Decimal.Layout

/-! Numbers as data files write them: an optional sign, a whole part without superfluous zeros, an
    optional fraction and an optional power of ten. `Numeral.scan` reads the longest numeral at the
    head of a text and `Numeral.text` writes one. -/

namespace ClusterDynamics

/-- A decimal number as written. A numeral without a point has an empty fraction. -/
structure Numeral where
  negative : Bool
  whole : List Char
  fraction : List Char
  /-- Sign and digits of the power of ten. -/
  power : Option (Bool × List Char)
deriving DecidableEq, Repr, Inhabited

namespace Numeral

/-- The value of a run of digits. -/
def digitValue (cs : List Char) : Nat :=
  cs.foldl (fun n c => 10 * n + (c.toNat - '0'.toNat)) 0

/-- The decimal digits of a natural number. -/
def digitsOf (n : Nat) : List Char := (toString n).toList

/-- The numeral of an integer, without point and power. -/
def ofInt (n : Int) : Numeral := ⟨decide (n < 0), digitsOf n.natAbs, [], none⟩

/-- A numeral is an integer when it has neither point nor power. -/
def isInteger (n : Numeral) : Bool := n.fraction.isEmpty && n.power.isNone

/-- The integer a numeral names. A negative zero names none. -/
def toInt? (n : Numeral) : Option Int :=
  if n.isInteger then
    let v := digitValue n.whole
    if n.negative then (if v = 0 then none else some (-(v : Int))) else some v
  else none

/-- All digits before and after the point, as one number. -/
def significand (n : Numeral) : Nat := digitValue (n.whole ++ n.fraction)

/-- The power of ten that the significand is multiplied with. -/
def scale (n : Numeral) : Int :=
  (match n.power with
    | none => 0
    | some (negative, ds) => if negative then -(digitValue ds : Int) else digitValue ds)
    - n.fraction.length

/-- The numeral of a decimal number in the layout of data files. -/
def ofDecimal (negative : Bool) (d : Decimal) : Numeral :=
  let digits := d.digitText.toList
  let lead := d.leading
  if -5 ≤ lead ∧ lead ≤ 15 then
    if 0 ≤ d.exponent then ⟨negative, digits ++ (Decimal.zeros d.exponent.toNat).toList, ['0'], none⟩
    else
      let places := (-d.exponent).toNat
      if places < digits.length then
        ⟨negative, digits.take (digits.length - places), digits.drop (digits.length - places), none⟩
      else ⟨negative, ['0'], (Decimal.zeros (places - digits.length)).toList ++ digits, none⟩
  else ⟨negative, digits.take 1, digits.drop 1, some (decide (lead < 0), digitsOf lead.natAbs)⟩

/-! ### Writing -/

/-- The characters of a numeral, from the sign to the power. -/
def chars (n : Numeral) : List Char :=
  (if n.negative then ['-'] else []) ++ n.whole
    ++ (if n.fraction.isEmpty then [] else '.' :: n.fraction)
    ++ (match n.power with
      | none => []
      | some (negative, ds) => 'e' :: ((if negative then ['-'] else []) ++ ds))

/-- The text of a numeral. -/
def text (n : Numeral) : String := String.ofList n.chars

/-! ### Reading -/

/-- A run of at least one digit. -/
def scanDigits (cs : List Char) : Option (List Char × List Char) :=
  match cs.span Char.isDigit with
  | ([], _) => none
  | (ds, rest) => some (ds, rest)

/-- The whole part: a single zero, or digits that start with another one. -/
def scanWhole : List Char → Option (List Char × List Char)
  | '0' :: rest => some (['0'], rest)
  | cs => scanDigits cs

/-- The fraction; a point without digits is no numeral. -/
def scanFraction : List Char → Option (List Char × List Char)
  | '.' :: rest => scanDigits rest
  | cs => some ([], cs)

/-- The sign and digits behind the exponent mark. -/
def scanSigned : List Char → Option ((Bool × List Char) × List Char)
  | '-' :: rest => (scanDigits rest).map fun (ds, r) => ((true, ds), r)
  | '+' :: rest => (scanDigits rest).map fun (ds, r) => ((false, ds), r)
  | cs => (scanDigits cs).map fun (ds, r) => ((false, ds), r)

/-- Reads a power of ten, if one follows. -/
def scanPower : List Char → Option (Option (Bool × List Char) × List Char)
  | 'e' :: rest => (scanSigned rest).map fun (p, r) => (some p, r)
  | 'E' :: rest => (scanSigned rest).map fun (p, r) => (some p, r)
  | cs => some (none, cs)

/-- Reads a numeral after its sign. -/
def scanUnsigned (negative : Bool) (cs : List Char) : Option (Numeral × List Char) := do
  let (whole, cs) ← scanWhole cs
  let (fraction, cs) ← scanFraction cs
  let (power, cs) ← scanPower cs
  return (⟨negative, whole, fraction, power⟩, cs)

/-- The longest numeral at the head of a text, with the rest. -/
def scan : List Char → Option (Numeral × List Char)
  | '-' :: rest => scanUnsigned true rest
  | cs => scanUnsigned false cs

/-- The numeral that makes up a whole text. -/
def ofString? (s : String) : Option Numeral :=
  match scan s.toList with
  | some (n, []) => some n
  | _ => none

end Numeral
end ClusterDynamics
