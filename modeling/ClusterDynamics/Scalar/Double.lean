import ClusterDynamics.Scalar

/-! Double-precision numbers as scalars. Their text is the shortest decimal that rounds back to them,
    and reading a numeral rounds to the nearest double. -/

namespace ClusterDynamics

namespace Double

/-- The number of fractions, which take the low 52 bits; eleven bits of exponent and the sign follow. -/
def fractionSize : Nat := 4503599627370496

/-- Significand and binary exponent of the magnitude of a finite double, with a mark for the
    doubles whose lower neighbour is half as far away as the upper one. -/
def decompose (x : Float) : Nat × Int × Bool :=
  let bits : Nat := x.toBits.toNat
  let fraction : Nat := bits % fractionSize
  let field : Nat := bits / fractionSize % 2048
  if field = 0 then (fraction, -1074, false)
  else (fraction + fractionSize, (field : Int) - 1075, fraction == 0 && 1 < field)

/-- The sign bit, which also tells the two zeros apart. -/
def signBit (x : Float) : Bool := x.toBits.toNat / fractionSize / 2048 == 1

/-- The shortest decimal that rounds to the magnitude of a finite double. -/
def decimal (tie : Decimal.Tie) (x : Float) : Decimal :=
  let (m, q, narrow) := decompose x
  if m = 0 then ⟨0, 0⟩ else Decimal.shortest tie m q narrow

/-- The text of a double, with `finite` writing sign and magnitude. -/
def textWith (tie : Decimal.Tie) (finite : Bool → Decimal → String) (x : Float) : String :=
  if x.isNaN then "NaN"
  else if x.isInf then (if signBit x then "-inf" else "inf")
  else finite (signBit x) (decimal tie x)

/-- The text in messages: positional, and of two equally near decimals the upper one. -/
def plain (x : Float) : String :=
  textWith .up (fun negative d => (if negative then "-" else "") ++ d.positional) x

/-- The text in tables: laid out as in data files. -/
def cell (x : Float) : String :=
  textWith .toEven (fun negative d => (Numeral.ofDecimal negative d).text) x

/-- The numeral in data files: of two equally near decimals the even one. -/
def numeral (x : Float) : Numeral := Numeral.ofDecimal (signBit x) (decimal .toEven x)

/-- The nearest double; numerals past the largest double have none. -/
def ofNumeral? (n : Numeral) : Option Float :=
  let m := n.significand
  let signed (x : Float) : Float := if n.negative then -x else x
  if m = 0 then some (signed 0.0)
  else
    let lead := n.scale + (Numeral.digitsOf m).length
    if 400 < lead then none
    else if lead < -400 then some (signed 0.0)
    else
      let x := Float.ofScientific m (decide (n.scale < 0)) n.scale.natAbs
      if x.isFinite then some (signed x) else none

end Double

instance : Scalar Float where
  zero := 0.0
  one := 1.0
  ofInt := Float.ofInt
  less a b := inferInstanceAs (Decidable (a < b))
  isZero x := x == 0.0
  isFinite := Float.isFinite

instance : Analytic Float where
  pi := 3.141592653589793
  exp := Float.exp
  sqrt := Float.sqrt
  cbrt := Float.cbrt
  pow := Float.pow
  infinity := 1.0 / 0.0
  floor x := x.floor.toInt64.toInt

instance : ScalarText Float where
  plain := Double.plain
  numeral := Double.numeral
  cell := Double.cell
  ofNumeral? := Double.ofNumeral?

end ClusterDynamics
