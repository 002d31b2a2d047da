/-! The fewest decimal digits that name a binary number. A binary number `m * 2 ^ q` stands for an
    interval of reals, the ones that round to it, and its text is the shortest decimal in that
    interval, the nearest one among equally short ones. Two of them can be equally near; which one is
    taken is up to the writer of the text. All arithmetic is exact. -/

namespace ClusterDynamics

/-- The number `digits * 10 ^ exponent`. -/
structure Decimal where
  digits : Nat
  exponent : Int
deriving DecidableEq, Repr, Inhabited

namespace Decimal

/-- Where a number goes that lies half-way between two neighbours. -/
inductive Tie
  | toEven
  | up
deriving DecidableEq, Repr

/-- Whether a tie between `below` and `below + 1` goes to the upper one. -/
def Tie.goesUp : Tie → Nat → Bool
  | .toEven, below => below % 2 == 1
  | .up, _ => true

/-- The fraction `num / den`. -/
structure Ratio where
  num : Nat
  den : Nat
deriving DecidableEq, Repr

namespace Ratio

/-- The fraction `m * b ^ e`. -/
def scaled (m b : Nat) (e : Int) : Ratio :=
  if 0 ≤ e then ⟨m * Nat.pow b e.toNat, 1⟩ else ⟨m, Nat.pow b (-e).toNat⟩

/-- Comparison of two fractions by cross-multiplication. -/
def lt (x y : Ratio) : Bool := decide (x.num * y.den < y.num * x.den)

/-- Comparison of two fractions that may be equal. -/
def le (x y : Ratio) : Bool := decide (x.num * y.den ≤ y.num * x.den)

/-- The fraction divided by `10 ^ k`. -/
def shift (x : Ratio) (k : Int) : Ratio :=
  if 0 ≤ k then ⟨x.num, x.den * Nat.pow 10 k.toNat⟩ else ⟨x.num * Nat.pow 10 (-k).toNat, x.den⟩

/-- The natural number nearest to a fraction. -/
def nearest (x : Ratio) (tie : Tie) : Nat :=
  let below := x.num / x.den
  let twice := 2 * (x.num % x.den)
  if x.den < twice || (twice == x.den && tie.goesUp below) then below + 1 else below

/-- The exponent `e` with `10 ^ e ≤ x < 10 ^ (e + 1)`, for a positive fraction. -/
def decade (x : Ratio) : Int :=
  let guess := ((Nat.log2 x.num : Int) - (Nat.log2 x.den : Int)) * 30103 / 100000 - 1
  let reaches (e : Int) : Bool := (Ratio.scaled 1 10 e).le x
  if reaches (guess + 2) then guess + 2
  else if reaches (guess + 1) then guess + 1
  else if reaches guess then guess
  else guess - 1

end Ratio

/-- Digits with the trailing zeros moved into the exponent; `fuel` bounds their number. -/
def trimZeros : Nat → Nat → Int → Decimal
  | 0, n, e => ⟨n, e⟩
  | fuel + 1, n, e => if n ≠ 0 ∧ n % 10 = 0 then trimZeros fuel (n / 10) (e + 1) else ⟨n, e⟩

/-- The reals that round to a binary number, with a mark that says if the ends belong to them. -/
structure Interval where
  low : Ratio
  high : Ratio
  closed : Bool

namespace Interval

/-- A fraction lies in the interval, its ends included where they belong to it. -/
def contains (i : Interval) (x : Ratio) : Bool :=
  if i.closed then i.low.le x && x.le i.high else i.low.lt x && x.lt i.high

/-- The interval of `m * 2 ^ q`. Below a power of two the neighbour is half as far away. -/
def around (m : Nat) (q : Int) (narrow : Bool) : Interval :=
  { low := if narrow then Ratio.scaled (4 * m - 1) 2 (q - 2) else Ratio.scaled (2 * m - 1) 2 (q - 1)
    high := Ratio.scaled (2 * m + 1) 2 (q - 1)
    closed := m % 2 == 0 }

end Interval

/-- The point of the grid `10 ^ k` inside the interval that lies nearest to `x`. -/
def onGrid? (tie : Tie) (i : Interval) (x : Ratio) (k : Int) : Option Nat :=
  let s := x.shift k
  let below := s.num / s.den
  let lowIn := i.contains (Ratio.scaled below 10 k)
  let highIn := i.contains (Ratio.scaled (below + 1) 10 k)
  if lowIn && highIn then some (s.nearest tie)
  else if lowIn then some below
  else if highIn then some (below + 1)
  else none

/-- The first grid with a point in the interval, from `10 ^ k` downwards. -/
def firstGrid (tie : Tie) (i : Interval) (x : Ratio) : Nat → Int → Decimal
  | 0, k => ⟨(x.shift k).num / (x.shift k).den, k⟩
  | fuel + 1, k =>
    match onGrid? tie i x k with
    | some n => trimZeros 20 n k
    | none => firstGrid tie i x fuel (k - 1)

/-- The shortest decimal that rounds to `m * 2 ^ q`, for `m ≠ 0`. -/
def shortest (tie : Tie) (m : Nat) (q : Int) (narrow : Bool) : Decimal :=
  let x := Ratio.scaled m 2 q
  firstGrid tie (Interval.around m q narrow) x 17 x.decade

/-- The decimal digits of the significand, first digit first. -/
def digitText (d : Decimal) : String := toString d.digits

/-- The exponent of the leading digit. -/
def leading (d : Decimal) : Int := d.exponent + d.digitText.length - 1

end Decimal
end ClusterDynamics
