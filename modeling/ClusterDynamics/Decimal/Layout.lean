import ClusterDynamics.Decimal.Shortest

/-! Decimal numbers written positionally, as messages show them. -/

namespace ClusterDynamics
namespace Decimal

/-- A run of zeros. -/
def zeros (n : Nat) : String := String.ofList (List.replicate n '0')

/-- Positional form without an exponent; whole numbers carry no point. -/
def positional (d : Decimal) : String :=
  let text := d.digitText
  if 0 ≤ d.exponent then text ++ zeros d.exponent.toNat
  else
    let places := (-d.exponent).toNat
    let digits := text.toList
    if places < digits.length then
      String.ofList (digits.take (digits.length - places)) ++ "."
        ++ String.ofList (digits.drop (digits.length - places))
    else "0." ++ zeros (places - digits.length) ++ text

end Decimal
end ClusterDynamics
