import ClusterDynamics.Json
import ClusterDynamics.Scalar

/-! Reading typed data out of values. A record may be written as an object, where unknown fields are
    skipped and known ones occur at most once, or as an array of its fields in order, which may end
    early only where the missing fields have defaults. -/

namespace ClusterDynamics
namespace Json

/-! ### Simple values -/

/-- An integer within bounds, written without point and power. -/
def intBetween? (lo hi : Int) : Json → Option Int
  | .number n => do
    let i ← n.toInt?
    if lo ≤ i ∧ i ≤ hi then some i else none
  | _ => none

/-- A 32-bit count. -/
def count? (j : Json) : Option UInt32 := (intBetween? 0 4294967295 j).map fun i => UInt32.ofNat i.toNat

/-- A 64-bit number or size. -/
def size? (j : Json) : Option Nat := (intBetween? 0 18446744073709551615 j).map Int.toNat

/-- A signed 64-bit coordinate. -/
def coordinate? (j : Json) : Option Int := intBetween? (-9223372036854775808) 9223372036854775807 j

/-- A truth value. -/
def bool? : Json → Option Bool
  | .bool b => some b
  | _ => none

/-- A finite scalar. -/
def scalar? {α : Type} [ScalarText α] : Json → Option α
  | .number n => ScalarText.ofNumeral? n
  | _ => none

/-- A scalar that is not finite is written as null. -/
def ofScalar {α : Type} [Scalar α] [ScalarText α] (x : α) : Json :=
  if Scalar.isFinite x then .number (ScalarText.numeral x) else .null

/-- An optional value; null stands for its absence. -/
def option? {β : Type} (read : Json → Option β) : Json → Option (Option β)
  | .null => some none
  | j => (read j).map some

/-- Writes an optional value; null stands for its absence. -/
def ofOption {β : Type} (write : β → Json) : Option β → Json
  | none => .null
  | some x => write x

/-- An array whose items can all be read. -/
def list? {β : Type} (read : Json → Option β) : Json → Option (List β)
  | .array items => items.mapM read
  | _ => none

/-- Writes a list as an array. -/
def ofList {β : Type} (write : β → Json) (xs : List β) : Json := .array (xs.map write)

/-- An array with a fixed number of items. -/
def vector? {β : Type} (n : Nat) (read : Json → Option β) (j : Json) : Option (Vector β n) := do
  let xs ← list? read j
  if h : xs.toArray.size = n then some ⟨xs.toArray, h⟩ else none

/-- A choice among names: the name itself, or an object with the name as its only field. -/
def choice? {β : Type} (named : String → Option β) : Json → Option β
  | .string (some s) => named s
  | .object [(some s, .null)] => named s
  | _ => none

/-! ### Records -/

/-- The known fields of a record that is being read. -/
structure Fields where
  /-- The record is written as an object. -/
  byName : Bool
  values : List (String × Json)

namespace Fields

/-- The known fields of an object; every name must be readable, and known ones must not repeat. -/
def ofObject (names : List String) :
    List (JsonText × Json) → List (String × Json) → Option (List (String × Json))
  | [], found => some found
  | (none, _) :: _, _ => none
  | (some k, v) :: rest, found =>
    if k ∈ names then
      if found.any fun f => f.1 == k then none else ofObject names rest (found ++ [(k, v)])
    else ofObject names rest found

/-- The fields of a record with the given names in order. -/
def of? (names : List String) : Json → Option Fields
  | .object fields => (ofObject names fields []).map (⟨true, ·⟩)
  | .array items => if items.length ≤ names.length then some ⟨false, names.zip items⟩ else none
  | _ => none

/-- The value of a known field. -/
def find? (f : Fields) (name : String) : Option Json :=
  (f.values.find? fun v => v.1 == name).map (·.2)

/-- A field that must be there. -/
def required {β : Type} (f : Fields) (name : String) (read : Json → Option β) : Option β :=
  (f.find? name).bind read

/-- A field that has a default. -/
def withDefault {β : Type} (f : Fields) (name : String) (read : Json → Option β) (d : β) : Option β :=
  match f.find? name with
  | none => some d
  | some j => read j

/-- A field of an optional value, which an object may leave out. -/
def optional {β : Type} (f : Fields) (name : String) (read : Json → Option β) : Option (Option β) :=
  match f.find? name with
  | none => if f.byName then some none else none
  | some j => option? read j

end Fields
end Json
end ClusterDynamics
