import ClusterDynamics.Decimal.Numeral

/-! Values of the data format in which parameters and snapshots are stored: null, truth values,
    numerals, texts, arrays and objects with their fields in order. -/

namespace ClusterDynamics

/-- A text of the data format. An escape may spell half of a surrogate pair, which no string holds; such
    a text has no value, but it may still stand where nobody reads it. -/
abbrev JsonText := Option String

/-- A value of the data format. -/
inductive Json
  | null
  | bool (b : Bool)
  | number (n : Numeral)
  | string (s : JsonText)
  | array (items : List Json)
  | object (fields : List (JsonText × Json))
deriving Inhabited

namespace Json

/-- An ordinary string as a value. -/
def text (s : String) : Json := .string (some s)

/-- An integer as a value. -/
def int (n : Int) : Json := .number (.ofInt n)

/-- A natural number as a value. -/
def nat (n : Nat) : Json := .number (.ofInt n)

/-- An object whose field names are ordinary strings. -/
def record (fields : List (String × Json)) : Json :=
  .object (fields.map fun f => (some f.1, f.2))

end Json
end ClusterDynamics
