import ClusterDynamics.Json.Lexer

/-! From tokens to values. A text holds exactly one value, with nothing behind it. -/

namespace ClusterDynamics
namespace Json

mutual

/-- The value at the head of a list of tokens, with the rest. -/
def parseValue : Nat → List Token → Option (Json × List Token)
  | 0, _ => none
  | fuel + 1, ts =>
    match ts with
    | .null :: rest => some (.null, rest)
    | .bool b :: rest => some (.bool b, rest)
    | .number n :: rest => some (.number n, rest)
    | .string s :: rest => some (.string s, rest)
    | .mark '[' :: .mark ']' :: rest => some (.array [], rest)
    | .mark '[' :: rest => (parseItems fuel rest).map fun r => (.array r.1, r.2)
    | .mark '\x7b' :: .mark '\x7d' :: rest => some (.object [], rest)
    | .mark '\x7b' :: rest => (parseFields fuel rest).map fun r => (.object r.1, r.2)
    | _ => none

/-- At least one item of an array, up to its closing bracket. -/
def parseItems : Nat → List Token → Option (List Json × List Token)
  | 0, _ => none
  | fuel + 1, ts =>
    match parseValue fuel ts with
    | some (v, .mark ']' :: rest) => some ([v], rest)
    | some (v, .mark ',' :: rest) => (parseItems fuel rest).map fun r => (v :: r.1, r.2)
    | _ => none

/-- At least one field of an object, up to its closing brace. -/
def parseFields : Nat → List Token → Option (List (JsonText × Json) × List Token)
  | 0, _ => none
  | fuel + 1, ts =>
    match ts with
    | .string k :: .mark ':' :: rest =>
      match parseValue fuel rest with
      | some (v, .mark '\x7d' :: rest) => some ([(k, v)], rest)
      | some (v, .mark ',' :: rest) => (parseFields fuel rest).map fun r => ((k, v) :: r.1, r.2)
      | _ => none
    | _ => none

end

/-- The value that makes up a list of tokens. A step down needs no more fuel than there are tokens. -/
def ofTokens? (ts : List Token) : Option Json :=
  match parseValue (2 * ts.length + 2) ts with
  | some (v, []) => some v
  | _ => none

/-- The value that a text stands for. -/
def ofString? (s : String) : Option Json := (tokens? s.toList).bind ofTokens?

end Json
end ClusterDynamics
