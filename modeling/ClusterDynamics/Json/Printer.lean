import ClusterDynamics.Json

/-! From values to characters. The compact layout has no blanks, the pretty one puts every item and
    field on a line of its own, indented by two spaces per level. -/

namespace ClusterDynamics
namespace Json

/-- Where the blanks of a layout stand. -/
structure Layout where
  /-- The break before an item at a depth, or before the bracket that closes it. -/
  lineBreak : Nat → List Char
  /-- What stands between the name and the value of a field. -/
  colon : List Char
  /-- How a number is written. -/
  numeral : Numeral → List Char

/-- Everything on one line, without blanks. -/
def compactLayout : Layout := ⟨fun _ => [], [':'], Numeral.chars⟩

/-- One item per line, indented by two blanks for each level. -/
def prettyLayout : Layout :=
  ⟨fun depth => '\n' :: List.replicate (2 * depth) ' ', [':', ' '], Numeral.chars⟩

/-! ### Texts -/

/-- A hexadecimal digit, in lower case. -/
def hexDigit (n : Nat) : Char := Nat.digitChar (n % 16)

/-- A character inside a text. Quotes, backslashes and control characters are escaped. -/
def escape (c : Char) : List Char :=
  if c = '"' then ['\\', '"']
  else if c = '\\' then ['\\', '\\']
  else if c = '\n' then ['\\', 'n']
  else if c = '\r' then ['\\', 'r']
  else if c = '\t' then ['\\', 't']
  else if c = '\x08' then ['\\', 'b']
  else if c = '\x0c' then ['\\', 'f']
  else if c.toNat < 0x20 then ['\\', 'u', '0', '0', hexDigit (c.toNat / 16), hexDigit c.toNat]
  else [c]

/-- A text in quotes; one without a value is written empty. -/
def quote (s : JsonText) : List Char :=
  '"' :: ((s.getD "").toList.flatMap escape ++ ['"'])

/-! ### Values -/

mutual

/-- The characters of a value at a depth. -/
def chars (l : Layout) (depth : Nat) : Json → List Char
  | .null => "null".toList
  | .bool true => "true".toList
  | .bool false => "false".toList
  | .number n => l.numeral n
  | .string s => quote s
  | .array [] => ['[', ']']
  | .array (v :: rest) =>
    '[' :: (l.lineBreak (depth + 1) ++ chars l (depth + 1) v ++ itemChars l depth rest)
  | .object [] => ['\x7b', '\x7d']
  | .object ((k, v) :: rest) =>
    '\x7b' :: (l.lineBreak (depth + 1) ++ quote k ++ l.colon ++ chars l (depth + 1) v
      ++ fieldChars l depth rest)

/-- The further items of an array and its closing bracket. -/
def itemChars (l : Layout) (depth : Nat) : List Json → List Char
  | [] => l.lineBreak depth ++ [']']
  | v :: rest =>
    ',' :: (l.lineBreak (depth + 1) ++ chars l (depth + 1) v ++ itemChars l depth rest)

/-- The further fields of an object and its closing brace. -/
def fieldChars (l : Layout) (depth : Nat) : List (JsonText × Json) → List Char
  | [] => l.lineBreak depth ++ ['\x7d']
  | (k, v) :: rest =>
    ',' :: (l.lineBreak (depth + 1) ++ quote k ++ l.colon ++ chars l (depth + 1) v
      ++ fieldChars l depth rest)

end

/-- The text of a value in a layout. -/
def render (l : Layout) (v : Json) : String := String.ofList (chars l 0 v)

/-- The text of a value on one line. -/
def compact (v : Json) : String := v.render compactLayout

/-- The value with a line per item and field. -/
def pretty (v : Json) : String := v.render prettyLayout

end Json
end ClusterDynamics
