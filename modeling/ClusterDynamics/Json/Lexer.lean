import ClusterDynamics.Json

/-! From characters to tokens. Between tokens stand blanks, which are spaces, tabs and line ends. Inside
    a text, control characters are written as escapes, and two escapes may spell the halves of one
    character. -/

namespace ClusterDynamics
namespace Json

/-- The words and marks that values are made of. -/
inductive Token
  | mark (c : Char)
  | null
  | bool (b : Bool)
  | number (n : Numeral)
  | string (s : JsonText)
deriving DecidableEq, Repr

/-- A character that may stand between tokens. -/
def isBlank (c : Char) : Bool := c == ' ' || c == '\t' || c == '\n' || c == '\r'

/-! ### Texts -/

/-- A part of a text: a character, or a 16-bit unit given by an escape. -/
inductive TextPart
  | char (c : Char)
  | unit (n : Nat)
deriving DecidableEq, Repr

/-- The value of a hexadecimal digit. -/
def hexValue? (c : Char) : Option Nat :=
  if '0' ≤ c ∧ c ≤ '9' then some (c.toNat - '0'.toNat)
  else if 'a' ≤ c ∧ c ≤ 'f' then some (c.toNat - 'a'.toNat + 10)
  else if 'A' ≤ c ∧ c ≤ 'F' then some (c.toNat - 'A'.toNat + 10)
  else none

/-- The unit that four hexadecimal digits spell. -/
def unitOf? (a b c d : Char) : Option Nat := do
  return ((← hexValue? a) * 16 + (← hexValue? b)) * 256 + (← hexValue? c) * 16 + (← hexValue? d)

/-- The character behind a backslash, other than the one that announces a unit. -/
def escaped? : Char → Option Char
  | '"' => some '"'
  | '\\' => some '\\'
  | '/' => some '/'
  | 'b' => some '\x08'
  | 'f' => some '\x0c'
  | 'n' => some '\n'
  | 'r' => some '\r'
  | 't' => some '\t'
  | _ => none

/-- The parts of a text up to its closing quote, with the rest behind it. -/
def scanText : List Char → Option (List TextPart × List Char)
  | [] => none
  | '"' :: rest => some ([], rest)
  | '\\' :: 'u' :: a :: b :: c :: d :: rest =>
    match unitOf? a b c d, scanText rest with
    | some n, some (parts, rest) => some (.unit n :: parts, rest)
    | _, _ => none
  | '\\' :: c :: rest =>
    match escaped? c, scanText rest with
    | some e, some (parts, rest) => some (.char e :: parts, rest)
    | _, _ => none
  | c :: rest =>
    if c = '\\' || c.toNat < 0x20 then none
    else
      match scanText rest with
      | some (parts, rest) => some (.char c :: parts, rest)
      | none => none

/-- The characters that parts spell; half of a surrogate pair spells none. -/
def spell? : List TextPart → Option (List Char)
  | [] => some []
  | .char c :: rest => (spell? rest).map (c :: ·)
  | .unit n :: rest =>
    if 0xD800 ≤ n ∧ n < 0xDC00 then
      match rest with
      | .unit m :: rest =>
        if 0xDC00 ≤ m ∧ m < 0xE000 then
          (spell? rest).map (Char.ofNat (0x10000 + (n - 0xD800) * 0x400 + (m - 0xDC00)) :: ·)
        else none
      | _ => none
    else if 0xDC00 ≤ n ∧ n < 0xE000 then none
    else (spell? rest).map (Char.ofNat n :: ·)

/-! ### Tokens -/

/-- The token at the head of a text that does not begin with a blank. -/
def scanToken : List Char → Option (Token × List Char)
  | 'n' :: 'u' :: 'l' :: 'l' :: rest => some (.null, rest)
  | 't' :: 'r' :: 'u' :: 'e' :: rest => some (.bool true, rest)
  | 'f' :: 'a' :: 'l' :: 's' :: 'e' :: rest => some (.bool false, rest)
  | '"' :: rest => (scanText rest).map fun t => (.string ((spell? t.1).map String.ofList), t.2)
  | c :: rest =>
    if c ∈ ['[', ']', '\x7b', '\x7d', ':', ','] then some (.mark c, rest)
    else (Numeral.scan (c :: rest)).map fun n => (.number n.1, n.2)
  | [] => none

/-- The tokens of a text; `fuel` bounds their number together with the blanks between them. -/
def scanTokens : Nat → List Char → Option (List Token)
  | _, [] => some []
  | 0, _ => none
  | fuel + 1, c :: rest =>
    if isBlank c then scanTokens fuel rest
    else
      match scanToken (c :: rest) with
      | none => none
      | some (t, rest) => (scanTokens fuel rest).map (t :: ·)

/-- The tokens of a text. Every step takes at least one character. -/
def tokens? (cs : List Char) : Option (List Token) := scanTokens cs.length cs

end Json
end ClusterDynamics
