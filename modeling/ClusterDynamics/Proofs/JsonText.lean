import ClusterDynamics.Json.Parser
import ClusterDynamics.Json.Printer
import ClusterDynamics.Proofs.Numerals

/-! A written value is read back. The printer writes the tokens of a value one by one, with blanks between
    them only where the layout puts some, and the parser takes exactly these tokens. What holds of the
    members of an array or object is carried over by induction on the value. -/

namespace ClusterDynamics
namespace Json

/-- Numerals have the form that is written, and texts have a value. -/
inductive WellFormed : Json → Prop
  | null : WellFormed .null
  | bool (b : Bool) : WellFormed (.bool b)
  | number {n : Numeral} (h : n.WellFormed) : WellFormed (.number n)
  | string (s : String) : WellFormed (.string (some s))
  | array {items : List Json} (h : ∀ v ∈ items, WellFormed v) : WellFormed (.array items)
  | object {fields : List (JsonText × Json)} (hname : ∀ f ∈ fields, f.1.isSome = true)
      (h : ∀ f ∈ fields, WellFormed f.2) : WellFormed (.object fields)

/-! ### Texts -/

/-- How the reader sees a written character. -/
def partOf (c : Char) : TextPart :=
  if c.toNat < 0x20 ∧ c ≠ '\n' ∧ c ≠ '\r' ∧ c ≠ '\t' ∧ c ≠ '\x08' ∧ c ≠ '\x0c' then .unit c.toNat else .char c

theorem unitOf?_hexDigit : ∀ n < 0x20, unitOf? '0' '0' (hexDigit (n / 16)) (hexDigit n) = some n := by
  decide

/-- An escaped character is read back. -/
theorem scanText_escape (c : Char) {cs : List Char} {parts : List TextPart} {rest : List Char}
    (h : scanText cs = some (parts, rest)) : scanText (escape c ++ cs) = some (partOf c :: parts, rest) := by
  unfold escape
  split_ifs with hquote hslash hn hr ht hb hf hcontrol
  · subst hquote
    simp [scanText, escaped?, h, partOf]
  · subst hslash
    simp [scanText, escaped?, h, partOf]
  · subst hn
    simp [scanText, escaped?, h, partOf]
  · subst hr
    simp [scanText, escaped?, h, partOf]
  · subst ht
    simp [scanText, escaped?, h, partOf]
  · subst hb
    simp [scanText, escaped?, h, partOf]
  · subst hf
    simp [scanText, escaped?, h, partOf]
  · simp [scanText, unitOf?_hexDigit _ hcontrol, h, partOf, hcontrol, hn, hr, ht, hb, hf]
  · -- Any other character stands for itself; the reader's patterns before it begin with a quote or a backslash.
    rw [List.cons_append, List.nil_append, scanText]
    · simp [hslash, hcontrol, h, partOf]
    · simpa using hquote
    · intro a b c d rest hc
      exact absurd hc hslash
    · intro d rest hc
      exact absurd hc hslash

theorem scanText_flatMap (cs rest : List Char) :
    scanText (cs.flatMap escape ++ '"' :: rest) = some (cs.map partOf, rest) := by
  induction cs with
  | nil => simp [scanText]
  | cons c cs ih =>
    rw [List.flatMap_cons, List.append_assoc, List.map_cons]
    exact scanText_escape c ih

theorem spell?_map_partOf (cs : List Char) : spell? (cs.map partOf) = some cs := by
  induction cs with
  | nil => rfl
  | cons c cs ih =>
    rw [List.map_cons, partOf]
    split_ifs with h
    · have hlow : ¬(0xD800 ≤ c.toNat ∧ c.toNat < 0xDC00) := by omega
      have hhigh : ¬(0xDC00 ≤ c.toNat ∧ c.toNat < 0xE000) := by omega
      unfold spell?
      rw [if_neg hlow, if_neg hhigh, ih, Char.ofNat_toNat]
      rfl
    · rw [spell?, ih]
      rfl

theorem scanToken_quote (s : String) (rest : List Char) :
    scanToken (quote (some s) ++ rest) = some (.string (some s), rest) := by
  have hscan := scanText_flatMap s.toList rest
  simp only [quote, Option.getD_some, List.cons_append, List.append_assoc, List.nil_append, scanToken, hscan,
    Option.map_some, spell?_map_partOf, String.ofList_toList]

/-! ### Tokens of a value -/

mutual

/-- The tokens that a value is written with, in every layout. -/
def tokens : Json → List Token
  | .null => [.null]
  | .bool b => [.bool b]
  | .number n => [.number n]
  | .string s => [.string s]
  | .array [] => [.mark '[', .mark ']']
  | .array (v :: rest) => .mark '[' :: (tokens v ++ itemTokens rest)
  | .object [] => [.mark '\x7b', .mark '\x7d']
  | .object ((k, v) :: rest) => .mark '\x7b' :: .string k :: .mark ':' :: (tokens v ++ fieldTokens rest)

/-- The tokens of further items and of the bracket behind them. -/
def itemTokens : List Json → List Token
  | [] => [.mark ']']
  | v :: rest => .mark ',' :: (tokens v ++ itemTokens rest)

/-- The tokens of further fields and of the brace behind them. -/
def fieldTokens : List (JsonText × Json) → List Token
  | [] => [.mark '\x7d']
  | (k, v) :: rest => .mark ',' :: .string k :: .mark ':' :: (tokens v ++ fieldTokens rest)

end

/-! ### From characters to tokens -/

/-- The characters fall into these tokens, whenever there is enough fuel for all of them. -/
def Lexes (cs : List Char) (ts : List Token) : Prop := ∀ fuel, cs.length ≤ fuel → scanTokens fuel cs = some ts

theorem Lexes.nil : Lexes [] [] := by
  intro fuel _
  cases fuel <;> rfl

theorem Lexes.blank {c : Char} {cs : List Char} {ts : List Token} (hc : isBlank c = true) (h : Lexes cs ts) :
    Lexes (c :: cs) ts := by
  intro fuel hfuel
  obtain ⟨fuel, rfl⟩ := Nat.exists_eq_add_of_lt (Nat.lt_of_lt_of_le (Nat.succ_pos _) hfuel)
  rw [List.length_cons] at hfuel
  rw [Nat.zero_add, scanTokens, if_pos hc, h fuel (by omega)]

theorem Lexes.blanks {blanks cs : List Char} {ts : List Token} (hblanks : ∀ c ∈ blanks, isBlank c = true)
    (h : Lexes cs ts) : Lexes (blanks ++ cs) ts := by
  induction blanks with
  | nil => exact h
  | cons c blanks ih =>
    exact .blank (hblanks c List.mem_cons_self) (ih fun d hd => hblanks d (List.mem_cons_of_mem c hd))

/-- A token at the head, of at least one character. -/
theorem Lexes.token {c : Char} (head : List Char) {rest : List Char} {t : Token} {ts : List Token}
    (hc : isBlank c = false) (ht : scanToken (c :: (head ++ rest)) = some (t, rest)) (h : Lexes rest ts) :
    Lexes (c :: (head ++ rest)) (t :: ts) := by
  intro fuel hfuel
  obtain ⟨fuel, rfl⟩ := Nat.exists_eq_add_of_lt (Nat.lt_of_lt_of_le (Nat.succ_pos _) hfuel)
  rw [List.length_cons, List.length_append] at hfuel
  rw [Nat.zero_add, scanTokens, hc, if_neg Bool.false_ne_true, ht]
  simp only [h fuel (by omega), Option.map_some]

theorem Lexes.mark {c : Char} {rest : List Char} {ts : List Token}
    (hc : c ∈ ['[', ']', '\x7b', '\x7d', ':', ',']) (h : Lexes rest ts) : Lexes (c :: rest) (.mark c :: ts) := by
  have hscan : isBlank c = false ∧ scanToken (c :: rest) = some (.mark c, rest) := by
    simp only [List.mem_cons, List.not_mem_nil, or_false] at hc
    rcases hc with rfl | rfl | rfl | rfl | rfl | rfl <;> exact ⟨rfl, rfl⟩
  exact Lexes.token [] hscan.1 hscan.2 h

theorem Lexes.quote {s : String} {rest : List Char} {ts : List Token} (h : Lexes rest ts) :
    Lexes (quote (some s) ++ rest) (.string (some s) :: ts) :=
  Lexes.token _ rfl (scanToken_quote s rest) h

/-- The head of a numeral is a minus sign or a digit. -/
theorem scanToken_numeral {n : Numeral} (hn : n.WellFormed) {rest : List Char} (hrest : Numeral.Ends rest) :
    ∃ c cs, n.chars = c :: cs ∧ isBlank c = false ∧
      scanToken (c :: (cs ++ rest)) = some (.number n, rest) := by
  have hscan := Numeral.scan_chars hn hrest
  obtain ⟨c, cs, hcs, hc⟩ : ∃ c cs, n.chars = c :: cs ∧ (c = '-' ∨ c.isDigit = true) := by
    rw [Numeral.chars_eq]
    cases n.negative with
    | true => exact ⟨_, _, rfl, .inl rfl⟩
    | false =>
      obtain ⟨c, cs, hcs⟩ := List.exists_cons_of_ne_nil hn.whole.ne_nil
      rw [hcs]
      exact ⟨_, _, rfl, .inr (hn.whole.isDigit c (hcs ▸ List.mem_cons_self))⟩
  -- No other kind of token, and no blank, begins with such a character.
  have hother : ∀ d : Char, d ≠ '-' → d.isDigit = false → c ≠ d := by
    rintro d hminus hdigit rfl
    rcases hc with rfl | hc
    · exact hminus rfl
    · rw [hdigit] at hc
      cases hc
  rw [hcs, List.cons_append] at hscan
  refine ⟨c, cs, hcs, ?_, ?_⟩
  · simp [isBlank, hother ' ' (by decide) rfl, hother '\t' (by decide) rfl, hother '\n' (by decide) rfl,
      hother '\r' (by decide) rfl]
  · have hmark : c ∉ ['[', ']', '\x7b', '\x7d', ':', ','] := by
      simp [hother '[' (by decide) rfl, hother ']' (by decide) rfl, hother '\x7b' (by decide) rfl,
        hother '\x7d' (by decide) rfl, hother ':' (by decide) rfl, hother ',' (by decide) rfl]
    rw [scanToken, if_neg hmark, hscan]
    · rfl
    · intro rest h
      exact absurd h (hother 'n' (by decide) rfl)
    · intro rest h
      exact absurd h (hother 't' (by decide) rfl)
    · intro rest h
      exact absurd h (hother 'f' (by decide) rfl)
    · exact hother '"' (by decide) rfl

theorem Lexes.numeral {n : Numeral} (hn : n.WellFormed) {rest : List Char} {ts : List Token}
    (hrest : Numeral.Ends rest) (h : Lexes rest ts) : Lexes (n.chars ++ rest) (.number n :: ts) := by
  obtain ⟨c, cs, hcs, hc, ht⟩ := scanToken_numeral hn hrest
  rw [hcs, List.cons_append]
  exact Lexes.token cs hc ht h

/-! ### Layouts -/

/-- Between tokens stand only blanks, and numerals are written in full. -/
structure Layout.Plain (l : Layout) : Prop where
  lineBreak : ∀ depth, ∀ c ∈ l.lineBreak depth, isBlank c = true
  colon : ∃ blanks : List Char, l.colon = ':' :: blanks ∧ ∀ c ∈ blanks, isBlank c = true
  numeral : l.numeral = Numeral.chars

theorem prettyLayout_plain : prettyLayout.Plain := by
  refine ⟨?_, ⟨[' '], rfl, by simp [isBlank]⟩, rfl⟩
  intro depth c hc
  rcases List.mem_cons.mp hc with rfl | hc
  · rfl
  · rw [(List.mem_replicate.mp hc).2]
    rfl

theorem ends_mark {c : Char} {cs : List Char} (hc : c ∈ [']', '\x7d', ',']) : Numeral.Ends (c :: cs) := by
  intro d rest h
  cases h
  simp only [List.mem_cons, List.not_mem_nil, or_false] at hc
  rcases hc with rfl | rfl | rfl <;> decide

theorem ends_blanks {blanks cs : List Char} (hblanks : ∀ c ∈ blanks, isBlank c = true) (h : Numeral.Ends cs) :
    Numeral.Ends (blanks ++ cs) := by
  cases blanks with
  | nil => exact h
  | cons b blanks =>
    intro c rest he
    cases he
    have hb := hblanks b List.mem_cons_self
    simp only [isBlank, Bool.or_eq_true, beq_iff_eq] at hb
    rcases hb with ((rfl | rfl) | rfl) | rfl <;> decide

section
variable {l : Layout} (hl : l.Plain)
include hl

theorem ends_itemChars (depth : Nat) (items : List Json) (rest : List Char) :
    Numeral.Ends (itemChars l depth items ++ rest) := by
  cases items with
  | nil =>
    rw [itemChars, List.append_assoc]
    exact ends_blanks (hl.lineBreak depth) (ends_mark (by simp))
  | cons v items =>
    rw [itemChars]
    exact ends_mark (by simp)

theorem ends_fieldChars (depth : Nat) (fields : List (JsonText × Json)) (rest : List Char) :
    Numeral.Ends (fieldChars l depth fields ++ rest) := by
  cases fields with
  | nil =>
    rw [fieldChars, List.append_assoc]
    exact ends_blanks (hl.lineBreak depth) (ends_mark (by simp))
  | cons f fields =>
    rw [fieldChars]
    exact ends_mark (by simp)

omit hl in
/-- The characters of the value are its tokens, wherever they stand. -/
def Written (l : Layout) (v : Json) : Prop := ∀ (depth : Nat) (rest : List Char) (ts : List Token),
  Numeral.Ends rest → Lexes rest ts → Lexes (chars l depth v ++ rest) (tokens v ++ ts)

theorem lexes_itemChars {items : List Json} (h : ∀ v ∈ items, Written l v) (depth : Nat) {rest : List Char}
    {ts : List Token} (hrest : Lexes rest ts) :
    Lexes (itemChars l depth items ++ rest) (itemTokens items ++ ts) := by
  induction items with
  | nil =>
    rw [itemChars, itemTokens, List.append_assoc]
    exact .blanks (hl.lineBreak depth) (.mark (by simp) hrest)
  | cons v items ih =>
    have hitems := ih fun w hw => h w (List.mem_cons_of_mem v hw)
    rw [itemChars, itemTokens, List.cons_append, List.cons_append, List.append_assoc, List.append_assoc,
      List.append_assoc]
    refine .mark (by simp) (.blanks (hl.lineBreak _) ?_)
    exact h v List.mem_cons_self _ _ _ (ends_itemChars hl depth items rest) hitems

/-- A name, a colon and a value. -/
theorem lexes_field {k : JsonText} {v : Json} (hk : k.isSome = true) (h : Written l v) (depth : Nat)
    {rest : List Char} {ts : List Token} (hends : Numeral.Ends rest) (hrest : Lexes rest ts) :
    Lexes (quote k ++ (l.colon ++ (chars l depth v ++ rest))) (.string k :: .mark ':' :: (tokens v ++ ts)) := by
  obtain ⟨s, rfl⟩ := Option.isSome_iff_exists.mp hk
  obtain ⟨blanks, hcolon, hblanks⟩ := hl.colon
  rw [hcolon, List.cons_append]
  exact .quote (.mark (by simp) (.blanks hblanks (h _ _ _ hends hrest)))

theorem lexes_fieldChars {fields : List (JsonText × Json)} (hname : ∀ f ∈ fields, f.1.isSome = true)
    (h : ∀ f ∈ fields, Written l f.2) (depth : Nat) {rest : List Char} {ts : List Token}
    (hrest : Lexes rest ts) : Lexes (fieldChars l depth fields ++ rest) (fieldTokens fields ++ ts) := by
  induction fields with
  | nil =>
    rw [fieldChars, fieldTokens, List.append_assoc]
    exact .blanks (hl.lineBreak depth) (.mark (by simp) hrest)
  | cons f fields ih =>
    obtain ⟨k, v⟩ := f
    have hfields := ih (fun g hg => hname g (List.mem_cons_of_mem _ hg)) fun g hg =>
      h g (List.mem_cons_of_mem _ hg)
    simp only [fieldChars, fieldTokens, List.cons_append, List.append_assoc]
    refine .mark (by simp) (.blanks (hl.lineBreak _) ?_)
    exact lexes_field hl (hname _ List.mem_cons_self) (h _ List.mem_cons_self) _
      (ends_fieldChars hl depth fields rest) hfields

/-- Every well-formed value is written as its tokens. -/
theorem written {v : Json} (hv : v.WellFormed) : Written l v := by
  induction hv with
  | null =>
    intro depth rest ts _ hrest
    exact Lexes.token ['u', 'l', 'l'] rfl rfl hrest
  | bool b =>
    intro depth rest ts _ hrest
    cases b with
    | true => exact Lexes.token ['r', 'u', 'e'] rfl rfl hrest
    | false => exact Lexes.token ['a', 'l', 's', 'e'] rfl rfl hrest
  | number hn =>
    intro depth rest ts hends hrest
    rw [chars, tokens, hl.numeral]
    exact .numeral hn hends hrest
  | string s =>
    intro depth rest ts _ hrest
    rw [chars, tokens]
    exact .quote hrest
  | @array items _ ih =>
    intro depth rest ts _ hrest
    cases items with
    | nil =>
      rw [chars, tokens]
      exact .mark (by simp) (.mark (by simp) hrest)
    | cons v items =>
      have hitems := lexes_itemChars hl (fun w hw => ih w (List.mem_cons_of_mem v hw)) depth hrest
      simp only [chars, tokens, List.cons_append, List.append_assoc]
      refine .mark (by simp) (.blanks (hl.lineBreak _) ?_)
      exact ih v List.mem_cons_self _ _ _ (ends_itemChars hl depth items rest) hitems
  | @object fields hname _ ih =>
    intro depth rest ts _ hrest
    cases fields with
    | nil =>
      rw [chars, tokens]
      exact .mark (by simp) (.mark (by simp) hrest)
    | cons f fields =>
      obtain ⟨k, v⟩ := f
      have hfields := lexes_fieldChars hl (fun g hg => hname g (List.mem_cons_of_mem _ hg))
        (fun g hg => ih g (List.mem_cons_of_mem _ hg)) depth hrest
      simp only [chars, tokens, List.cons_append, List.append_assoc]
      refine .mark (by simp) (.blanks (hl.lineBreak _) ?_)
      exact lexes_field hl (hname _ List.mem_cons_self) (ih _ List.mem_cons_self) _
        (ends_fieldChars hl depth fields rest) hfields

theorem tokens?_chars {v : Json} (hv : v.WellFormed) : tokens? (chars l 0 v) = some (tokens v) := by
  have hlex := written hl hv 0 [] [] (fun c rest h => nomatch h) Lexes.nil
  rw [List.append_nil, List.append_nil] at hlex
  exact hlex _ (Nat.le_refl _)

end

/-! ### From tokens to values -/

/-- The tokens of the value are read as the value, with fuel for two steps per token. -/
def Parsed (v : Json) : Prop := ∀ (fuel : Nat) (rest : List Token), 2 * (tokens v).length ≤ fuel →
  parseValue fuel (tokens v ++ rest) = some (v, rest)

/-- A value does not begin with the bracket that closes an array. -/
theorem head_tokens (v : Json) : ∃ t ts, tokens v = t :: ts ∧ t ≠ .mark ']' := by
  unfold tokens
  split <;> exact ⟨_, _, rfl, by simp⟩

theorem exists_fuel {v : Json} {fuel : Nat} (h : 2 * (tokens v).length ≤ fuel) : ∃ k, fuel = k + 1 := by
  obtain ⟨t, ts, ht, -⟩ := head_tokens v
  rw [ht, List.length_cons] at h
  exact ⟨fuel - 1, by omega⟩

theorem parseItems_tokens {items : List Json} : ∀ {v : Json}, Parsed v → (∀ w ∈ items, Parsed w) →
    ∀ (fuel : Nat) (rest : List Token), 2 * ((tokens v).length + (itemTokens items).length) ≤ fuel →
      parseItems fuel (tokens v ++ (itemTokens items ++ rest)) = some (v :: items, rest) := by
  induction items with
  | nil =>
    intro v hv _ fuel rest hfuel
    rw [itemTokens, List.length_singleton] at hfuel
    obtain ⟨fuel, rfl⟩ := Nat.exists_eq_add_of_lt (show 0 < fuel by omega)
    rw [Nat.zero_add, parseItems, itemTokens, hv fuel _ (by omega)]
    rfl
  | cons w items ih =>
    intro v hv hitems fuel rest hfuel
    rw [itemTokens, List.length_cons, List.length_append] at hfuel
    obtain ⟨fuel, rfl⟩ := Nat.exists_eq_add_of_lt (show 0 < fuel by omega)
    have hrest := ih (hitems w List.mem_cons_self) (fun x hx => hitems x (List.mem_cons_of_mem w hx)) fuel rest
      (by omega)
    rw [Nat.zero_add, parseItems, itemTokens, hv fuel _ (by omega)]
    simp only [List.cons_append, List.append_assoc, hrest, Option.map_some]

theorem parseFields_tokens {fields : List (JsonText × Json)} : ∀ {k : JsonText} {v : Json}, Parsed v →
    (∀ f ∈ fields, Parsed f.2) → ∀ (fuel : Nat) (rest : List Token),
      2 * ((tokens v).length + (fieldTokens fields).length) ≤ fuel →
        parseFields fuel (.string k :: .mark ':' :: (tokens v ++ (fieldTokens fields ++ rest))) =
          some ((k, v) :: fields, rest) := by
  induction fields with
  | nil =>
    intro k v hv _ fuel rest hfuel
    rw [fieldTokens, List.length_singleton] at hfuel
    obtain ⟨fuel, rfl⟩ := Nat.exists_eq_add_of_lt (show 0 < fuel by omega)
    rw [Nat.zero_add, parseFields, fieldTokens, hv fuel _ (by omega)]
    rfl
  | cons f fields ih =>
    obtain ⟨k', w⟩ := f
    intro k v hv hfields fuel rest hfuel
    simp only [fieldTokens, List.length_cons, List.length_append] at hfuel
    obtain ⟨fuel, rfl⟩ := Nat.exists_eq_add_of_lt (show 0 < fuel by omega)
    have hrest := ih (k := k') (hfields (k', w) List.mem_cons_self)
      (fun g hg => hfields g (List.mem_cons_of_mem _ hg)) fuel rest (by simp only; omega)
    rw [Nat.zero_add, parseFields, fieldTokens, hv fuel _ (by omega)]
    simp only [List.cons_append, List.append_assoc, hrest, Option.map_some]

theorem parsed {v : Json} (hv : v.WellFormed) : Parsed v := by
  induction hv with
  | null =>
    intro fuel rest hfuel
    obtain ⟨fuel, rfl⟩ := exists_fuel hfuel
    rfl
  | bool b =>
    intro fuel rest hfuel
    obtain ⟨fuel, rfl⟩ := exists_fuel hfuel
    rfl
  | number _ =>
    intro fuel rest hfuel
    obtain ⟨fuel, rfl⟩ := exists_fuel hfuel
    rfl
  | string s =>
    intro fuel rest hfuel
    obtain ⟨fuel, rfl⟩ := exists_fuel hfuel
    rfl
  | @array items _ ih =>
    intro fuel rest hfuel
    cases items with
    | nil =>
      obtain ⟨fuel, rfl⟩ := exists_fuel hfuel
      rfl
    | cons v items =>
      obtain ⟨fuel, rfl⟩ := exists_fuel hfuel
      rw [tokens, List.length_cons, List.length_append] at hfuel
      have hitems := parseItems_tokens (ih v List.mem_cons_self)
        (fun w hw => ih w (List.mem_cons_of_mem v hw)) fuel rest (by omega)
      -- The parser looks for an empty array first.
      obtain ⟨t, ts, ht, hne⟩ := head_tokens v
      rw [tokens, List.cons_append, List.append_assoc]
      rw [ht] at hitems ⊢
      rw [List.cons_append] at hitems ⊢
      rw [parseValue, hitems]
      · rfl
      · intro rest' h
        exact hne (List.cons.inj h).1
  | @object fields _ _ ih =>
    intro fuel rest hfuel
    cases fields with
    | nil =>
      obtain ⟨fuel, rfl⟩ := exists_fuel hfuel
      rfl
    | cons f fields =>
      obtain ⟨k, v⟩ := f
      obtain ⟨fuel, rfl⟩ := exists_fuel hfuel
      simp only [tokens, List.length_cons, List.length_append] at hfuel
      have hfields := parseFields_tokens (k := k) (ih (k, v) List.mem_cons_self)
        (fun g hg => ih g (List.mem_cons_of_mem _ hg)) fuel rest (by simp only; omega)
      simp only [tokens, List.cons_append, List.append_assoc]
      rw [parseValue, hfields]
      · rfl
      · intro rest' h
        cases h

theorem ofTokens?_tokens {v : Json} (hv : v.WellFormed) : ofTokens? (tokens v) = some v := by
  have h := parsed hv (2 * (tokens v).length + 2) [] (by omega)
  rw [List.append_nil] at h
  rw [ofTokens?, h]

/-! ### Texts of values -/

/-- A well-formed value is read back from its text in every layout that adds only blanks. -/
theorem ofString?_render {l : Layout} (hl : l.Plain) {v : Json} (hv : v.WellFormed) :
    ofString? (v.render l) = some v := by
  rw [ofString?, render, String.toList_ofList, tokens?_chars hl hv]
  exact ofTokens?_tokens hv

theorem ofString?_pretty {v : Json} (hv : v.WellFormed) : ofString? v.pretty = some v :=
  ofString?_render prettyLayout_plain hv

end Json
end ClusterDynamics
