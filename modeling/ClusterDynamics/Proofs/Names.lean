import ClusterDynamics.ClusterTable
import ClusterDynamics.Proofs.Lookup
import ClusterDynamics.Proofs.Numerals

/-! Names are unique keys. Each part of a name can be told from what follows it: a number ends where its digits
    end, a symbol at the underscore, the bounds of an axis at a comma or a bracket. So a name is taken apart from
    left to right, and what it was made of is found again: the counts of a composition, the corners of a region,
    the cells of a row. In a network single clusters have different compositions, groups have different regions,
    and no composition is written with the letter that groups begin with. -/

namespace ClusterDynamics

/-! ### Told apart from what follows -/

/-- The written form of a value can be told from any text that may follow it. -/
def Separable {β : Type} (chars : β → List Char) (Follows : List Char → Prop) : Prop :=
  ∀ x y t u, Follows t → Follows u → chars x ++ t = chars y ++ u → x = y ∧ t = u

theorem Separable.flatMap {β : Type} {chars : β → List Char} {Follows : List Char → Prop}
    (h : Separable chars Follows) (hne : ∀ x, chars x ≠ []) (hnil : Follows [])
    (hchars : ∀ x t, Follows (chars x ++ t)) :
    ∀ l l' : List β, l.flatMap chars = l'.flatMap chars → l = l'
  | [], [], _ => rfl
  | [], y :: l', he => absurd (List.append_eq_nil_iff.mp he.symm).1 (hne y)
  | x :: l, [], he => absurd (List.append_eq_nil_iff.mp he).1 (hne x)
  | x :: l, y :: l', he => by
    have hfollows : ∀ l : List β, Follows (l.flatMap chars) := fun l => by
      cases l with
      | nil => exact hnil
      | cons z l => exact hchars z _
    obtain ⟨rfl, hrest⟩ := h x y _ _ (hfollows l) (hfollows l') he
    rw [Separable.flatMap h hne hnil hchars l l' hrest]

/-- Lists of one length are found again from their parts with commas between them. -/
theorem Separable.intercalate {β : Type} {chars : β → List Char} {Follows : List Char → Prop}
    (h : Separable chars Follows) (hcomma : ∀ t, Follows (',' :: t)) {last : List Char} (hlast : Follows last) :
    ∀ l l' : List β, l.length = l'.length →
      [','].intercalate (l.map chars) ++ last = [','].intercalate (l'.map chars) ++ last → l = l'
  | [], [], _, _ => rfl
  | [x], [y], _, he => by
    obtain ⟨rfl, -⟩ := h x y last last hlast hlast (by simpa using he)
    rfl
  | x :: x' :: l, y :: y' :: l', hlen, he => by
    simp only [List.map_cons, List.intercalate_cons_cons, List.append_assoc] at he
    obtain ⟨rfl, hrest⟩ := h x y _ _ (hcomma _) (hcomma _) he
    have htail := Separable.intercalate h hcomma hlast (x' :: l) (y' :: l') (Nat.succ.inj hlen)
      (List.cons.inj hrest).2
    rw [htail]

namespace Numeral

theorem separable_digitsOf : Separable digitsOf NoDigit := by
  intro m n t u ht hu he
  have hscan := scanDigits_append (run_digitsOf m) ht
  rw [he, scanDigits_append (run_digitsOf n) hu] at hscan
  obtain ⟨hdigits, hrest⟩ := Prod.mk.inj (Option.some.inj hscan)
  refine ⟨?_, hrest.symm⟩
  rw [← digitValue_digitsOf m, ← hdigits, digitValue_digitsOf]

theorem digitsOf_ne_cons {c : Char} (hc : c.isDigit = false) (n : Nat) (t u : List Char) :
    digitsOf n ++ t ≠ c :: u := by
  obtain ⟨d, ds, hds⟩ := List.exists_cons_of_ne_nil (run_digitsOf n).ne_nil
  rw [hds, List.cons_append]
  intro he
  have hdigit := (run_digitsOf n).isDigit d (hds ▸ List.mem_cons_self)
  rw [(List.cons.inj he).1, hc] at hdigit
  cases hdigit

theorem toList_toString (i : Int) :
    (toString i).toList = (if i < 0 then ['-'] else []) ++ digitsOf i.natAbs := by
  cases i with
  | ofNat n => rfl
  | negSucc n =>
    rw [if_pos (Int.negSucc_lt_zero n)]
    exact String.toList_append

theorem separable_toString : Separable (fun i : Int => (toString i).toList) NoDigit := by
  intro i j t u ht hu he
  simp only [toList_toString] at he
  by_cases hi : i < 0 <;> by_cases hj : j < 0
  · rw [if_pos hi, if_pos hj] at he
    obtain ⟨habs, hrest⟩ := separable_digitsOf _ _ _ _ ht hu (List.cons.inj he).2
    exact ⟨by omega, hrest⟩
  · rw [if_pos hi, if_neg hj] at he
    exact absurd he.symm (digitsOf_ne_cons (by decide) _ _ _)
  · rw [if_neg hi, if_pos hj] at he
    exact absurd he (digitsOf_ne_cons (by decide) _ _ _)
  · rw [if_neg hi, if_neg hj] at he
    obtain ⟨habs, hrest⟩ := separable_digitsOf _ _ _ _ ht hu he
    exact ⟨by omega, hrest⟩

end Numeral

/-! ### Regions -/

namespace Region

/-- The text of one axis with the given corners: the lower one, and the last value unless it is the same. -/
def rangeChars (bounds : Int × Int) : List Char :=
  (toString bounds.1).toList ++
    if bounds.2 - bounds.1 = 1 then [] else '.' :: '.' :: (toString (bounds.2 - 1)).toList

/-- What follows an axis carries on neither a number nor a range. -/
def EndsAxis (cs : List Char) : Prop := ∀ c rest, cs = c :: rest → c.isDigit = false ∧ c ≠ '.'

theorem endsAxis_cons {c : Char} (hc : c.isDigit = false) (hdot : c ≠ '.') (cs : List Char) :
    EndsAxis (c :: cs) := fun d rest he => by
  cases he
  exact ⟨hc, hdot⟩

theorem separable_rangeChars : Separable rangeChars EndsAxis := by
  intro ⟨lo, hi⟩ ⟨lo', hi'⟩ t u ht hu he
  have hnumber : ∀ {t}, EndsAxis t → Numeral.NoDigit t := fun ht c rest h => (ht c rest h).1
  have htail : ∀ {t}, EndsAxis t → ∀ lo hi : Int, Numeral.NoDigit
      ((if hi - lo = 1 then [] else '.' :: '.' :: (toString (hi - 1)).toList) ++ t) := by
    intro t ht lo hi
    split_ifs
    · exact hnumber ht
    · exact Numeral.noDigit_cons (by decide)
  unfold rangeChars at he
  rw [List.append_assoc, List.append_assoc] at he
  obtain ⟨rfl, hrest⟩ := Numeral.separable_toString lo lo' _ _ (htail ht lo hi) (htail hu lo' hi') he
  split_ifs at hrest with h h'
  · exact ⟨Prod.ext rfl (by dsimp only; omega), hrest⟩
  · exact absurd rfl (ht _ _ hrest).2
  · exact absurd rfl (hu _ _ hrest.symm).2
  · obtain ⟨hlast, hrest⟩ := Numeral.separable_toString (hi - 1) (hi' - 1) t u (hnumber ht) (hnumber hu)
      (List.cons.inj (List.cons.inj hrest).2).2
    exact ⟨Prod.ext rfl (by dsimp only; omega), hrest⟩

theorem toList_axisText (r : Region) (a : Direction) :
    (r.axisText a).toList = rangeChars (r.lo.get a, r.hi.get a) := by
  show (if r.hi.get a - r.lo.get a = 1 then _ else _ : String).toList = _
  unfold rangeChars
  split_ifs
  · exact (List.append_nil _).symm
  · rw [String.toList_append, String.toList_append, List.append_assoc]
    rfl

theorem toList_text (r : Region) : r.text.toList =
    '[' :: ([','].intercalate ((directions.map fun a => (r.lo.get a, r.hi.get a)).map rangeChars) ++ [']']) := by
  rw [text, String.toList_append, String.toList_append, String.toList_intercalate, List.map_map, List.map_map]
  have hparts : (String.toList ∘ r.axisText) = rangeChars ∘ fun a => (r.lo.get a, r.hi.get a) :=
    funext fun a => r.toList_axisText a
  rw [hparts]
  rfl

/-- Regions with one text are one region. -/
theorem text_injective : Function.Injective text := by
  intro r s h
  have hchars := String.toList_inj.mpr h
  rw [toList_text, toList_text] at hchars
  have hcomma : ∀ t, EndsAxis (',' :: t) := endsAxis_cons (by decide) (by decide)
  have hbracket : EndsAxis [']'] := endsAxis_cons (by decide) (by decide) []
  have hcorners := separable_rangeChars.intercalate hcomma hbracket
    (directions.map fun a => (r.lo.get a, r.hi.get a)) (directions.map fun a => (s.lo.get a, s.hi.get a)) rfl
    (List.cons.inj hchars).2
  have haxis : ∀ a, (r.lo.get a, r.hi.get a) = (s.lo.get a, s.hi.get a) := fun a =>
    List.map_inj_left.mp hcorners a (mem_directions a)
  exact congrArg₂ mk (Point.ext_get fun a => (Prod.mk.inj (haxis a)).1)
    (Point.ext_get fun a => (Prod.mk.inj (haxis a)).2)

end Region

/-! ### Compositions -/

namespace Composition

/-- The text of one species with its count. -/
def blockChars (e : Species × UInt32) : List Char :=
  e.1.symbol.toList ++ '_' :: Numeral.digitsOf e.2.toNat

theorem separable_symbol :
    Separable (fun s : Species => s.symbol.toList) fun cs => ∃ rest, cs = '_' :: rest := by
  rintro s s' t u ⟨t, rfl⟩ ⟨u, rfl⟩ he
  cases s <;> cases s' <;> simp_all [Species.symbol]

theorem separable_blockChars : Separable blockChars Numeral.NoDigit := by
  intro ⟨s, m⟩ ⟨s', n⟩ t u ht hu he
  simp only [blockChars, List.append_assoc, List.cons_append] at he
  obtain ⟨rfl, hrest⟩ := separable_symbol s s' _ _ ⟨_, rfl⟩ ⟨_, rfl⟩ he
  obtain ⟨hcount, hrest⟩ := Numeral.separable_digitsOf _ _ t u ht hu (List.cons.inj hrest).2
  exact ⟨by rw [UInt32.toNat_inj.mp hcount], hrest⟩

/-- A block begins with a letter, which is none that a group begins with. -/
theorem exists_blockChars (e : Species × UInt32) :
    ∃ c rest, blockChars e = c :: rest ∧ c.isDigit = false ∧ c ≠ 'S' := by
  have hsymbol : ∃ c rest, e.1.symbol.toList = c :: rest ∧ c.isDigit = false ∧ c ≠ 'S' := by
    cases e.1 with
    | helium => exact ⟨'H', ['e'], by decide, by decide, by decide⟩
    | xenon => exact ⟨'X', ['e'], by decide, by decide, by decide⟩
    | vacancy => exact ⟨'V', [], by decide, by decide, by decide⟩
    | interstitial => exact ⟨'I', [], by decide, by decide, by decide⟩
  obtain ⟨c, rest, hchars, hc⟩ := hsymbol
  exact ⟨c, _, by rw [blockChars, hchars, List.cons_append], hc⟩

theorem mem_entries {c : Composition} {s : Species} {n : UInt32} :
    (s, n) ∈ c.entries ↔ c.get s = n ∧ 0 < n := by
  rw [entries, List.mem_filter, List.mem_map, decide_eq_true_eq]
  refine and_congr_left fun _ => ⟨?_, fun h => ⟨s, s.mem_all, by rw [h]⟩⟩
  rintro ⟨t, -, he⟩
  obtain ⟨rfl, hn⟩ := Prod.mk.inj he
  exact hn

theorem entries_injective : Function.Injective entries := by
  intro c d h
  have hpositive : ∀ {c d : Composition}, c.entries = d.entries → ∀ s, 0 < c.get s → d.get s = c.get s :=
    fun h s hs => (mem_entries.mp (h ▸ mem_entries.mpr ⟨rfl, hs⟩)).1
  refine ext_get fun s => ?_
  by_cases hc : 0 < c.get s
  · exact (hpositive h s hc).symm
  · by_cases hd : 0 < d.get s
    · exact hpositive h.symm s hd
    · rw [UInt32.not_lt] at hc hd
      exact (UInt32.le_zero_iff.mp hc).trans (UInt32.le_zero_iff.mp hd).symm

theorem toList_text (c : Composition) :
    c.text.toList = if c.isEmpty then ['0'] else c.entries.flatMap blockChars := by
  unfold text
  split_ifs
  · rfl
  · rw [String.toList_join, List.flatMap_map]
    refine List.flatMap_congr fun e _ => ?_
    rw [String.toList_append, String.toList_append, List.append_assoc]
    rfl

theorem entries_of_isEmpty {c : Composition} (h : c.isEmpty = true) : c.entries = [] := by
  rw [isEmpty, beq_iff_eq, total] at h
  refine List.eq_nil_iff_forall_not_mem.mpr fun ⟨s, n⟩ hs => ?_
  obtain ⟨rfl, hpos⟩ := mem_entries.mp hs
  rw [UInt32.lt_iff_toNat_lt, UInt32.toNat_zero] at hpos
  cases s <;> simp only [get] at hpos <;> omega

theorem flatMap_blockChars_ne_zero (l : List (Species × UInt32)) : l.flatMap blockChars ≠ ['0'] := by
  cases l with
  | nil => exact (List.cons_ne_nil _ _).symm
  | cons e l =>
    obtain ⟨c, rest, hchars, hdigit, -⟩ := exists_blockChars e
    rw [List.flatMap_cons, hchars, List.cons_append]
    intro he
    rw [(List.cons.inj he).1] at hdigit
    exact absurd hdigit (by decide)

theorem flatMap_blockChars_injective {l l' : List (Species × UInt32)}
    (h : l.flatMap blockChars = l'.flatMap blockChars) : l = l' := by
  refine separable_blockChars.flatMap (fun e => ?_) (fun _ _ h => nomatch h) (fun e t => ?_) l l' h
  · obtain ⟨c, rest, hchars, -⟩ := exists_blockChars e
    rw [hchars]
    exact List.cons_ne_nil _ _
  · obtain ⟨c, rest, hchars, hdigit, -⟩ := exists_blockChars e
    rw [hchars, List.cons_append]
    exact Numeral.noDigit_cons hdigit

/-- Compositions with one text are one composition. -/
theorem text_injective : Function.Injective text := by
  intro c d h
  have hchars := String.toList_inj.mpr h
  rw [toList_text, toList_text] at hchars
  apply entries_injective
  split_ifs at hchars with hc hd hd
  · rw [entries_of_isEmpty hc, entries_of_isEmpty hd]
  · exact absurd hchars.symm (flatMap_blockChars_ne_zero _)
  · exact absurd hchars (flatMap_blockChars_ne_zero _)
  · exact flatMap_blockChars_injective hchars

/-- No composition is written with the letter that groups begin with. -/
theorem toList_text_ne_cons (c : Composition) (rest : List Char) : c.text.toList ≠ 'S' :: rest := by
  rw [toList_text]
  split_ifs
  · exact fun he => absurd (List.cons.inj he).1 (by decide)
  · cases c.entries with
    | nil => exact (List.cons_ne_nil _ _).symm
    | cons e l =>
      obtain ⟨d, tail, hchars, -, hne⟩ := exists_blockChars e
      rw [List.flatMap_cons, hchars, List.cons_append]
      exact fun he => hne (List.cons.inj he).1

end Composition

/-! ### Rows of the table -/

namespace ClusterTable

/-- The characters for which a cell is put in quotes. -/
def special (c : Char) : Bool := c == ',' || c == '"' || c == '\n' || c == '\r'

/-- Every quote twice. -/
def doubled (cs : List Char) : List Char := cs.flatMap fun c => if c = '"' then ['"', '"'] else [c]

/-- A cell is followed by the next one or by the end of the row. -/
def EndsCell (cs : List Char) : Prop := ∃ c rest, cs = c :: rest ∧ (c = ',' ∨ c = '\n')

theorem toList_cell (s : String) : (cell s).toList =
    if s.toList.any special then '"' :: (doubled s.toList ++ ['"']) else s.toList := by
  show (if s.toList.any special then _ else s).toList = _
  split_ifs
  · rw [String.toList_append, String.toList_append, List.append_assoc]
    show '"' :: ((String.ofList (doubled s.toList)).toList ++ ['"']) = _
    rw [String.toList_ofList]
  · rfl

theorem EndsCell.special {cs : List Char} (h : EndsCell cs) :
    ∃ c rest, cs = c :: rest ∧ special c = true ∧ c ≠ '"' := by
  obtain ⟨c, rest, rfl, rfl | rfl⟩ := h
  · exact ⟨_, _, rfl, by decide, by decide⟩
  · exact ⟨_, _, rfl, by decide, by decide⟩

/-- Without quotes, a cell ends at the first special character. -/
theorem append_inj_of_plain {t u : List Char} (ht : EndsCell t) (hu : EndsCell u) :
    ∀ {xs ys : List Char}, xs.any special = false → ys.any special = false → xs ++ t = ys ++ u →
      xs = ys ∧ t = u
  | [], [], _, _, he => ⟨rfl, he⟩
  | [], y :: ys, _, hy, he => by
    obtain ⟨c, rest, rfl, hc, -⟩ := ht.special
    rw [List.any_cons, ← (List.cons.inj he).1, hc] at hy
    cases hy
  | x :: xs, [], hx, _, he => by
    obtain ⟨c, rest, rfl, hc, -⟩ := hu.special
    rw [List.any_cons, (List.cons.inj he).1, hc] at hx
    cases hx
  | x :: xs, y :: ys, hx, hy, he => by
    obtain ⟨rfl, htail⟩ := List.cons.inj he
    rw [List.any_cons, Bool.or_eq_false_iff] at hx hy
    obtain ⟨rfl, hrest⟩ := append_inj_of_plain ht hu hx.2 hy.2 htail
    exact ⟨rfl, hrest⟩

theorem doubled_cons (c : Char) (cs : List Char) :
    doubled (c :: cs) = (if c = '"' then ['"', '"'] else [c]) ++ doubled cs := List.flatMap_cons

/-- The closing quote is not the first one of a pair. -/
theorem cons_quote_ne {t u : List Char} (ht : EndsCell t) {c : Char} {cs : List Char} :
    '"' :: t ≠ doubled (c :: cs) ++ '"' :: u := by
  obtain ⟨d, rest, rfl, -, hd⟩ := ht.special
  rw [doubled_cons]
  split_ifs with hc
  · intro he
    exact hd (List.cons.inj (List.cons.inj he).2).1
  · intro he
    exact hc (List.cons.inj he).1.symm

/-- In quotes, a cell ends at the first quote that is not doubled. -/
theorem append_inj_of_doubled {t u : List Char} (ht : EndsCell t) (hu : EndsCell u) :
    ∀ {xs ys : List Char}, doubled xs ++ '"' :: t = doubled ys ++ '"' :: u → xs = ys ∧ t = u
  | [], [], he => ⟨rfl, (List.cons.inj he).2⟩
  | [], y :: ys, he => absurd he (cons_quote_ne ht)
  | x :: xs, [], he => absurd he.symm (cons_quote_ne hu)
  | x :: xs, y :: ys, he => by
    rw [doubled_cons, doubled_cons, List.append_assoc, List.append_assoc] at he
    split_ifs at he with hx hy hy
    · obtain ⟨rfl, hrest⟩ := append_inj_of_doubled ht hu (List.append_cancel_left he)
      exact ⟨by rw [hx, hy], hrest⟩
    · exact absurd (List.cons.inj he).1.symm hy
    · exact absurd (List.cons.inj he).1 hx
    · obtain ⟨rfl, htail⟩ := List.cons.inj he
      obtain ⟨rfl, hrest⟩ := append_inj_of_doubled ht hu htail
      exact ⟨rfl, hrest⟩

/-- A cell without quotes does not begin with one. -/
theorem append_ne_quote {xs t rest : List Char} (ht : EndsCell t) (hxs : ¬xs.any special = true) :
    xs ++ t ≠ '"' :: rest := by
  cases xs with
  | nil =>
    obtain ⟨c, tail, rfl, -, hc⟩ := ht.special
    exact fun he => hc (List.cons.inj he).1
  | cons x xs =>
    intro he
    rw [List.any_cons, (List.cons.inj he).1] at hxs
    exact hxs rfl

theorem separable_cell : Separable (fun s => (cell s).toList) EndsCell := by
  intro x y t u ht hu he
  simp only [toList_cell] at he
  split_ifs at he with hx hy hy
  · rw [List.cons_append, List.cons_append, List.append_assoc, List.append_assoc] at he
    obtain ⟨hxy, hrest⟩ := append_inj_of_doubled ht hu (List.cons.inj he).2
    exact ⟨String.toList_inj.mp hxy, hrest⟩
  · exact absurd he.symm (append_ne_quote hu hy)
  · exact absurd he (append_ne_quote ht hx)
  · rw [Bool.not_eq_true] at hx hy
    obtain ⟨hxy, hrest⟩ := append_inj_of_plain ht hu hx hy he
    exact ⟨String.toList_inj.mp hxy, hrest⟩

/-- Rows of one length with one text have the same cells. -/
theorem row_injective {l l' : List String} (hlen : l.length = l'.length) (h : row l = row l') : l = l' := by
  have htext : ∀ l, (row l).toList = [','].intercalate (l.map fun s => (cell s).toList) ++ ['\n'] := by
    intro l
    rw [row, String.toList_append, String.toList_intercalate, List.map_map]
    rfl
  have hchars := String.toList_inj.mpr h
  rw [htext, htext] at hchars
  exact separable_cell.intercalate (fun t => ⟨_, t, rfl, .inl rfl⟩) ⟨_, [], rfl, .inr rfl⟩ l l' hlen hchars

end ClusterTable

/-! ### Networks -/

namespace Network

variable {α : Type}

/-- Names identify the clusters of a network. -/
structure NamesAreKeys (n : Network α) : Prop where
  distinct : (n.clusters.toList.map Cluster.name).Nodup
  eq_of_name : ∀ c ∈ n.clusters, ∀ d ∈ n.clusters, c.name = d.name → c = d
  /-- Cells that make up the row of a cluster hold the name of this cluster and of no other. -/
  rows : ∀ [Analytic α] [ScalarText α], ∀ c ∈ n.clusters, ∀ cells : List String,
    cells.length = ClusterTable.header.length → ClusterTable.row cells = ClusterTable.row (ClusterTable.cells c) →
      ∀ d ∈ n.clusters, cells[1]? = some d.name ↔ d = c

variable [Scalar α] {n : Network α} {c d : Cluster α}

/-- In a finished network no two clusters have one name. -/
theorem Built.eq_of_name (hn : n.Built) (hc : c ∈ n.clusters) (hd : d ∈ n.clusters) (h : c.name = d.name) :
    c = d := by
  have hgroup : ∀ r : Region, ∃ rest, ("Super" ++ r.text).toList = 'S' :: rest := fun r => by
    rw [String.toList_append]
    exact ⟨_, rfl⟩
  unfold Cluster.name at h
  split_ifs at h with hcg hdg hdg
  · have htext : c.region.text = d.region.text := by
      have hchars := String.toList_inj.mpr h
      rw [String.toList_append, String.toList_append] at hchars
      exact String.toList_inj.mp (List.append_cancel_left hchars)
    exact hn.eq_of_region hc hd (Region.text_injective htext)
  · obtain ⟨rest, hrest⟩ := hgroup c.region
    exact absurd (h ▸ hrest) (d.composition.toList_text_ne_cons rest)
  · obtain ⟨rest, hrest⟩ := hgroup d.region
    exact absurd (h ▸ hrest) (c.composition.toList_text_ne_cons rest)
  · rw [Bool.not_eq_true] at hcg hdg
    exact Population.eq_of_composition hn.sound hn.placed (Population.mem_singles.mpr ⟨hc, hcg⟩)
      (Population.mem_singles.mpr ⟨hd, hdg⟩) (Composition.text_injective h)

/-- Compositions and regions are written differently, and so are the clusters of a finished network. -/
theorem namesAreKeys_of_finish {params : NetworkParams α} {material : Material α} {b : Builder α}
    (hb : b.Reachable params material) (h : b.finish = .ok n) :
    Function.Injective Composition.text ∧ Function.Injective Region.text ∧ n.NamesAreKeys := by
  obtain ⟨hn, -, -⟩ := built_of_finish hb h
  refine ⟨Composition.text_injective, Region.text_injective, ?_, fun c hc d hd => hn.eq_of_name hc hd, ?_⟩
  · refine List.pairwise_map.mpr ((List.pairwise_map.mp hn.sound.nodup_ids).imp_of_mem ?_)
    intro c d hc hd hid hname
    rw [Array.mem_toList_iff] at hc hd
    exact hid (congrArg Cluster.id (hn.eq_of_name hc hd hname))
  · intro _ _ c hc cells hlen hrow d hd
    have hcells : cells = ClusterTable.cells c := ClusterTable.row_injective hlen hrow
    rw [hcells]
    show some c.name = some d.name ↔ d = c
    exact ⟨fun hname => hn.eq_of_name hd hc (Option.some.inj hname).symm, fun he => by rw [he]⟩

end Network

/-- Two single clusters and a group. -/
theorem Chain.namesAreKeys : ∃ n, builder.finish = .ok n ∧
    n.clusters.toList.map Cluster.name = ["He_1", "He_2", "Super[3..5,0,0,0]"] ∧ n.NamesAreKeys := by
  obtain ⟨n, hn, hnames⟩ : ∃ n, builder.finish = .ok n ∧
      n.clusters.toList.map Cluster.name = ["He_1", "He_2", "Super[3..5,0,0,0]"] :=
    exists_eq_ok (by decide +kernel)
  obtain ⟨-, -, hkeys⟩ := Network.namesAreKeys_of_finish reachable hn
  exact ⟨n, hn, hnames, hkeys⟩

end ClusterDynamics
