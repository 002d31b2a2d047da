import ClusterDynamics.Proofs.JsonText
import ClusterDynamics.Proofs.Partition
import ClusterDynamics.Snapshot

/-! Stored values are read back as they were. Each reader takes what its writer has made, field by field;
    scalars are the exception, for one that is not finite is written as null, and null is no scalar. So a
    snapshot is read back when all of its scalars are finite, and cannot be read when one is not. -/

namespace ClusterDynamics

/-- Finite scalars have well-formed numerals, from which they are read back. -/
class LawfulText (α : Type) [Scalar α] [ScalarText α] : Prop where
  wellFormed_numeral : ∀ x : α, Scalar.isFinite x = true → (ScalarText.numeral x).WellFormed
  ofNumeral?_numeral : ∀ x : α, Scalar.isFinite x = true →
    ScalarText.ofNumeral? (ScalarText.numeral x) = some x

variable {α β : Type}

namespace Json

/-! ### Simple values -/

theorem intBetween?_int {lo hi i : Int} (h : lo ≤ i ∧ i ≤ hi) : intBetween? lo hi (.int i) = some i := by
  simp [int, intBetween?, Numeral.toInt?_ofInt, h]

theorem count?_nat (n : UInt32) : count? (.nat n.toNat) = some n := by
  have hword := n.toNat_lt
  have hread : intBetween? 0 4294967295 (.int n.toNat) = some (n.toNat : Int) := intBetween?_int (by omega)
  change (intBetween? 0 4294967295 (.int n.toNat)).map _ = _
  simp [hread]

theorem size?_nat {n : Nat} (h : n < 18446744073709551616) : size? (.nat n) = some n := by
  have hread : intBetween? 0 18446744073709551615 (.int n) = some (n : Int) := intBetween?_int (by omega)
  change (intBetween? 0 18446744073709551615 (.int n)).map _ = _
  simp [hread]

theorem coordinate?_int {i : Int} (h : fits i = true) : coordinate? (.int i) = some i := by
  rw [fits_iff] at h
  exact intBetween?_int (by omega)

section
variable {read : Json → Option β} {write : β → Json}

theorem list?_ofList {xs : List β} (h : ∀ x ∈ xs, read (write x) = some x) :
    list? read (ofList write xs) = some xs := by
  show (xs.map write).mapM read = some xs
  rw [mapM_eq_some, List.map_map]
  exact List.map_congr_left h

/-- A list with a member that cannot be read cannot be read. -/
theorem list?_ofList_eq_none {xs : List β} {x : β} (hx : x ∈ xs) (h : read (write x) = none) :
    list? read (ofList write xs) = none := by
  show (xs.map write).mapM read = none
  cases hread : (xs.map write).mapM read with
  | none => rfl
  | some ys =>
    have hmem : read (write x) ∈ (xs.map write).map read := List.mem_map_of_mem (List.mem_map_of_mem hx)
    rw [mapM_eq_some.mp hread, h] at hmem
    simp at hmem

theorem option?_ofOption {x : Option β} (hnull : ∀ y, x = some y → write y ≠ .null)
    (h : ∀ y, x = some y → read (write y) = some y) : option? read (ofOption write x) = some x := by
  cases x with
  | none => rfl
  | some y =>
    have hread : option? read (write y) = (read (write y)).map some := by
      cases hj : write y with
      | null => exact absurd hj (hnull y rfl)
      | _ => rfl
    rw [ofOption, hread, h y rfl]
    rfl

end

section
variable [Scalar α] [ScalarText α] [LawfulText α] {x : α}

theorem scalar?_ofScalar (h : Scalar.isFinite x = true) : scalar? (ofScalar x) = some x := by
  rw [ofScalar, if_pos h]
  exact LawfulText.ofNumeral?_numeral x h

omit [LawfulText α] in
theorem scalar?_ofScalar_eq_none (h : Scalar.isFinite x = false) :
    (scalar? (ofScalar x) : Option α) = none := by
  rw [ofScalar, h]
  rfl

theorem wellFormed_ofScalar (x : α) : (ofScalar x).WellFormed := by
  unfold ofScalar
  split_ifs with h
  · exact .number (LawfulText.wellFormed_numeral x h)
  · exact .null

end

/-! ### Records -/

theorem wellFormed_nat (n : Nat) : (nat n).WellFormed := .number (Numeral.wellFormed_ofInt n)

theorem wellFormed_int (i : Int) : (int i).WellFormed := .number (Numeral.wellFormed_ofInt i)

theorem wellFormed_ofList {write : β → Json} {xs : List β} (h : ∀ x ∈ xs, (write x).WellFormed) :
    (ofList write xs).WellFormed := by
  refine .array ?_
  intro v hv
  obtain ⟨x, hx, rfl⟩ := List.mem_map.mp hv
  exact h x hx

theorem wellFormed_ofOption {write : β → Json} {x : Option β} (h : ∀ y, x = some y → (write y).WellFormed) :
    (ofOption write x).WellFormed := by
  cases x with
  | none => exact .null
  | some y => exact h y rfl

theorem wellFormed_record {fields : List (String × Json)} (h : ∀ f ∈ fields, f.2.WellFormed) :
    (record fields).WellFormed := by
  refine .object ?_ ?_
  · intro f hf
    obtain ⟨g, -, rfl⟩ := List.mem_map.mp hf
    rfl
  · intro f hf
    obtain ⟨g, hg, rfl⟩ := List.mem_map.mp hf
    exact h g hg

namespace Fields

theorem ofObject_record {names : List String} : ∀ {fields found : List (String × Json)},
    (∀ f ∈ fields, f.1 ∈ names) → ((found ++ fields).map (·.1)).Nodup →
      ofObject names (fields.map fun f => (some f.1, f.2)) found = some (found ++ fields)
  | [], found, _, _ => by simp [ofObject]
  | f :: fields, found, hnames, hnodup => by
    have hnew : (found.any fun g => g.1 == f.1) = false := by
      rw [List.any_eq_false]
      intro g hg heq
      rw [List.map_append, List.nodup_append] at hnodup
      exact hnodup.2.2 _ (List.mem_map_of_mem hg) _ (List.mem_map_of_mem List.mem_cons_self) (by simpa using heq)
    have happend : found ++ f :: fields = (found ++ [f]) ++ fields := by simp
    rw [happend] at hnodup
    have hrest := ofObject_record (fun g hg => hnames g (List.mem_cons_of_mem f hg)) hnodup
    rw [List.map_cons, ofObject, if_pos (hnames f List.mem_cons_self), hnew, if_neg Bool.false_ne_true]
    simpa using hrest

/-- The fields of a record are found when their names are the known ones. -/
theorem of?_record {names : List String} {fields : List (String × Json)} (hnames : fields.map (·.1) = names)
    (hnodup : names.Nodup) : of? names (record fields) = some ⟨true, fields⟩ := by
  subst hnames
  have h : ofObject (fields.map (·.1)) (fields.map fun f => (some f.1, f.2)) [] = some ([] ++ fields) :=
    ofObject_record (fun f hf => List.mem_map_of_mem hf) hnodup
  rw [record, of?, h]
  rfl

@[simp] theorem find?_cons {byName : Bool} {f : String × Json} {rest : List (String × Json)} {name : String} :
    (Fields.mk byName (f :: rest)).find? name =
      if f.1 == name then some f.2 else (Fields.mk byName rest).find? name := by
  unfold find?
  cases h : f.1 == name <;> simp [h]

end Fields
end Json

open Json

/-! ### Kinds and compositions -/

theorem ClusterKind.ofJson?_toJson (k : ClusterKind) : ofJson? k.toJson = some k := by
  cases k <;> rfl

theorem MaterialKind.ofJson?_toJson (k : MaterialKind) : ofJson? k.toJson = some k := by
  cases k <;> rfl

theorem Composition.ofJson?_toJson (c : Composition) : ofJson? c.toJson = some c := by
  have hcounts : list? count? (ofList (fun n => nat n.toNat) c.counts) = some c.counts :=
    list?_ofList fun n _ => count?_nat n
  have hvector : vector? 4 count? (ofList (fun n => nat n.toNat) c.counts) =
      some ⟨c.counts.toArray, rfl⟩ := by
    rw [vector?, hcounts]
    rfl
  simp only [ofJson?, toJson]
  rw [Fields.of?_record (by rfl) (by simp)]
  simp only [Fields.required, Fields.find?_cons, beq_self_eq_true, if_true, Option.bind_some, hvector,
    Option.bind_eq_bind]
  rfl

theorem Composition.wellFormed_toJson (c : Composition) : c.toJson.WellFormed := by
  refine wellFormed_record ?_
  simpa using wellFormed_ofList fun n _ => wellFormed_nat _

/-! ### Parameters -/

section
variable [Scalar α] [ScalarText α] [LawfulText α]

theorem GroupingParams.ofJson?_toJson {g : GroupingParams α} (h : Scalar.isFinite g.growth = true) :
    ofJson? g.toJson = some g := by
  simp only [ofJson?, toJson]
  rw [Fields.of?_record (by rfl) (by simp)]
  simp [Fields.required, count?_nat, scalar?_ofScalar h]

theorem GroupingParams.wellFormed_toJson (g : GroupingParams α) : g.toJson.WellFormed := by
  refine wellFormed_record ?_
  simp [wellFormed_nat, wellFormed_ofScalar]

theorem NetworkParams.ofJson?_toJson {p : NetworkParams α} (hsink : Scalar.isFinite p.sinkStrength = true)
    (hgrowth : ∀ g, p.grouping = some g → Scalar.isFinite g.growth = true) : ofJson? p.toJson = some p := by
  have hgrouping : option? GroupingParams.ofJson? (ofOption GroupingParams.toJson p.grouping) =
      some p.grouping :=
    option?_ofOption (fun g _ h => nomatch h) fun g hg => GroupingParams.ofJson?_toJson (hgrowth g hg)
  simp only [ofJson?, toJson]
  rw [Fields.of?_record (by rfl) (by simp)]
  simp [Fields.withDefault, count?_nat, scalar?_ofScalar hsink, hgrouping, MaterialKind.ofJson?_toJson, bool?]

theorem NetworkParams.wellFormed_toJson (p : NetworkParams α) : p.toJson.WellFormed := by
  refine wellFormed_record ?_
  simp [wellFormed_nat, wellFormed_ofScalar, MaterialKind.toJson, text, WellFormed.string, WellFormed.bool,
    wellFormed_ofOption fun g _ => GroupingParams.wellFormed_toJson g]

/-! ### Records -/

/-- The numbers of the record are machine words. -/
structure ClusterRecord.Words (r : ClusterRecord α) : Prop where
  id : r.id < 18446744073709551616
  lo : ∀ i ∈ r.lo, fits i = true
  hi : ∀ i ∈ r.hi, fits i = true
  /-- A migration energy that is not finite is no longer there. -/
  migration : ∀ e, r.migrationEnergy = some e → Scalar.isFinite e = true

/-- The scalars that a record cannot do without are finite. -/
structure ClusterRecord.Finite (r : ClusterRecord α) : Prop where
  formation : Scalar.isFinite r.formationEnergy = true
  diffusion : Scalar.isFinite r.diffusionFactor = true
  radius : Scalar.isFinite r.reactionRadius = true

namespace ClusterRecord

theorem wellFormed_toJson (r : ClusterRecord α) : r.toJson.WellFormed := by
  refine wellFormed_record ?_
  simp [wellFormed_nat, wellFormed_ofScalar, ClusterKind.toJson, text, WellFormed.string,
    Composition.wellFormed_toJson, wellFormed_ofList fun i _ => wellFormed_int i,
    wellFormed_ofOption fun e _ => wellFormed_ofScalar e]

variable {r : ClusterRecord α}

theorem ofJson?_toJson (hw : r.Words) (hf : r.Finite) : ofJson? r.toJson = some r := by
  have hlo : list? coordinate? (ofList Json.int r.lo) = some r.lo :=
    list?_ofList fun i hi => coordinate?_int (hw.lo i hi)
  have hhi : list? coordinate? (ofList Json.int r.hi) = some r.hi :=
    list?_ofList fun i hi => coordinate?_int (hw.hi i hi)
  have hmigration : option? scalar? (ofOption ofScalar r.migrationEnergy) = some r.migrationEnergy := by
    refine option?_ofOption ?_ ?_
    · intro e he
      rw [ofScalar, if_pos (hw.migration e he)]
      exact fun h => nomatch h
    · intro e he
      exact scalar?_ofScalar (hw.migration e he)
  simp only [ofJson?, toJson]
  rw [Fields.of?_record (by rfl) (by simp)]
  simp [Fields.required, Fields.optional, size?_nat hw.id, hlo, hhi, hmigration, ClusterKind.ofJson?_toJson,
    Composition.ofJson?_toJson, scalar?_ofScalar hf.formation, scalar?_ofScalar hf.diffusion,
    scalar?_ofScalar hf.radius]

omit [LawfulText α] in
/-- A record without one of these scalars is not read. -/
theorem ofJson?_toJson_eq_none (h : ¬ r.Finite) : (ofJson? r.toJson : Option (ClusterRecord α)) = none := by
  simp only [ofJson?, toJson]
  rw [Fields.of?_record (by rfl) (by simp)]
  cases hformation : Scalar.isFinite r.formationEnergy with
  | false => simp [Fields.required, scalar?_ofScalar_eq_none hformation]
  | true =>
    cases hdiffusion : Scalar.isFinite r.diffusionFactor with
    | false => simp [Fields.required, scalar?_ofScalar_eq_none hdiffusion]
    | true =>
      cases hradius : Scalar.isFinite r.reactionRadius with
      | false => simp [Fields.required, scalar?_ofScalar_eq_none hradius]
      | true => exact absurd ⟨hformation, hdiffusion, hradius⟩ h

end ClusterRecord

/-! ### Snapshots -/

/-- Apart from the scalars that records cannot do without, the snapshot can be written. -/
structure NetworkSnapshot.Words (s : NetworkSnapshot α) : Prop where
  sink : Scalar.isFinite s.params.sinkStrength = true
  growth : ∀ g, s.params.grouping = some g → Scalar.isFinite g.growth = true
  dof : s.dof < 18446744073709551616
  records : ∀ r ∈ s.clusters, r.Words

namespace NetworkSnapshot

variable {s : NetworkSnapshot α}

theorem wellFormed_toJson (s : NetworkSnapshot α) : s.toJson.WellFormed := by
  refine wellFormed_record ?_
  simp [wellFormed_nat, NetworkParams.wellFormed_toJson,
    wellFormed_ofList fun r _ => ClusterRecord.wellFormed_toJson r]

theorem ofText?_fileText_eq (s : NetworkSnapshot α) :
    (ofText? s.fileText : Option (NetworkSnapshot α)) = ofJson? s.toJson := by
  rw [ofText?, fileText, ofString?_pretty (wellFormed_toJson s), Option.bind_some]

theorem ofText?_fileText (hs : s.Words) (hf : ∀ r ∈ s.clusters, r.Finite) : ofText? s.fileText = some s := by
  have hclusters : list? ClusterRecord.ofJson? (ofList ClusterRecord.toJson s.clusters) = some s.clusters :=
    list?_ofList fun r hr => ClusterRecord.ofJson?_toJson (hs.records r hr) (hf r hr)
  rw [ofText?_fileText_eq]
  simp only [ofJson?, toJson]
  rw [Fields.of?_record (by rfl) (by simp)]
  simp [Fields.required, NetworkParams.ofJson?_toJson hs.sink hs.growth, size?_nat hs.dof, hclusters]

theorem ofText?_fileText_eq_none {r : ClusterRecord α} (hr : r ∈ s.clusters) (hf : ¬ r.Finite) :
    (ofText? s.fileText : Option (NetworkSnapshot α)) = none := by
  have hclusters : list? (ClusterRecord.ofJson? (α := α)) (ofList ClusterRecord.toJson s.clusters) = none :=
    list?_ofList_eq_none hr (ClusterRecord.ofJson?_toJson_eq_none hf)
  rw [ofText?_fileText_eq]
  simp only [ofJson?, toJson]
  rw [Fields.of?_record (by rfl) (by simp)]
  simp [Fields.required, hclusters]

end NetworkSnapshot
end

end ClusterDynamics
