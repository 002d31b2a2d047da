import ClusterDynamics.Jacobian
import ClusterDynamics.Proofs.CompressedRows

/-! Flux and Jacobian with every index in sight. The evaluation stops at the first index that is out of range, names
    it with the length that it is beyond, and leaves what has been written or visited so far. -/

namespace ClusterDynamics

/-! ### Indices -/

namespace Indexed

/-- The entry at an index, or the index and the length that it is beyond. -/
def entry {α β : Type} (xs : Array β) (i : Nat) : Except (NetworkFault α) β :=
  match xs[i]? with
  | some x => .ok x
  | none => .error (.outOfRange i xs.size)

variable {α : Type}

theorem entry_eq_ok {β : Type} {xs : Array β} {i : Nat} {x : β} (h : xs[i]? = some x) :
    entry (α := α) xs i = .ok x := by
  rw [entry, h]

theorem entry_eq_getD {β : Type} {xs : Array β} {i : Nat} (h : i < xs.size) (d : β) :
    entry (α := α) xs i = .ok (xs.getD i d) := by
  rw [Array.getD_eq_getD_getElem?, Array.getElem?_eq_getElem h, Option.getD_some]
  exact entry_eq_ok (Array.getElem?_eq_getElem h)

/-- Adds to an entry, which has to exist. -/
def add [Scalar α] (xs : Array α) (i : Nat) (x : α) : Except (NetworkFault α) (Array α) :=
  if i < xs.size then .ok (xs.modify i (· + x)) else .error (.outOfRange i xs.size)

/-- Stores an entry, whose place has to exist. -/
def put (xs : Array α) (i : Nat) (x : α) : Except (NetworkFault α) (Array α) :=
  if i < xs.size then .ok (xs.setIfInBounds i x) else .error (.outOfRange i xs.size)

/-- The place of an entry, looked for in the part of the columns that belongs to its row. -/
def position (p : SparsityPattern) (r c : Nat) : Except (NetworkFault α) (Option Nat) :=
  match p.offsets[r]?, p.offsets[r + 1]? with
  | some first, some last =>
    if first ≤ last ∧ last ≤ p.columns.size then .ok (SparsityPattern.search p.columns c (last - first) first last)
    else .error (.outOfRange last p.columns.size)
  | _, _ => .ok none

/-- The part of the columns that belongs to a row lies inside them. -/
theorem position_ofRows (rows : List (List Nat)) (r c : Nat) :
    position (α := α) (.ofRows rows) r c = .ok ((SparsityPattern.ofRows rows).position? r c) := by
  rw [position, SparsityPattern.position?, SparsityPattern.getElem?_offsets r, SparsityPattern.getElem?_offsets (r + 1)]
  split_ifs with hr hnext
  · -- The offsets are the lengths of the rows added up, so they rise and end where the columns do.
    exact if_pos ⟨SparsityPattern.offset_mono _ (Nat.le_succ r),
      SparsityPattern.offset_le_size (rows.map SparsityPattern.normalize) (r + 1)⟩
  · rfl
  · rfl
  · rfl

variable [Scalar α]

/-! ### Evaluation -/

/-- The moments of a cluster; those that it does not carry are zero. -/
def gather (state : Array α) (c : Cluster α) : Except (NetworkFault α) (MomentVector α) :=
  Vector.ofFnM fun k => (c.slot? k.val).elim (.ok 0) (entry state)

/-- What the productions contribute to the rows of a cluster. -/
def productionTerm (n : Network α) (k : RateConstants α) (state : Array α) (links : Links α) :
    Except (NetworkFault α) (MomentVector α) :=
  links.production.foldlM (fun t r => do
    let rate ← entry k.rates r.reaction
    let first ← entry n.clusters r.participants.first
    let moments ← gather state first
    let x ← entry state r.participants.second
    return t.add ((r.coefs.mulVec moments).scale (rate * x))) .zero

/-- What the combinations take from the rows of a cluster. -/
def combinationTerm (n : Network α) (k : RateConstants α) (state : Array α) (c : Cluster α)
    (links : Links α) : Except (NetworkFault α) (MomentVector α) :=
  links.combining.foldlM (fun t r => do
    let rate ← entry k.rates r.reaction
    let partner ← entry n.clusters r.participants
    let moments ← gather state (Network.groupedFirst c partner).1
    let x ← entry state (Network.groupedFirst c partner).2.id
    return t.sub ((r.coefs.mulVec moments).scale (rate * x))) .zero

/-- What the dissociations contribute to the rows of a cluster. -/
def dissociationTerm (n : Network α) (k : RateConstants α) (state : Array α) (links : Links α) :
    Except (NetworkFault α) (MomentVector α) :=
  links.dissociating.foldlM (fun t r => do
    let rate ← entry k.rates r.reaction
    let parent ← entry n.clusters r.participants
    let moments ← gather state parent
    return t.add ((r.coefs.mulVec moments).scale rate)) .zero

/-- What the emissions take from the rows of a cluster with moments `own`. -/
def emissionTerm (k : RateConstants α) (own : MomentVector α) (links : Links α) :
    Except (NetworkFault α) (MomentVector α) :=
  links.emission.foldlM (fun t r => do
    let rate ← entry k.rates r.reaction
    return t.sub ((r.coefs.mulVec own).scale rate)) .zero

/-- What the sink takes. Only a cluster with a sink is looked up among the diffusion coefficients. -/
def sinkTerm (n : Network α) (k : RateConstants α) (own : MomentVector α) (c : Cluster α) :
    Except (NetworkFault α) (MomentVector α) := do
  let sink ← entry n.sinks c.id
  if 0 < sink then
    let diffusion ← entry k.diffusion c.id
    return MomentVector.zero.sub (own.scale (sink * diffusion))
  else return .zero

/-- The five contributions to the rows of a cluster, in the order in which they are evaluated. -/
def terms (n : Network α) (k : RateConstants α) (state : Array α) (c : Cluster α) :
    Except (NetworkFault α) (FluxTerms α) := do
  let links ← entry n.links c.id
  let own ← gather state c
  let production ← productionTerm n k state links
  let combination ← combinationTerm n k state c links
  let dissociation ← dissociationTerm n k state links
  let emission ← emissionTerm k own links
  let sink ← sinkTerm n k own c
  return ⟨production, combination, dissociation, emission, sink⟩

/-- Adds the rows of a cluster, which have been evaluated before the first of them is written. -/
def addCluster (n : Network α) (k : RateConstants α) (state out : Array α) (c : Cluster α) :
    Except (Failure α (Array α)) (Array α) := do
  let t ← Failure.leaving out (terms n k state c)
  c.slots.foldlM (fun out row => Failure.leaving out (add out row.2 (t.total.get row.1))) out

/-- `Network.addFluxes` with every index checked. -/
def addFluxes (n : Network α) (k : RateConstants α) (state out : Array α) :
    Except (Failure α (Array α)) (Array α) := do
  Failure.leaving out do
    n.checkInputs k state
    Network.checkSize .fluxOutput n.dof out.size
  n.clusters.foldlM (addCluster n k state) out

/-- Stores one row in all five parts. -/
def putTerms (b : FluxBreakdown α) (t : FluxTerms α) (row : BasisIndex × Nat) :
    Except (NetworkFault α) (FluxBreakdown α) := do
  let production ← put b.production row.2 (t.production.get row.1)
  let combination ← put b.combination row.2 (t.combination.get row.1)
  let dissociation ← put b.dissociation row.2 (t.dissociation.get row.1)
  let emission ← put b.emission row.2 (t.emission.get row.1)
  let sink ← put b.sink row.2 (t.sink.get row.1)
  return ⟨production, combination, dissociation, emission, sink⟩

/-- `Network.fluxBreakdown` with every index checked. -/
def fluxBreakdown (n : Network α) (k : RateConstants α) (state : Array α) :
    Except (NetworkFault α) (FluxBreakdown α) := do
  n.checkInputs k state
  let zeros := State.zeros n.dof
  n.clusters.foldlM (fun b c => do
    let t ← terms n k state c
    c.slots.foldlM (fun b row => putTerms b t row) b) ⟨zeros, zeros, zeros, zeros, zeros⟩

/-! ### Visits -/

/-- The derivatives of a production. -/
def productionPartials (n : Network α) (k : RateConstants α) (state : Array α) (c : Cluster α)
    (r : Record Couple α) : Except (NetworkFault α) (List (Partial α)) := do
  let rate ← entry k.rates r.reaction
  let first ← entry n.clusters r.participants.first
  let cs ← entry state r.participants.second
  let moments ← gather state first
  return Network.productPartials c r.participants.second first
    (fun row => rate * (r.coefs.mulVec moments).get row) fun row j => rate * cs * r.coefs.entry row j

/-- The derivatives of a combination. -/
def combinationPartials (n : Network α) (k : RateConstants α) (state : Array α) (c : Cluster α)
    (r : Record Nat α) : Except (NetworkFault α) (List (Partial α)) := do
  let rate ← entry k.rates r.reaction
  let partner ← entry n.clusters r.participants
  let co ← entry state (Network.groupedFirst c partner).2.id
  let moments ← gather state (Network.groupedFirst c partner).1
  return Network.productPartials c (Network.groupedFirst c partner).2.id (Network.groupedFirst c partner).1
    (fun row => -rate * (r.coefs.mulVec moments).get row) fun row j => -rate * co * r.coefs.entry row j

/-- The derivatives of a dissociation. -/
def dissociationPartials (n : Network α) (k : RateConstants α) (c : Cluster α) (r : Record Nat α) :
    Except (NetworkFault α) (List (Partial α)) := do
  let rate ← entry k.rates r.reaction
  let parent ← entry n.clusters r.participants
  return Network.blockPartials c parent fun row j => rate * r.coefs.entry row j

/-- The derivatives of an emission. -/
def emissionPartials (k : RateConstants α) (c : Cluster α) (r : Record Couple α) :
    Except (NetworkFault α) (List (Partial α)) := do
  let rate ← entry k.rates r.reaction
  return Network.blockPartials c c fun row j => -rate * r.coefs.entry row j

/-- The derivatives of the sink, whose coefficient is looked up before the first of them is visited. -/
def sinkPartials (n : Network α) (k : RateConstants α) (c : Cluster α) :
    Except (NetworkFault α) (List (Partial α)) := do
  let sink ← entry n.sinks c.id
  if 0 < sink then
    let diffusion ← entry k.diffusion c.id
    return c.slots.map fun row => ⟨row.2, row.2, -(sink * diffusion)⟩
  else return []

section
variable {σ : Type} (visit : σ → Partial α → Except (NetworkFault α) σ)

/-- Visits contributions with a visitor that may itself index out of range. -/
def visitAll (entries : List (Partial α)) (s : σ) : Except (Failure α σ) σ :=
  entries.foldlM (fun s x => Failure.leaving s (visit s x)) s

/-- What a record reads is read before its first contribution is visited. -/
def visitRecords {ρ : Type} (entries : ρ → Except (NetworkFault α) (List (Partial α))) (records : List ρ) (s : σ) :
    Except (Failure α σ) σ :=
  records.foldlM (fun s r => do visitAll visit (← Failure.leaving s (entries r)) s) s

/-- Visits the contributions to the rows of a cluster, record after record. -/
def visitCluster (n : Network α) (k : RateConstants α) (state : Array α) (s : σ) (c : Cluster α) :
    Except (Failure α σ) σ := do
  let links ← Failure.leaving s (entry n.links c.id)
  let s ← visitAll visit (Network.ownPartials c) s
  let s ← visitRecords visit (productionPartials n k state c) links.production s
  let s ← visitRecords visit (combinationPartials n k state c) links.combining s
  let s ← visitRecords visit (dissociationPartials n k c) links.dissociating s
  let s ← visitRecords visit (emissionPartials k c) links.emission s
  visitAll visit (← Failure.leaving s (sinkPartials n k c)) s

/-- `Network.visitPartials` with every index checked. -/
def visitPartials (n : Network α) (k : RateConstants α) (state : Array α) (s : σ) : Except (Failure α σ) σ := do
  Failure.leaving s (n.checkInputs k state)
  n.clusters.foldlM (visitCluster visit n k state) s

end

/-- Adds a contribution at its place in a pattern. -/
def addPartial (pattern : SparsityPattern) (values : Array α) (x : Partial α) :
    Except (NetworkFault α) (Array α) := do
  match ← position pattern x.row x.column with
  | some i => add values i x.value
  | none => return values

/-- `Network.addJacobian` with every index checked. -/
def addJacobian (n : Network α) (k : RateConstants α) (state values : Array α) :
    Except (Failure α (Array α)) (Array α) := do
  Failure.leaving values (Network.checkSize .jacobianValues n.sparsity.size values.size)
  visitPartials (addPartial n.sparsity) n k state values

end Indexed

end ClusterDynamics
