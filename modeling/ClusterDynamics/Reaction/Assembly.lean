import ClusterDynamics.Reaction.Channel

/-! From encounters and channels to numbered reactions and the records of each cluster. -/

namespace ClusterDynamics

/-- The reactions of a population before they are numbered. -/
structure ReactionPlan where
  /-- All pairs that were looked at. -/
  encounters : List Encounter
  /-- All channels, with the number of the production that undoes them. -/
  channels : List (Channel × Option Nat)
  absentMonomers : Nat
deriving Repr

/-- What the reaction builder reports. -/
structure ReactionTally where
  productions : Nat
  recombinations : Nat
  pairsWithoutProduct : Nat
  dissociations : Nat
  withoutReverse : Nat
  absentMonomers : Nat
deriving Repr, DecidableEq, Inhabited

namespace ReactionPlan

variable {α : Type}

/-- The encounters that make something. -/
def productive (encounters : List Encounter) : List Encounter :=
  encounters.filter fun e => !e.pieces.isEmpty

/-- The number of the production that joins two clusters. -/
def reverseOf? (productions : List Encounter) (a b : Nat) : Option Nat :=
  productions.findIdx? fun e => e.joins a b

/-- The encounters and channels of a population. -/
def ofPopulation [Scalar α] (material : Material α) (p : Population α) : ReactionPlan :=
  let encounters := Encounter.all p
  let productions := productive encounters
  { encounters := encounters
    channels := (Channel.all material p).map fun c =>
      (c, reverseOf? productions c.monomer c.remainder)
    absentMonomers := Channel.absentMonomers material p }

/-- The encounters that make some cluster. -/
def productions (plan : ReactionPlan) : List Encounter := productive plan.encounters

/-- The channels that an encounter undoes, with the number of that encounter. -/
def dissociations (plan : ReactionPlan) : List (Channel × Nat) :=
  plan.channels.filterMap fun c => c.2.map fun reverse => (c.1, reverse)

/-- Productions in order, then dissociations in order. -/
def reactions [Scalar α] (material : Material α) (plan : ReactionPlan) : List (Reaction α) :=
  (plan.productions.map fun e => .production e.first e.second) ++
    plan.dissociations.map fun d =>
      .dissociation d.1.parent d.1.monomer d.1.remainder d.2 (d.1.bindingEnergy material)

/-- What the search for reactions has met, in numbers. -/
def tally (plan : ReactionPlan) : ReactionTally where
  productions := plan.productions.length
  recombinations :=
    plan.encounters.foldl (fun n e => n + (e.pieces.filter fun q => q.product.isNone).length) 0
  pairsWithoutProduct := (plan.encounters.filter fun e => e.pieces.isEmpty).length
  dissociations := plan.dissociations.length
  withoutReverse := (plan.channels.filter fun c => c.2.isNone).length
  absentMonomers := plan.absentMonomers

/-! ### Records -/

variable [Scalar α]

/-- The records of the clusters that an encounter produces. -/
def productionRecords (p : Population α) (i : Nat) (e : Encounter) :
    List (Nat × Record Couple α) :=
  match p.region? e.first with
  | none => []
  | some g =>
    e.pieces.filterMap fun piece => do
      let id ← piece.product
      let r ← p.region? id
      return (id, ⟨i, ⟨e.first, e.second⟩, Moment.coefficients r e.shift g piece.box⟩)

/-- The records of the two clusters that an encounter consumes. -/
def combiningRecords (p : Population α) (i : Nat) (e : Encounter) : List (Nat × Record Nat α) :=
  match p.region? e.first, p.region? e.second with
  | some g, some s =>
    e.pieces.flatMap fun piece =>
      [(e.first, ⟨i, e.second, Moment.coefficients g Point.origin g piece.box⟩),
        (e.second, ⟨i, e.first, Moment.coefficients s Point.origin g piece.box⟩)]
  | _, _ => []

/-- The records of the two clusters that a channel releases. -/
def dissociatingRecords (p : Population α) (i : Nat) (c : Channel) : List (Nat × Record Nat α) :=
  match p.region? c.parent, p.region? c.monomer, p.region? c.remainder with
  | some parent, some monomer, some remainder =>
    [(c.remainder, ⟨i, c.parent, Moment.coefficients remainder c.offset.neg parent c.box⟩),
      (c.monomer, ⟨i, c.parent, Moment.coefficients monomer Point.origin parent c.box⟩)]
  | _, _, _ => []

/-- The record of the parent of a channel. -/
def emissionRecords (p : Population α) (i : Nat) (c : Channel) : List (Nat × Record Couple α) :=
  match p.region? c.parent with
  | some parent =>
    [(c.parent, ⟨i, ⟨c.monomer, c.remainder⟩,
      Moment.coefficients parent Point.origin parent c.box⟩)]
  | none => []

/-- The records of a numbered list of events, one per event and owner, sorted by owner. -/
def records {ε ρ : Type} (n start : Nat) (events : List ε)
    (contributions : Nat → ε → List (Nat × Record ρ α)) : Array (List (Record ρ α)) :=
  bucket n ((events.zipIdx start).flatMap fun e => Record.collect (contributions e.2 e.1))

/-- The records of each cluster. Productions are numbered first, dissociations after them. -/
def links (p : Population α) (plan : ReactionPlan) : Array (Links α) :=
  let n := p.clusters.size
  let start := plan.productions.length
  let channels := plan.dissociations.map (·.1)
  let production := records n 0 plan.productions (productionRecords p)
  let combining := records n 0 plan.productions (combiningRecords p)
  let dissociating := records n start channels (dissociatingRecords p)
  let emission := records n start channels (emissionRecords p)
  Array.ofFn fun i : Fin n =>
    ⟨production.getD i [], combining.getD i [], dissociating.getD i [], emission.getD i []⟩

/-- Everything that the reactions are computed from is made of machine words. -/
def rangeFits (material : Material α) (p : Population α) (plan : ReactionPlan) : Bool :=
  plan.encounters.all (Encounter.rangeFits p) && Channel.allFit material p &&
    (plan.channels.all fun c => c.1.boxFits p) && plan.dissociations.all fun d => d.1.rangeFits p

end ReactionPlan
end ClusterDynamics
