import ClusterDynamics.Moment.Overlap

/-! Reactions and the records that clusters keep of them. Reactions are numbered: first the
    productions, then the dissociations that reverse them. Each cluster keeps, for every reaction that
    it takes part in, one record with the coefficients of its own rows. -/

namespace ClusterDynamics

/-- An event with a rate constant. -/
inductive Reaction (α : Type)
  /-- Two clusters meet. The first one is the grouped operand, if there is one. -/
  | production (first second : Nat)
  /-- A parent sheds the monomer `first` and leaves `second`; `reverse` is the number of the production
      that undoes it. -/
  | dissociation (parent first second reverse : Nat) (bindingEnergy : α)
deriving Repr, DecidableEq

namespace Reaction

variable {α : Type}

/-- The reaction merges two clusters. -/
def isProduction : Reaction α → Bool
  | .production _ _ => true
  | .dissociation .. => false

end Reaction

/-- What a cluster knows of one reaction: the other participants and the coefficients of its rows. -/
structure Record (ρ α : Type) where
  reaction : Nat
  participants : ρ
  coefs : MomentMatrix α
deriving Repr, DecidableEq

/-- The pair that meets in a production, or that a dissociation leaves. -/
structure Couple where
  first : Nat
  second : Nat
deriving Repr, DecidableEq, Inhabited

/-- Every reaction of one cluster. -/
structure Links (α : Type) where
  /-- The cluster is produced by the pair. -/
  production : List (Record Couple α)
  /-- The cluster is consumed when it meets the partner. -/
  combining : List (Record Nat α)
  /-- The cluster is released by the parent. -/
  dissociating : List (Record Nat α)
  /-- The cluster falls apart into the pair. -/
  emission : List (Record Couple α)
deriving Repr, DecidableEq

/-- No records. -/
def Links.none {α : Type} : Links α := ⟨[], [], [], []⟩

namespace Record

variable {ρ α : Type}

/-- Adds the coefficients of a further contribution to the same reaction. -/
def add [Scalar α] (r s : Record ρ α) : Record ρ α := { r with coefs := r.coefs.add s.coefs }

/-- Adds a contribution to the record of its owner, or opens one behind the others. -/
def insert [Scalar α] : List (Nat × Record ρ α) → Nat × Record ρ α → List (Nat × Record ρ α)
  | [], x => [x]
  | y :: rest, x =>
    if y.1 = x.1 then (y.1, y.2.add x.2) :: rest else y :: insert rest x

/-- The contributions to one reaction, collected into one record per owner. -/
def collect [Scalar α] (contributions : List (Nat × Record ρ α)) : List (Nat × Record ρ α) :=
  contributions.foldl insert []

end Record

/-- Items sorted into `n` groups by their keys, each group in the order of the list. -/
def bucket {β : Type} (n : Nat) (items : List (Nat × β)) : Array (List β) :=
  (items.foldl (fun groups x => groups.modify x.1 (x.2 :: ·)) (Array.replicate n [])).map List.reverse

end ClusterDynamics
