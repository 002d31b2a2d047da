import ClusterDynamics.Network

/-! A short key of a network. It depends on the numbers, regions, compositions and slots of all clusters
    and on the participants of all reactions, in order, so a network that is built again from the same
    clusters has the same key. -/

namespace ClusterDynamics

/-- A 64-bit digest of a list of words: exclusive or with each word, then a multiplication by an odd
    constant. -/
def digest (words : List UInt64) : UInt64 :=
  words.foldl (fun h w => (h ^^^ w) * 1099511628211) 14695981039346656037

namespace Fingerprint

variable {α : Type}

/-- The word that an integer is hashed as. -/
def ofInt (n : Int) : UInt64 := UInt64.ofInt n

/-- The word that a natural number is hashed as. -/
def ofNat (n : Nat) : UInt64 := UInt64.ofNat n

/-- The words of an optional slot: a mark, and the slot where there is one. -/
def slotWords : Option Nat → List UInt64
  | none => [0]
  | some s => [1, ofNat s]

/-- The words of a cluster: number, corners, counts and moment slots. -/
def clusterWords (c : Cluster α) : List UInt64 :=
  ofNat c.id :: (c.region.lo.toList.map ofInt ++ c.region.hi.toList.map ofInt
    ++ c.composition.counts.map (fun n => ofNat n.toNat) ++ c.moments.toList.flatMap slotWords)

/-- Kind and participants, and the written form of the binding energy. -/
def reactionWords [ScalarText α] : Reaction α → List UInt64
  | .production first second => [0, ofNat first, ofNat second]
  | .dissociation parent first second reverse binding =>
    [1, ofNat parent, ofNat first, ofNat second, ofNat reverse]
      ++ (ScalarText.cell binding).toList.map fun c => ofNat c.toNat

/-- The lowest `n` hexadecimal digits of a word, the highest of them first. -/
def hexDigits : Nat → UInt64 → List Char
  | 0, _ => []
  | n + 1, w => hexDigits n (w / 16) ++ [Nat.digitChar (w % 16).toNat]

end Fingerprint

/-- Material, number of clusters and number of reactions. -/
def Network.outline {α : Type} (n : Network α) : String :=
  n.material.name ++ "-" ++ toString n.clusters.size ++ "-" ++ toString n.reactions.size

/-- The outline and the digest in sixteen hexadecimal digits. -/
def Network.fingerprint {α : Type} [ScalarText α] (n : Network α) : String :=
  let words := n.clusters.toList.flatMap Fingerprint.clusterWords
    ++ n.reactions.toList.flatMap Fingerprint.reactionWords
  n.outline ++ "-" ++ String.ofList (Fingerprint.hexDigits 16 (digest words))

end ClusterDynamics
