import ClusterDynamics.Proofs.CompressedRows
import ClusterDynamics.Proofs.Reactions
import ClusterDynamics.Proofs.StateVector

/-! The sparsity pattern holds what the rows of a network ask for: every slot of a cluster has the columns of
    the cluster, and no two entries share a place. -/

namespace ClusterDynamics

/-! ### The rows of a network -/

namespace Network

variable {α : Type} {n : Network α}

theorem patternRows_eq (clusters : Array (Cluster α)) (links : Array (Links α)) (dof : Nat) :
    patternRows clusters links dof = State.putAll (Array.replicate dof [])
      (clusters.toList.flatMap fun c => c.slots.map fun slot =>
        (slot.2, connectivityOf clusters c (links.getD c.id Links.none))) := by
  rw [patternRows, ← Array.foldl_toList, State.putAll, List.foldl_flatMap]
  simp only [List.foldl_map]

/-- Every slot of a cluster has the columns of the cluster. -/
theorem getElem?_patternRows (S : n.toPopulation.Sound) {c : Cluster α} (hc : c ∈ n.clusters)
    {j : BasisIndex} {r : Nat} (hr : (j, r) ∈ c.slots) :
    (patternRows n.clusters n.links n.dof).toList[r]? =
      some (connectivityOf n.clusters c (n.linksOf c.id)) := by
  rw [Array.getElem?_toList, patternRows_eq]
  refine State.getElem?_putAll ?_ (List.mem_flatMap.mpr ⟨c, Array.mem_toList_iff.mpr hc, ?_⟩) ?_
  · rw [List.map_flatMap]
    simp only [List.map_map]
    exact S.nodup_slots
  · exact List.mem_map.mpr ⟨(j, r), hr, rfl⟩
  · rw [Array.size_replicate]
    exact S.slot_lt hc hr

variable [Scalar α] (hn : n.Built)
include hn

/-- The pattern has an entry for each slot that the rate of change of a cluster depends on. -/
theorem Built.position?_isSome {c : Cluster α} (hc : c ∈ n.clusters) {j : BasisIndex} {r : Nat}
    (hr : (j, r) ∈ c.slots) (s : Nat) :
    (n.sparsity.position? r s).isSome = true ↔ s ∈ influences n.clusters c (n.linksOf c.id) := by
  rw [hn.sparsity, SparsityPattern.position?_isSome]
  simp only [getElem?_patternRows hn.sound hc hr, Option.some.injEq, exists_eq_left', connectivityOf,
    SparsityPattern.mem_normalize]

theorem Built.position?_injective {r t c d i : Nat} (h : n.sparsity.position? r c = some i)
    (h' : n.sparsity.position? t d = some i) : r = t ∧ c = d := by
  rw [hn.sparsity] at h h'
  exact SparsityPattern.position?_injective h h'

theorem Built.position?_lt {r c i : Nat} (h : n.sparsity.position? r c = some i) :
    i < n.sparsity.size := by
  rw [hn.sparsity] at h ⊢
  exact SparsityPattern.position?_lt h

end Network
end ClusterDynamics
