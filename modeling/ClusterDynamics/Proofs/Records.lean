import ClusterDynamics.Proofs.Construction
import ClusterDynamics.Proofs.ListSum

/-! Sums over records. Contributions of one event to the same owner are added up in one record, and
    records are sorted by owner; a quantity that is additive in the coefficients can therefore be summed
    over the contributions of all events instead, wherever they ended up. -/

namespace ClusterDynamics

namespace Record

variable {ρ α M : Type} [Scalar α]

/-- Contributions to one reaction whose other participants are a function of their owner. -/
def Coherent (reaction : Nat) (others : Nat → ρ) (contributions : List (Nat × Record ρ α)) : Prop :=
  ∀ x ∈ contributions, x.2.reaction = reaction ∧ x.2.participants = others x.1

variable [AddCommMonoid M]

/-- A quantity of records that is additive in their coefficients. -/
def Additive (f : Record ρ α → M) : Prop :=
  ∀ r s : Record ρ α, s.reaction = r.reaction → s.participants = r.participants →
    f (r.add s) = f r + f s

variable {reaction : Nat} {others : Nat → ρ} {x : Nat × Record ρ α} {l : List (Nat × Record ρ α)}

theorem coherent_insert (hl : Coherent reaction others l)
    (hx : x.2.reaction = reaction ∧ x.2.participants = others x.1) :
    Coherent reaction others (insert l x) := by
  induction l with
  | nil =>
    intro y hy
    rw [insert, List.mem_singleton] at hy
    rwa [hy]
  | cons z rest ih =>
    have hrest : Coherent reaction others rest := fun y hy => hl y (List.mem_cons_of_mem z hy)
    rw [insert]
    split_ifs with h
    · intro y hy
      rcases List.mem_cons.mp hy with rfl | hy
      · exact hl z List.mem_cons_self
      · exact hrest y hy
    · intro y hy
      rcases List.mem_cons.mp hy with rfl | hy
      · exact hl y List.mem_cons_self
      · exact ih hrest y hy

variable {f : Nat → Record ρ α → M}

theorem sum_insert (hf : ∀ i, Additive (f i)) (hl : Coherent reaction others l)
    (hx : x.2.reaction = reaction ∧ x.2.participants = others x.1) :
    ((insert l x).map fun y => f y.1 y.2).sum = (l.map fun y => f y.1 y.2).sum + f x.1 x.2 := by
  induction l with
  | nil => simp [insert]
  | cons z rest ih =>
    have hrest : Coherent reaction others rest := fun y hy => hl y (List.mem_cons_of_mem z hy)
    rw [insert]
    split_ifs with h
    · obtain ⟨hr, hp⟩ := hl z List.mem_cons_self
      have hadd : f z.1 (z.2.add x.2) = f z.1 z.2 + f z.1 x.2 :=
        hf z.1 z.2 x.2 (hx.1.trans hr.symm) (by rw [hx.2, hp, h])
      rw [List.map_cons, List.map_cons, List.sum_cons, List.sum_cons, hadd, ← h]
      exact add_right_comm _ _ _
    · rw [List.map_cons, List.map_cons, List.sum_cons, List.sum_cons, ih hrest, add_assoc]

/-- Collecting contributions keeps every additive sum. -/
theorem sum_collect (hf : ∀ i, Additive (f i)) (hl : Coherent reaction others l) :
    ((collect l).map fun y => f y.1 y.2).sum = (l.map fun y => f y.1 y.2).sum := by
  -- Over a partial run: what is collected so far, plus what is still to come.
  have hfold : ∀ (rest acc : List (Nat × Record ρ α)), Coherent reaction others acc →
      Coherent reaction others rest →
      ((rest.foldl insert acc).map fun y => f y.1 y.2).sum =
        (acc.map fun y => f y.1 y.2).sum + (rest.map fun y => f y.1 y.2).sum := by
    intro rest
    induction rest with
    | nil => intro acc _ _; simp
    | cons x rest ih =>
      intro acc hacc hrest
      have hx := hrest x List.mem_cons_self
      rw [List.foldl_cons, ih _ (coherent_insert hacc hx)
        (fun y hy => hrest y (List.mem_cons_of_mem x hy)), sum_insert hf hacc hx, List.map_cons,
        List.sum_cons, add_assoc]
  have := hfold l [] (fun _ h => absurd h List.not_mem_nil) hl
  rwa [List.map_nil, List.sum_nil, zero_add] at this

end Record

/-! ### Sorting by owner -/

theorem getElem?_bucket {β : Type} {n i : Nat} (hi : i < n) (items : List (Nat × β)) :
    (bucket n items)[i]? = some ((items.filter fun x => x.1 = i).map (·.2)) := by
  have hfold : ∀ (items : List (Nat × β)) (groups : Array (List β)) (g : List β),
      groups[i]? = some g →
      (items.foldl (fun groups x => groups.modify x.1 (x.2 :: ·)) groups)[i]? =
        some (((items.filter fun x => x.1 = i).map (·.2)).reverse ++ g) := by
    intro items
    induction items with
    | nil => intro groups g hg; simpa using hg
    | cons x items ih =>
      intro groups g hg
      rw [List.foldl_cons]
      by_cases hx : x.1 = i
      · rw [ih _ (x.2 :: g) (by rw [Array.getElem?_modify, if_pos hx, hg, Option.map_some])]
        simp [hx]
      · rw [ih _ g (by rw [Array.getElem?_modify, if_neg hx, hg])]
        simp [hx]
  have hnil : (Array.replicate n ([] : List β))[i]? = some [] := by
    rw [Array.getElem?_replicate, if_pos hi]
  rw [bucket, Array.getElem?_map, hfold items _ [] hnil, Option.map_some, List.append_nil,
    List.reverse_reverse]

namespace ReactionPlan

variable {ρ α M ε : Type} [Scalar α] [AddCommMonoid M] {contributions : Nat → ε → List (Nat × Record ρ α)}

/-- An additive sum over the records of one owner is the sum over the contributions of all events to
    this owner. -/
theorem sum_records {n i : Nat} (hi : i < n) (start : Nat) {events : List ε} {f : Record ρ α → M}
    (hf : Record.Additive f)
    (hc : ∀ e ∈ events, ∀ j, ∃ others, Record.Coherent j others (contributions j e)) :
    (((records n start events contributions).getD i []).map f).sum =
      ((events.zipIdx start).map fun e =>
        ((contributions e.2 e.1).map fun x => if x.1 = i then f x.2 else 0).sum).sum := by
  have hf' : ∀ j, Record.Additive fun r => if j = i then f r else 0 := fun j r s hr hp => by
    dsimp only
    split_ifs
    · exact hf r s hr hp
    · rw [add_zero]
  rw [records, Array.getD_eq_getD_getElem?, getElem?_bucket hi, Option.getD_some, List.map_map,
    Function.comp_def, sum_map_filter, sum_map_flatMap]
  simp only [decide_eq_true_eq]
  refine congrArg List.sum (List.map_congr_left fun e he => ?_)
  obtain ⟨others, hco⟩ := hc e.1 (List.fst_mem_of_mem_zipIdx he) e.2
  exact Record.sum_collect hf' hco

end ReactionPlan
end ClusterDynamics
