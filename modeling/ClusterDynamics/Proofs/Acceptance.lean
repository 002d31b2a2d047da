import ClusterDynamics.Proofs.Generation
import ClusterDynamics.Proofs.Tiling

/-! When a network is accepted. Seeds on regions that share no point, each placed where its composition
    belongs, are all taken, numbered and indexed; after that only a number that leaves its machine word
    can stop the construction. -/

namespace ClusterDynamics

variable {α β γ : Type}

/-! ### Runs that only overflow stops -/

/-- The run gives a result unless a number needed on the way is no machine word. -/
def OnlyOverflow (run : Except (NetworkFault α) β) : Prop := ∀ fault, run = .error fault → fault = .overflow

namespace OnlyOverflow

theorem ok (b : β) : OnlyOverflow (.ok b : Except (NetworkFault α) β) := fun _ h => nomatch h

theorem overflow : OnlyOverflow (.error .overflow : Except (NetworkFault α) β) := fun _ h => by
  cases h
  rfl

theorem require (fits : Bool) : OnlyOverflow (NetworkFault.require fits : Except (NetworkFault α) Unit) := by
  unfold NetworkFault.require
  split_ifs
  · exact .ok ()
  · exact .overflow

theorem bind {x : Except (NetworkFault α) β} {f : β → Except (NetworkFault α) γ} (h : OnlyOverflow x)
    (hf : ∀ b, x = .ok b → OnlyOverflow (f b)) : OnlyOverflow (x >>= f) := by
  cases x with
  | ok b => exact hf b rfl
  | error fault => exact fun e he => h e (by cases he; rfl)

theorem mapM {f : γ → Except (NetworkFault α) β} : ∀ {l : List γ}, (∀ x ∈ l, OnlyOverflow (f x)) →
    OnlyOverflow (l.mapM f)
  | [], _ => .ok []
  | x :: l, h => by
    rw [List.mapM_cons]
    exact (h x List.mem_cons_self).bind fun y _ =>
      (mapM fun z hz => h z (List.mem_cons_of_mem x hz)).bind fun ys _ => .ok (y :: ys)

theorem exists_eq_ok {x : Except (NetworkFault α) β} (h : OnlyOverflow x) (hx : x ≠ .error .overflow) :
    ∃ b, x = .ok b := by
  cases x with
  | ok b => exact ⟨b, rfl⟩
  | error fault => exact absurd (congrArg _ (h fault rfl)) hx

end OnlyOverflow

/-! ### Numbering and indexing -/

/-- Entries that share a point only if they have one number are indexed. -/
theorem RegionTree.build_fault {list : List Entry} {fault : Fault}
    (hlist : ∀ e ∈ list, ∀ f ∈ list, f.region.intersects e.region = true → f.id = e.id)
    (h : build list = .error fault) : fault = .overflow := by
  have hperm := entries_arrange list
  have hnone : (arrange list).firstOverlap? = none :=
    (firstOverlap?_eq_none (bounded_arrange list)).mpr fun e he f hf =>
      hlist e (hperm.mem_iff.mp he) f (hperm.mem_iff.mp hf)
  unfold build at h
  split_ifs at h
  · cases h
    rfl
  · simp only [hnone] at h
    cases h

namespace Population

/-- Clusters of seeds that are apart are apart. -/
theorem pairwise_clustersOf {seeds : List (ClusterSeed α)}
    (h : seeds.Pairwise fun s t => s.region.Apart t.region) :
    (clustersOf seeds).Pairwise fun c d => c.region.Apart d.region := by
  have hseeds := ((map_seed_clustersOf seeds).pairwise_iff fun h => Region.Apart.symm h).mpr h
  rwa [List.pairwise_map] at hseeds

theorem onlyOverflow_ofSeeds {seeds : List (ClusterSeed α)}
    (h : seeds.Pairwise fun s t => s.region.Apart t.region) : OnlyOverflow (ofSeeds seeds) := by
  refine (OnlyOverflow.require _).bind fun _ _ => ?_
  have hentries : ∀ e ∈ entriesOf (clustersOf seeds), ∀ f ∈ entriesOf (clustersOf seeds),
      f.region.intersects e.region = true → f.id = e.id := by
    intro e he f hf hmeet
    obtain ⟨c, hc, rfl⟩ := List.mem_map.mp he
    obtain ⟨d, hd, rfl⟩ := List.mem_map.mp hf
    have hsymm : Std.Symm fun c d : Cluster α => c.region.Apart d.region := ⟨fun _ _ h => h.symm⟩
    by_contra hid
    have hapart : d.region.Apart c.region :=
      (pairwise_clustersOf h).forall hd hc fun he => hid (congrArg Cluster.id he)
    exact absurd (hmeet.symm.trans hapart) (by decide)
  dsimp only
  cases hbuild : RegionTree.build (entriesOf (clustersOf seeds)) with
  | ok tree => exact .ok _
  | error fault =>
    rw [RegionTree.build_fault hentries hbuild]
    exact .overflow

/-- A search finds the owner of a point. -/
theorem findPoint?_eq_some {seeds : List (ClusterSeed α)} {p : Population α} (h : ofSeeds seeds = .ok p)
    {x : Point} {c : Cluster α} :
    p.findPoint? x = some c ↔ c ∈ p.clusters ∧ c.region.contains x = true := by
  have S := sound_of_ofSeeds h
  obtain ⟨tree, htree, rfl⟩ := ofSeeds_eq_ok h
  have hperm := RegionTree.entries_of_build htree
  have hfind := RegionTree.find?_eq_find? x (RegionTree.bounded_of_build htree)
  -- Whatever the search finds is the entry of a cluster that holds the point.
  have hfound : ∀ {e : Entry}, tree.entries.find? (·.region.contains x) = some e →
      ∃ d ∈ (clustersOf seeds).toArray, d.region.contains x = true ∧ e.id = d.id := by
    intro e he
    have hex := List.find?_some he
    obtain ⟨d, hd, rfl⟩ := List.mem_map.mp (hperm.mem_iff.mp (List.mem_of_find?_eq_some he))
    exact ⟨d, List.mem_toArray.mpr hd, hex, rfl⟩
  unfold findPoint?
  rw [hfind]
  constructor
  · intro hc
    obtain ⟨id, hid, hc⟩ := Option.bind_eq_some_iff.mp hc
    obtain ⟨e, he, rfl⟩ := Option.map_eq_some_iff.mp hid
    obtain ⟨d, hd, hdx, hid⟩ := hfound he
    rw [hid, S.getElem?_id hd] at hc
    cases hc
    exact ⟨hd, hdx⟩
  · rintro ⟨hc, hcx⟩
    cases he : tree.entries.find? (·.region.contains x) with
    | none =>
      have hmem : (⟨c.region, c.id⟩ : Entry) ∈ tree.entries :=
        hperm.mem_iff.mpr (List.mem_map.mpr ⟨c, List.mem_toArray.mp hc, rfl⟩)
      exact absurd hcx (List.find?_eq_none.mp he _ hmem)
    | some e =>
      obtain ⟨d, hd, hdx, hid⟩ := hfound he
      rw [Option.map_some, Option.bind_some, hid, S.eq_of_contains hd hc hdx hcx]
      exact S.getElem?_id hc

end Population

/-! ### Taking seeds -/

/-- The seeds do not stand for one and the same composition. -/
def ClusterSeed.Distinct (s t : ClusterSeed α) : Prop :=
  s.region.isUnit = true → t.region.isUnit = true → s.composition ≠ t.composition

namespace Builder

variable {b : Builder α} {s : ClusterSeed α}

/-- A placed seed for a composition that is not owned is taken. -/
theorem onlyOverflow_add (hs : s.Placed b.material.space)
    (hnew : s.region.isUnit = true → b.ownsUnit s.composition = false) : OnlyOverflow (b.add s) := by
  obtain ⟨x, hx, hlo⟩ := hs.located
  refine OnlyOverflow.bind ?_ fun _ _ => .ok _
  unfold check
  refine (OnlyOverflow.require _).bind fun _ _ => ?_
  rw [if_neg (by rw [hs.nonempty]; exact Bool.false_ne_true), PhaseSpace.locatePoint_eq_ok.mpr hx]
  refine (OnlyOverflow.require _).bind fun _ _ => ?_
  by_cases hunit : s.region.isUnit = true
  · rw [if_pos hunit, if_neg (not_not.mpr (hlo hunit)), hnew hunit]
    exact .ok ()
  · rw [if_neg hunit]
    exact .ok ()

/-- Placed seeds for different compositions are all taken. -/
theorem onlyOverflow_addAll : ∀ {seeds : List (ClusterSeed α)} {b : Builder α},
    (∀ s ∈ seeds, s.Placed b.material.space) → seeds.Pairwise ClusterSeed.Distinct →
    (∀ s ∈ seeds, s.region.isUnit = true → b.ownsUnit s.composition = false) →
      OnlyOverflow (b.addAll seeds).2
  | [], b, _, _, _ => .ok ()
  | s :: rest, b, hplaced, hdistinct, hnew => by
    obtain ⟨hs, hrest⟩ := List.pairwise_cons.mp hdistinct
    have hadd := onlyOverflow_add (hplaced s List.mem_cons_self) (hnew s List.mem_cons_self)
    rw [addAll]
    cases h : b.add s with
    | error fault =>
      rw [hadd fault h]
      exact .overflow
    | ok b' =>
      obtain ⟨rfl, -⟩ := add_eq_ok h
      refine onlyOverflow_addAll (fun t ht => hplaced t (List.mem_cons_of_mem s ht)) hrest
        fun t ht hunit => ?_
      have hold := hnew t (List.mem_cons_of_mem s ht) hunit
      have hne : s.region.isUnit = true → s.composition ≠ t.composition := fun h => hs t ht h hunit
      simp only [ownsUnit, Array.any_push, Bool.or_eq_false_iff] at hold ⊢
      refine ⟨hold, ?_⟩
      rw [Bool.and_eq_false_iff]
      by_cases h : s.region.isUnit = true
      · exact .inr (beq_eq_false_iff_ne.mpr (hne h))
      · exact .inl (by simpa using h)

/-- Collected seeds whose regions are apart make a network. -/
theorem onlyOverflow_finish [Scalar α] {b : Builder α} (hne : b.seeds.isEmpty = false)
    (h : b.seeds.toList.Pairwise fun s t => s.region.Apart t.region) : OnlyOverflow b.finish := by
  unfold finish
  rw [hne, if_neg Bool.false_ne_true]
  exact (Population.onlyOverflow_ofSeeds h).bind fun p _ => (OnlyOverflow.require _).bind fun _ _ => .ok _

end Builder
end ClusterDynamics
