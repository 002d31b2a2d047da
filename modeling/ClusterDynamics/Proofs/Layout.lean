import ClusterDynamics.Network
import ClusterDynamics.Proofs.SpatialIndex

/-! How state slots are laid out. A cluster owns its own number and one slot per grouped axis, and the
    slots of all clusters together are the numbers below `dof`, each once. Clusters are numbered by
    their place, and no two of them share a point. -/

namespace ClusterDynamics

/-! ### Lists -/

/-- In an ascending list, counting the smaller members numbers the members. -/
theorem map_rank {n : Nat} : ∀ {l : List (Fin n)} (next : Nat), l.Pairwise (· < ·) →
    l.map (fun a => next + (l.filter fun b => b < a).length) = List.range' next l.length
  | [], _, _ => rfl
  | a :: l, next, h => by
    obtain ⟨ha, hl⟩ := List.pairwise_cons.mp h
    have hhead : (a :: l).filter (fun b => b < a) = [] :=
      List.filter_eq_nil_iff.mpr fun b hb => by
        rcases List.mem_cons.mp hb with rfl | hb
        · simp
        · simpa using (ha b hb).le
    have htail : l.map (fun b => next + ((a :: l).filter fun c => c < b).length) =
        l.map (fun b => next + 1 + (l.filter fun c => c < b).length) :=
      List.map_congr_left fun b hb => by
        rw [List.filter_cons_of_pos (by simpa using ha b hb), List.length_cons]
        omega
    rw [List.map_cons, hhead, htail, map_rank (next + 1) hl, List.length_cons, List.range'_succ]
    rfl

theorem filterMap_ite {β γ : Type} (p : β → Prop) [DecidablePred p] (f : β → γ) (l : List β) :
    l.filterMap (fun a => if p a then some (f a) else none) = (l.filter fun a => p a).map f := by
  induction l with
  | nil => rfl
  | cons a l ih => by_cases h : p a <;> simp [h, ih]

variable {α : Type}

/-! ### One cluster -/

/-- The slots of a cluster: its number, then the moments along its axes. -/
theorem Cluster.slots_eq (c : Cluster α) :
    c.slots = (0, c.id) :: directions.filterMap fun a => (c.moments.get a).map fun s => (a.succ, s) := by
  have hget : ∀ a : Direction, c.slot? a.succ.val = c.moments.get a := fun a => by
    show c.moments[a.val]?.join = c.moments.get a
    rw [Vector.getElem?_eq_getElem a.isLt]
    rfl
  have hb : basisIndices = 0 :: directions.map Fin.succ := rfl
  rw [Cluster.slots, hb, List.filterMap_cons, List.filterMap_map]
  simp only [Function.comp_def, hget]
  rfl

theorem Cluster.mem_slots {c : Cluster α} {k : BasisIndex} {slot : Nat} :
    (k, slot) ∈ c.slots ↔ c.slot? k.val = some slot := by
  rw [Cluster.slots, List.mem_filterMap]
  constructor
  · rintro ⟨j, -, hj⟩
    obtain ⟨s, hs, he⟩ := Option.map_eq_some_iff.mp hj
    cases he
    exact hs
  · intro h
    exact ⟨k, mem_basisIndices k, by rw [h]; rfl⟩

namespace ClusterSeed

theorem get_momentSlots (s : ClusterSeed α) (next : Nat) (a : Direction) :
    (s.momentSlots next).get a =
      if 1 < s.region.width a then
        some (next + (s.region.groupedAxes.filter fun b => b < a).length) else none :=
  get_ofFn _ a

/-- The moments of a cluster take consecutive slots. -/
theorem slotsOf_toCluster (s : ClusterSeed α) (id next : Nat) :
    Network.slotsOf (s.toCluster id next) = id :: List.range' next s.region.groupedAxes.length := by
  have hsorted : s.region.groupedAxes.Pairwise (· < ·) :=
    List.Pairwise.filter _ (by decide)
  rw [Network.slotsOf, Cluster.slots_eq, List.map_cons, List.map_filterMap, ← map_rank next hsorted,
    Region.groupedAxes, ← filterMap_ite]
  congr 1
  refine List.filterMap_congr fun a _ => ?_
  rw [show (s.toCluster id next).moments = s.momentSlots next from rfl, get_momentSlots]
  split_ifs <;> rfl

end ClusterSeed

/-! ### All clusters -/

namespace Population

/-- Every cluster grows from its seed, under the number of its place. -/
theorem getElem?_assign : ∀ (id next : Nat) (seeds : List (ClusterSeed α)) (i : Nat) (c : Cluster α),
    (assign id next seeds)[i]? = some c →
      ∃ s ∈ seeds, ∃ free, c = s.toCluster (id + i) free
  | _, _, [], i, c, h => by simp [assign] at h
  | id, next, s :: rest, 0, c, h => by
    rw [assign, List.getElem?_cons_zero] at h
    cases h
    exact ⟨s, List.mem_cons_self, next, rfl⟩
  | id, next, s :: rest, i + 1, c, h => by
    rw [assign, List.getElem?_cons_succ] at h
    obtain ⟨s', hs', free, rfl⟩ := getElem?_assign _ _ rest i c h
    exact ⟨s', List.mem_cons_of_mem _ hs', free, by rw [Nat.add_right_comm, Nat.add_assoc]⟩

/-- The slots of numbered clusters are their numbers and, behind them, one slot per grouped axis. -/
theorem slots_assign : ∀ (id next : Nat) (seeds : List (ClusterSeed α)),
    ((assign id next seeds).flatMap Network.slotsOf).Perm
      (List.range' id seeds.length ++
        List.range' next (seeds.map fun s => s.region.groupedAxes.length).sum)
  | _, _, [] => .nil
  | id, next, s :: rest => by
    have ih := slots_assign (id + 1) (next + s.region.groupedAxes.length) rest
    rw [assign, List.flatMap_cons, ClusterSeed.slotsOf_toCluster, List.length_cons, List.map_cons,
      List.sum_cons, List.range'_succ, List.cons_append, List.cons_append, ← List.range'_append_1]
    exact ((ih.append_left _).trans (List.perm_append_comm_assoc _ _ _)).cons id

/-- Unit seeds first: numbering only reorders. -/
theorem numbering_perm (seeds : List (ClusterSeed α)) : (numbering seeds).Perm seeds :=
  List.filter_append_perm _ seeds

theorem dofOf_eq (seeds : List (ClusterSeed α)) :
    dofOf seeds = seeds.length + (seeds.map fun s => s.region.groupedAxes.length).sum := by
  have hfold : ∀ (l : List (ClusterSeed α)) (n : Nat),
      l.foldl (fun n s => n + s.region.groupedAxes.length) n =
        n + (l.map fun s => s.region.groupedAxes.length).sum := by
    intro l
    induction l with
    | nil => exact fun _ => rfl
    | cons s l ih =>
      intro n
      rw [List.foldl_cons, ih, List.map_cons, List.sum_cons, Nat.add_assoc]
  exact hfold seeds seeds.length

/-- The slots of all clusters are the numbers below `dof`. -/
theorem slots_clustersOf (seeds : List (ClusterSeed α)) :
    ((clustersOf seeds).flatMap Network.slotsOf).Perm (List.range (dofOf seeds)) := by
  have hperm := numbering_perm seeds
  have hslots := slots_assign 0 seeds.length (numbering seeds)
  rw [hperm.length_eq, (hperm.map _).sum_eq] at hslots
  rw [dofOf_eq, List.range_eq_range', ← List.range'_append_1, Nat.zero_add]
  exact hslots

/-- Some cluster's region holds the point. -/
def owns (p : Population α) (x : Point) : Bool := p.clusters.any fun c => c.region.contains x

theorem owns_iff {p : Population α} {x : Point} :
    p.owns x = true ↔ ∃ c ∈ p.clusters, c.region.contains x = true := by
  rw [owns, Array.any_eq_true']

theorem findUnit?_eq_some {p : Population α} {c : Composition} {k : Cluster α}
    (h : p.findUnit? c = some k) : k ∈ p.clusters ∧ k.isGrouped = false ∧ k.composition = c := by
  have hfound := Array.find?_some h
  rw [Bool.and_eq_true, beq_iff_eq, Bool.not_eq_true'] at hfound
  exact ⟨Array.mem_of_find?_eq_some h, hfound⟩

/-- What holds of the population of any list of seeds. -/
structure Sound (p : Population α) : Prop where
  /-- Clusters are numbered by their place. -/
  id : ∀ (i : Nat) (c : Cluster α), p.clusters[i]? = some c → c.id = i
  grouped : ∀ c ∈ p.clusters, c.isGrouped = !c.region.isUnit
  moments : ∀ c ∈ p.clusters, ∀ a, (c.moments.get a).isSome = decide (1 < c.region.width a)
  slots : (p.clusters.toList.flatMap Network.slotsOf).Perm (List.range p.dof)
  query : ∀ box, (p.tree.query box).Perm
    ((p.clusters.toList.filter fun c => c.region.intersects box).map (·.id))
  /-- Clusters that share a point have the same number. -/
  disjoint : ∀ c ∈ p.clusters, ∀ d ∈ p.clusters, d.region.intersects c.region = true → d.id = c.id

/-- A cluster grows from one of the seeds, numbered by its place. -/
theorem seed_of_clustersOf {seeds : List (ClusterSeed α)} {i : Nat} {c : Cluster α}
    (h : (clustersOf seeds)[i]? = some c) : ∃ s ∈ seeds, ∃ free, c = s.toCluster i free := by
  obtain ⟨s, hs, free, rfl⟩ := getElem?_assign _ _ _ i c h
  exact ⟨s, (numbering_perm seeds).mem_iff.mp hs, free, by rw [Nat.zero_add]⟩

theorem seed_of_mem {seeds : List (ClusterSeed α)} {c : Cluster α} (h : c ∈ (clustersOf seeds).toArray) :
    ∃ s ∈ seeds, ∃ i free, c = s.toCluster i free := by
  obtain ⟨i, hi⟩ := List.mem_iff_getElem?.mp (List.mem_toArray.mp h)
  obtain ⟨s, hs, free, rfl⟩ := seed_of_clustersOf hi
  exact ⟨s, hs, i, free, rfl⟩

theorem ofSeeds_eq_ok {seeds : List (ClusterSeed α)} {p : Population α}
    (h : ofSeeds seeds = .ok p) :
    ∃ tree, RegionTree.build (entriesOf (clustersOf seeds)) = .ok tree ∧
      p = ⟨(clustersOf seeds).toArray, tree, dofOf seeds⟩ := by
  unfold ofSeeds at h
  cases hfit : seeds.all (·.layoutFits) with
  | false =>
    rw [hfit] at h
    cases h
  | true =>
    rw [hfit] at h
    cases htree : RegionTree.build (entriesOf (clustersOf seeds)) with
    | error fault =>
      simp only [htree] at h
      cases h
    | ok tree =>
      simp only [htree] at h
      cases h
      exact ⟨tree, rfl, rfl⟩

theorem isGrouped_toCluster (s : ClusterSeed α) (id next : Nat) :
    (s.toCluster id next).isGrouped = !s.region.isUnit := by
  show (s.kind == .grouped) = !s.region.isUnit
  unfold ClusterSeed.kind
  cases s.region.isUnit <;> cases s.composition.isMixed <;> rfl

/-- Every population that grows from seeds is sound. -/
theorem sound_of_ofSeeds {seeds : List (ClusterSeed α)} {p : Population α}
    (h : ofSeeds seeds = .ok p) : p.Sound := by
  obtain ⟨tree, htree, rfl⟩ := ofSeeds_eq_ok h
  exact {
    id := fun i c hi => by
      rw [List.getElem?_toArray] at hi
      obtain ⟨s, _, free, rfl⟩ := seed_of_clustersOf hi
      rfl
    grouped := fun c hc => by
      obtain ⟨s, _, i, free, rfl⟩ := seed_of_mem hc
      exact isGrouped_toCluster s i free
    moments := fun c hc a => by
      obtain ⟨s, _, i, free, rfl⟩ := seed_of_mem hc
      rw [show (s.toCluster i free).moments = s.momentSlots free from rfl,
        ClusterSeed.get_momentSlots, show (s.toCluster i free).region = s.region from rfl]
      split_ifs with hw <;> simp [hw]
    slots := slots_clustersOf seeds
    query := fun box => by
      have := RegionTree.query_perm htree box
      rwa [entriesOf, List.filter_map, List.map_map] at this
    disjoint := fun c hc d hd hm => by
      have hmem : ∀ x ∈ (clustersOf seeds).toArray,
          (⟨x.region, x.id⟩ : Entry) ∈ entriesOf (clustersOf seeds) :=
        fun x hx => List.mem_map.mpr ⟨x, List.mem_toArray.mp hx, rfl⟩
      exact RegionTree.id_eq_of_build htree (hmem c hc) (hmem d hd) hm }

namespace Sound
variable {p : Population α} (S : p.Sound)
include S

theorem getElem?_id {c : Cluster α} (hc : c ∈ p.clusters) : p.clusters[c.id]? = some c := by
  obtain ⟨i, hi⟩ := Array.mem_iff_getElem?.mp hc
  rwa [S.id i c hi]

theorem eq_of_id {c d : Cluster α} (hc : c ∈ p.clusters) (hd : d ∈ p.clusters) (h : c.id = d.id) :
    c = d := by
  have hci := S.getElem?_id hc
  rw [h, S.getElem?_id hd] at hci
  exact (Option.some.inj hci).symm

/-- A point has at most one owner. -/
theorem eq_of_contains {c d : Cluster α} (hc : c ∈ p.clusters) (hd : d ∈ p.clusters) {x : Point}
    (h : c.region.contains x = true) (h' : d.region.contains x = true) : c = d :=
  S.eq_of_id hc hd (S.disjoint d hd c hc (Region.intersects_iff_exists.mpr ⟨x, h, h'⟩))

theorem isUnit {s : Cluster α} (hs : s ∈ p.clusters) (h : s.isGrouped = false) : s.region.isUnit = true := by
  have := S.grouped s hs
  rwa [h, eq_comm, Bool.not_eq_eq_eq_not, Bool.not_false] at this

theorem region?_id {c : Cluster α} (hc : c ∈ p.clusters) : p.region? c.id = some c.region := by
  rw [region?, S.getElem?_id hc, Option.map_some]

theorem mem_query {box : Region} {i : Nat} :
    i ∈ p.tree.query box ↔ ∃ c ∈ p.clusters, c.region.intersects box = true ∧ c.id = i := by
  rw [(S.query box).mem_iff, List.mem_map]
  simp only [List.mem_filter, Array.mem_toList_iff, and_assoc]

theorem nodup_ids : (p.clusters.toList.map (·.id)).Nodup := by
  rw [List.nodup_iff_injective_get]
  intro i j hij
  simp only [List.get_eq_getElem, List.getElem_map, Array.getElem_toList] at hij
  have hi := S.id i _ (Array.getElem?_eq_getElem (by simpa using i.isLt))
  have hj := S.id j _ (Array.getElem?_eq_getElem (by simpa using j.isLt))
  exact Fin.ext (hi.symm.trans (hij.trans hj))

theorem nodup_query (box : Region) : (p.tree.query box).Nodup :=
  (S.query box).nodup_iff.mpr ((List.filter_sublist.map _).nodup S.nodup_ids)

/-- Every slot of every cluster is below `dof`. -/
theorem slot_lt {c : Cluster α} (hc : c ∈ p.clusters) {k : BasisIndex} {slot : Nat}
    (h : (k, slot) ∈ c.slots) : slot < p.dof := by
  rw [← List.mem_range, ← S.slots.mem_iff, List.mem_flatMap]
  exact ⟨c, Array.mem_toList_iff.mpr hc, List.mem_map.mpr ⟨(k, slot), h, rfl⟩⟩

theorem nodup_slots : (p.clusters.toList.flatMap Network.slotsOf).Nodup :=
  S.slots.nodup_iff.mpr List.nodup_range

end Sound
end Population
end ClusterDynamics
