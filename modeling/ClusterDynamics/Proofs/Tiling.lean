import ClusterDynamics.Proofs.Partition

/-! The cells of a partition share no point. The halves of an axis follow one another, so two children of
    a region are apart on some axis, and what is cut out of them later stays inside. Together with
    `Partition.Exhausts` this says that the cells tile the region. -/

namespace ClusterDynamics

namespace Region

variable {b r s c d : Region} {mask : AxisMask}

/-- The regions have no point in common. -/
def Apart (r s : Region) : Prop := r.intersects s = false

theorem apart_iff : r.Apart s ↔ ∀ x, r.contains x = true → s.contains x = false := by
  unfold Apart
  rw [← Bool.not_eq_true, intersects_iff_exists, not_exists]
  simp only [not_and, Bool.not_eq_true]

theorem Apart.symm (h : r.Apart s) : s.Apart r := by
  rw [apart_iff] at h ⊢
  intro x hs
  by_contra hr
  rw [Bool.not_eq_false] at hr
  rw [h x hr] at hs
  cases hs

theorem Apart.mono (h : r.Apart s) (hc : c.Within r) (hd : d.Within s) : c.Apart d := by
  rw [apart_iff] at h ⊢
  intro x hx
  by_contra hdx
  rw [Bool.not_eq_false] at hdx
  have := h x (hc.contains hx)
  rw [hd.contains hdx] at this
  cases this

/-- A region that ends before another one begins is apart from it. -/
theorem apart_of_le {a : Direction} (h : r.hi.get a ≤ s.lo.get a) : r.Apart s := by
  refine apart_iff.mpr fun x hx => ?_
  by_contra hs
  rw [Bool.not_eq_false] at hs
  have h1 := contains_iff.mp hx a
  have h2 := contains_iff.mp hs a
  omega

/-! ### Cutting -/

/-- The halves of an axis follow one another. -/
theorem pairwise_halves (r : Region) (mask : AxisMask) (a : Direction) :
    (r.halves mask a).Pairwise fun i j => i.1 < j.1 ∧ i.2 ≤ j.1 := by
  unfold halves
  split_ifs with h
  · simp only [Bool.and_eq_true, decide_eq_true_eq] at h
    refine List.pairwise_pair.mpr ⟨?_, le_refl _⟩
    dsimp only
    omega
  · exact List.pairwise_singleton _ _

/-- On the first axis along which the regions begin at different places, `c` ends before `d` begins. -/
def Precedes (c d : Region) : Prop :=
  ∃ a : Direction, (∀ b, b < a → c.lo.get b = d.lo.get b) ∧ c.lo.get a < d.lo.get a ∧ c.hi.get a ≤ d.lo.get a

/-- The children of a region come in the order of the halves that they are made of. -/
theorem precedes_bisect (r : Region) (mask : AxisMask) : (r.bisect mask).Pairwise Precedes := by
  refine List.pairwise_flatMap.mpr ⟨fun w _ => List.pairwise_flatMap.mpr ⟨fun x _ =>
    List.pairwise_flatMap.mpr ⟨fun y _ => List.pairwise_map.mpr ?_, ?_⟩, ?_⟩, ?_⟩
  · refine (pairwise_halves r mask Direction.fourth).imp fun h => ⟨Direction.fourth, fun b hb => ?_, h⟩
    match b, hb with
    | 0, _ | 1, _ | 2, _ => rfl
  · refine (pairwise_halves r mask Direction.third).imp fun {y y'} h c hc d hd => ?_
    obtain ⟨_, -, rfl⟩ := List.mem_map.mp hc
    obtain ⟨_, -, rfl⟩ := List.mem_map.mp hd
    refine ⟨Direction.third, fun b hb => ?_, h⟩
    match b, hb with
    | 0, _ | 1, _ => rfl
  · refine (pairwise_halves r mask Direction.second).imp fun {x x'} h c hc d hd => ?_
    simp only [List.mem_flatMap, List.mem_map] at hc hd
    obtain ⟨_, -, _, -, rfl⟩ := hc
    obtain ⟨_, -, _, -, rfl⟩ := hd
    refine ⟨Direction.second, fun b hb => ?_, h⟩
    match b, hb with
    | 0, _ => rfl
  · refine (pairwise_halves r mask Direction.first).imp fun {w w'} h c hc d hd => ?_
    simp only [List.mem_flatMap, List.mem_map] at hc hd
    obtain ⟨_, -, _, -, _, -, rfl⟩ := hc
    obtain ⟨_, -, _, -, _, -, rfl⟩ := hd
    exact ⟨Direction.first, fun b hb => absurd hb (Fin.not_lt_zero b), h⟩

/-- The children of a region share no point. -/
theorem pairwise_bisect (r : Region) (mask : AxisMask) : (r.bisect mask).Pairwise Apart :=
  (precedes_bisect r mask).imp fun ⟨_, _, _, hend⟩ => apart_of_le hend

/-! ### Room -/

theorem lattice_subset (h : r.Within b) : r.lattice ⊆ b.lattice := fun _ hx =>
  mem_lattice.mpr (h.contains (mem_lattice.mp hx))

theorem volume_le_of_within (h : r.Within b) : r.volume ≤ b.volume := by
  rw [← card_lattice, ← card_lattice]
  exact Int.ofNat_le.mpr (Finset.card_le_card (lattice_subset h))

/-- Regions of which no two share a point have no more room together than the region around them. -/
theorem sum_volume_le {l : List Region} (hwithin : ∀ r ∈ l, r.Within b) (hapart : l.Pairwise Apart) :
    (l.map volume).sum ≤ b.volume := by
  have hcover : ∃ s ⊆ b.lattice, (s.card : Int) = (l.map volume).sum ∧ ∀ x ∈ s, ∃ r ∈ l, r.contains x = true := by
    induction l with
    | nil => exact ⟨∅, Finset.empty_subset _, rfl, fun x hx => absurd hx (Finset.notMem_empty x)⟩
    | cons r l ih =>
      obtain ⟨hr, hl⟩ := List.pairwise_cons.mp hapart
      obtain ⟨s, hs, hcard, hcontains⟩ := ih (fun q hq => hwithin q (List.mem_cons_of_mem r hq)) hl
      have hdisjoint : Disjoint r.lattice s := by
        refine Finset.disjoint_left.mpr fun x hxr hxs => ?_
        obtain ⟨q, hq, hxq⟩ := hcontains x hxs
        have hout := apart_iff.mp (hr q hq) x (mem_lattice.mp hxr)
        rw [hxq] at hout
        cases hout
      refine ⟨r.lattice ∪ s, Finset.union_subset (lattice_subset (hwithin r List.mem_cons_self)) hs, ?_, ?_⟩
      · rw [Finset.card_union_of_disjoint hdisjoint, Nat.cast_add, card_lattice, hcard, List.map_cons,
          List.sum_cons]
      · intro x hx
        rcases Finset.mem_union.mp hx with hx | hx
        · exact ⟨r, List.mem_cons_self, mem_lattice.mp hx⟩
        · obtain ⟨q, hq, hxq⟩ := hcontains x hx
          exact ⟨q, List.mem_cons_of_mem r hq, hxq⟩
  obtain ⟨s, hs, hcard, -⟩ := hcover
  rw [← hcard, ← card_lattice]
  exact Int.ofNat_le.mpr (Finset.card_le_card hs)

end Region

/-! ### Cells -/

namespace Partition

variable {rule : PartitionRule}

/-- No two cells share a point. -/
def Tiles (p : Partition) : Prop := p.cells.Pairwise fun c d => c.region.Apart d.region

/-- The cells of the partition of a region share no point. -/
theorem tiles_ofRegion (rule : PartitionRule) (r : Region) : (ofRegion rule r).Tiles := by
  fun_induction ofRegion rule r with
  | case1 r hmeet => exact List.pairwise_singleton _ _
  | case2 r hmeet hcut ih =>
    refine List.pairwise_flatMap.mpr ⟨fun q hq => ?_, List.pairwise_map.mpr ?_⟩
    · obtain ⟨c, -, rfl⟩ := List.mem_map.mp hq
      exact ih c
    · have hchildren : (r.bisect (rule.refine r)).attach.Pairwise fun c d => c.val.Apart d.val := by
        refine List.pairwise_map.mp ?_
        rw [List.attach_map_subtype_val]
        exact Region.pairwise_bisect r _
      -- Cells stay inside the children that they are cut from.
      refine hchildren.imp fun {c d} h x hx y hy => ?_
      exact h.mono ((exhausts_ofRegion rule c).within x hx) ((exhausts_ofRegion rule d).within y hy)
  | case3 r hmeet hcut => exact List.pairwise_singleton _ _

theorem tiles_of_ofRegion? (r : Region) {p : Partition} (h : ofRegion? rule r = some p) : p.Tiles := by
  rw [eq_ofRegion r h]
  exact tiles_ofRegion rule r

/-- The regions with one fate share no point. -/
theorem Tiles.regions {p : Partition} (h : p.Tiles) (fate : Fate) : (p.regions fate).Pairwise Region.Apart :=
  List.pairwise_map.mpr (List.Pairwise.filter _ h)

end Partition
end ClusterDynamics
