import ClusterDynamics.Proofs.Coverage
import ClusterDynamics.Proofs.ListSum

/-! The run of the generator. It visits regions depth first: one that its rule prunes is left alone, one that
    is cut hands the run to its children, any other adds a seed or counts as dropped. Whatever the rule says,
    the run ends and collects what the partition of the bounds says: the regions of the seeds, the dropped
    and the pruned ones are the bounds cut up, and the summary counts them. -/

namespace ClusterDynamics

variable {α : Type}

/-! ### The size of a region -/

namespace Region

/-- The number of values in a range, of which an empty one counts as one. -/
def stretch (i : Int × Int) : Nat := max 1 (i.2 - i.1).toNat

/-- The number of points of a region, its empty axes counted as one value. No cut changes the total. -/
def bulk (r : Region) : Nat :=
  stretch (r.lo.get Direction.first, r.hi.get Direction.first) *
    (stretch (r.lo.get Direction.second, r.hi.get Direction.second) *
      (stretch (r.lo.get Direction.third, r.hi.get Direction.third) *
        stretch (r.lo.get Direction.fourth, r.hi.get Direction.fourth)))

theorem one_le_bulk (r : Region) : 1 ≤ r.bulk := by
  have hpos : ∀ i, 0 < stretch i := fun i => Nat.lt_of_lt_of_le Nat.one_pos (le_max_left 1 _)
  exact Nat.mul_pos (hpos _) (Nat.mul_pos (hpos _) (Nat.mul_pos (hpos _) (hpos _)))

theorem sum_stretch_halves (r : Region) (mask : AxisMask) (a : Direction) :
    ((r.halves mask a).map stretch).sum = stretch (r.lo.get a, r.hi.get a) := by
  unfold halves
  split_ifs with h
  · have hw : r.hi.get a - r.lo.get a = r.width a := rfl
    simp only [Bool.and_eq_true, decide_eq_true_eq] at h
    simp only [List.map_cons, List.map_nil, List.sum_cons, List.sum_nil, stretch]
    omega
  · simp only [List.map_cons, List.map_nil, List.sum_cons, List.sum_nil, Nat.add_zero]

theorem sum_bulk_bisect (r : Region) (mask : AxisMask) : ((r.bisect mask).map bulk).sum = r.bulk := by
  have hbulk : ∀ w x y z, bulk (ofRanges w x y z) = stretch w * (stretch x * (stretch y * stretch z)) :=
    fun _ _ _ _ => rfl
  simp only [bisect, sum_map_flatMap, List.map_map, Function.comp_def, hbulk, List.sum_map_mul_left,
    List.sum_map_mul_right, sum_stretch_halves]
  rfl

end Region

/-! ### Summaries -/

namespace PartitionStats

/-- The counts of two parts taken together. -/
def add (s t : PartitionStats) : PartitionStats :=
  ⟨s.visited + t.visited, s.admitted + t.admitted, s.grouped + t.grouped,
    s.droppedRegions + t.droppedRegions, s.droppedCompositions + t.droppedCompositions⟩

theorem add_assoc (s t u : PartitionStats) : (s.add t).add u = s.add (t.add u) := by
  simp only [add, Nat.add_assoc, Int.add_assoc]

theorem add_one (s : PartitionStats) :
    s.add (Partition.stats ⟨1, []⟩) = { s with visited := s.visited + 1 } := by
  exact congrArg (PartitionStats.mk _ _ _ _) (Int.add_zero _)

end PartitionStats

/-! ### Partitions joined one by one -/

namespace Partition

variable {rule : PartitionRule}

/-- The cells of one partition followed by those of another. -/
def append (p q : Partition) : Partition := ⟨p.visited + q.visited, p.cells ++ q.cells⟩

theorem foldl_append : ∀ (parts : List Partition) (p : Partition), parts.foldl append p =
    ⟨parts.foldl (fun n q => n + q.visited) p.visited, p.cells ++ parts.flatMap (·.cells)⟩
  | [], p => by simp
  | q :: parts, p => by
    rw [List.foldl_cons, foldl_append parts, List.flatMap_cons, ← List.append_assoc]
    rfl

theorem join_eq_foldl (parts : List Partition) : join parts = parts.foldl append ⟨1, []⟩ := by
  rw [foldl_append]
  rfl

theorem visited_join (parts : List Partition) :
    (join parts).visited = 1 + (parts.map (·.visited)).sum := by
  rw [join, List.sum_eq_foldl, ← List.foldl_map]
  exact (List.foldl_assoc : (parts.map (·.visited)).foldl (fun n k : Nat => n + k) (1 + 0) = _)

theorem regions_append (p q : Partition) (fate : Fate) :
    (p.append q).regions fate = p.regions fate ++ q.regions fate := by
  rw [regions, append, List.filter_append, List.map_append]
  rfl

/-! ### How many regions are visited -/

theorem length_cells_le (rule : PartitionRule) (r : Region) : (ofRegion rule r).cells.length ≤ r.bulk := by
  fun_induction ofRegion rule r with
  | case1 r hmeet => exact r.one_le_bulk
  | case2 r hmeet hcut ih =>
    calc (join ((r.bisect (rule.refine r)).attach.map fun c => ofRegion rule c.val)).cells.length
        = ((r.bisect (rule.refine r)).attach.map fun c => (ofRegion rule c.val).cells.length).sum := by
          rw [join, List.length_flatMap, List.map_map]
          rfl
      _ ≤ ((r.bisect (rule.refine r)).attach.map fun c => c.val.bulk).sum :=
          List.sum_le_sum fun c _ => ih c
      _ = r.bulk := by
          rw [← Region.sum_bulk_bisect r (rule.refine r), List.attach_map_val]
  | case3 r hmeet hcut => exact r.one_le_bulk

/-- A region that is cut has at least two children, so the cells are more than half of what is visited. -/
theorem visited_lt (rule : PartitionRule) (r : Region) :
    (ofRegion rule r).visited < 2 * (ofRegion rule r).cells.length := by
  fun_induction ofRegion rule r with
  | case1 r hmeet => exact Nat.one_lt_two
  | case2 r hmeet hcut ih =>
    rw [visited_join, join, List.length_flatMap, List.map_map, List.map_map]
    have hcount : ((r.bisect (rule.refine r)).attach.map fun c => (ofRegion rule c.val).visited + 1).sum ≤
        ((r.bisect (rule.refine r)).attach.map fun c => 2 * (ofRegion rule c.val).cells.length).sum :=
      List.sum_le_sum fun c _ => ih c
    rw [List.sum_map_add, List.sum_map_mul_left, List.map_const', List.sum_replicate, List.length_attach,
      smul_eq_mul] at hcount
    -- Each child is one short of twice its cells: two of them pay for the region itself.
    simp only [Function.comp_def]
    omega
  | case3 r hmeet hcut => exact Nat.one_lt_two

/-! ### What the cells amount to -/

theorem stats_eq (p : Partition) : p.stats =
    ⟨p.visited, (p.regions .admitted).length, (p.regions .admitted).countP fun r => !r.isUnit,
      (p.regions .dropped).length, ((p.regions .dropped).map Region.volume).sum⟩ := by
  rw [stats, List.countP_eq_length_filter, List.sum_eq_foldl, List.foldl_map]

theorem stats_append (p q : Partition) : (p.append q).stats = p.stats.add q.stats := by
  rw [stats_eq, stats_eq, stats_eq, regions_append, regions_append, List.length_append, List.length_append,
    List.countP_append, List.map_append, List.sum_append]
  rfl

theorem regions_perm (p : Partition) :
    (p.regions .admitted ++ (p.regions .dropped ++ p.regions .pruned)).Perm (p.cells.map (·.region)) := by
  obtain ⟨visited, cells⟩ := p
  induction cells with
  | nil => exact .nil
  | cons c cells ih =>
    have hcons : ∀ fate, regions ⟨visited, c :: cells⟩ fate =
        if c.fate = fate then c.region :: regions ⟨visited, cells⟩ fate else regions ⟨visited, cells⟩ fate := by
      intro fate
      simp only [regions, List.filter_cons, beq_iff_eq]
      split_ifs <;> rfl
    rw [hcons, hcons, hcons, List.map_cons]
    cases c.fate with
    | admitted => exact ih.cons _
    | dropped => exact List.perm_middle.trans (ih.cons _)
    | pruned =>
      refine ((List.Perm.append_left _ List.perm_middle).trans List.perm_middle).trans (ih.cons _)

end Partition

theorem Cell.Settled.intersects {rule : PartitionRule} {c : Cell} (S : c.Settled rule) (h : c.fate ≠ .pruned) :
    rule.intersects c.region = true := by
  rw [← Bool.not_eq_false]
  exact mt S.pruned_iff.mpr h

theorem mapM_eq_error {β γ ε : Type} {f : β → Except ε γ} {e : ε} : ∀ {l : List β}, l.mapM f = .error e →
    ∃ x ∈ l, f x = .error e
  | [], h => nomatch h
  | x :: l, h => by
    rw [List.mapM_cons] at h
    cases hx : f x with
    | error fault =>
      rw [hx] at h
      cases h
      exact ⟨x, List.mem_cons_self, hx⟩
    | ok y =>
      rw [hx] at h
      cases hl : l.mapM f with
      | error fault =>
        obtain ⟨z, hz, hfault⟩ := mapM_eq_error hl
        rw [hl] at h
        cases h
        exact ⟨z, List.mem_cons_of_mem _ hz, hfault⟩
      | ok ys =>
        rw [hl] at h
        cases h

/-! ### Runs -/

/-- What a generator has collected on its way through the regions. -/
structure GeneratorRun (α : Type) where
  seeds : List (ClusterSeed α)
  stats : PartitionStats

namespace GeneratorRun

/-- Nothing is collected yet. -/
def start : GeneratorRun α := ⟨[], ⟨0, 0, 0, 0, 0⟩⟩

/-- The run after it has looked at one more region. -/
def look (run : GeneratorRun α) : GeneratorRun α :=
  ⟨run.seeds, { run.stats with visited := run.stats.visited + 1 }⟩

/-- The run after it has taken the seed of a region. -/
def accept (run : GeneratorRun α) (r : Region) (s : ClusterSeed α) : GeneratorRun α :=
  ⟨run.seeds ++ [s],
    { run.stats with
      admitted := run.stats.admitted + 1
      grouped := if r.isUnit then run.stats.grouped else run.stats.grouped + 1 }⟩

/-- The run after it has given up a region with all its compositions. -/
def drop (run : GeneratorRun α) (r : Region) : GeneratorRun α :=
  ⟨run.seeds,
    { run.stats with
      droppedRegions := run.stats.droppedRegions + 1
      droppedCompositions := run.stats.droppedCompositions + r.volume }⟩

/-- The run after a partition whose admitted regions have the given seeds. -/
def extend (run : GeneratorRun α) (p : Partition) (seeds : List (ClusterSeed α)) : GeneratorRun α :=
  ⟨run.seeds ++ seeds, run.stats.add p.stats⟩

end GeneratorRun

namespace Material

variable [Scalar α] {m : Material α}

/-- Looks at a region: passes by one that the rule misses, goes through the children of one that is cut,
    and takes or drops a region that stays whole. -/
def visit (m : Material α) (r : Region) (run : GeneratorRun α) :
    Except (NetworkFault α) (GeneratorRun α) :=
  if !m.rule.intersects r then .ok run.look
  else if _h : 1 < (r.bisect (m.rule.refine r)).length then
    (r.bisect (m.rule.refine r)).attach.foldlM (fun run c => m.visit c.val run) run.look
  else if m.rule.selects r then (m.seedFor r).map (run.look.accept r)
  else .ok (run.look.drop r)
termination_by r.span
decreasing_by exact Region.span_lt_of_mem_bisect c.property (by assumption)

/-- The run after the regions of a partition. -/
def collect (m : Material α) (p : Partition) (run : GeneratorRun α) :
    Except (NetworkFault α) (GeneratorRun α) :=
  ((p.regions .admitted).mapM m.seedFor).map (run.extend p)

theorem collect_append (p q : Partition) (run : GeneratorRun α) :
    m.collect (p.append q) run = m.collect p run >>= m.collect q := by
  rw [collect, collect, Partition.regions_append, List.mapM_append]
  cases (p.regions .admitted).mapM m.seedFor with
  | error fault => rfl
  | ok seeds =>
    change _ = m.collect q (run.extend p seeds)
    rw [collect]
    cases (q.regions .admitted).mapM m.seedFor with
    | error fault => rfl
    | ok rest =>
      refine congrArg Except.ok ?_
      simp only [GeneratorRun.extend, Partition.stats_append, PartitionStats.add_assoc, List.append_assoc]

theorem collect_foldl : ∀ (parts : List Partition) (p : Partition) (run : GeneratorRun α),
    m.collect (parts.foldl Partition.append p) run =
      m.collect p run >>= fun run => parts.foldlM (fun run q => m.collect q run) run
  | [], p, run => (bind_pure (m.collect p run)).symm
  | q :: parts, p, run => by
    rw [List.foldl_cons, collect_foldl parts, collect_append, bind_assoc]
    rfl

theorem collect_join (parts : List Partition) (run : GeneratorRun α) :
    m.collect (.join parts) run = parts.foldlM (fun run q => m.collect q run) run.look := by
  have hlook : run.extend ⟨1, []⟩ [] = run.look := by
    rw [GeneratorRun.extend, List.append_nil]
    exact congrArg (GeneratorRun.mk run.seeds) (PartitionStats.add_one _)
  rw [Partition.join_eq_foldl, collect_foldl, ← hlook]
  rfl

theorem collect_pruned (r : Region) (run : GeneratorRun α) :
    m.collect (.single r .pruned) run = .ok run.look := by
  have hextend : run.extend (.single r .pruned) [] = run.look := by
    rw [GeneratorRun.extend, List.append_nil]
    exact congrArg (GeneratorRun.mk run.seeds) (PartitionStats.add_one _)
  exact congrArg Except.ok hextend

theorem collect_dropped (r : Region) (run : GeneratorRun α) :
    m.collect (.single r .dropped) run = .ok (run.look.drop r) := by
  have hstats : (Partition.single r .dropped).stats = ⟨1, 0, 0, 1, r.volume⟩ :=
    congrArg (PartitionStats.mk 1 0 0 1) (Int.zero_add _)
  have hextend : run.extend (.single r .dropped) [] = run.look.drop r := by
    rw [GeneratorRun.extend, List.append_nil, hstats]
    rfl
  exact congrArg Except.ok hextend

theorem collect_admitted (r : Region) (run : GeneratorRun α) :
    m.collect (.single r .admitted) run = (m.seedFor r).map (run.look.accept r) := by
  have hstats : (Partition.single r .admitted).stats = ⟨1, 1, if r.isUnit then 0 else 1, 0, 0⟩ := by
    rw [Partition.stats_eq]
    cases hunit : r.isUnit <;> simp [Partition.single, Partition.regions, hunit]
  have hextend : ∀ s, run.extend (.single r .admitted) [s] = run.look.accept r s := by
    intro s
    rw [GeneratorRun.extend, hstats]
    cases hunit : r.isUnit <;>
      simp [GeneratorRun.look, GeneratorRun.accept, PartitionStats.add, hunit]
  have hregions : (Partition.single r .admitted).regions .admitted = [r] := rfl
  rw [collect, hregions, List.mapM_cons]
  cases m.seedFor r with
  | error fault => rfl
  | ok s => exact congrArg Except.ok (hextend s)

/-- A visit collects what the partition of the region says. -/
theorem visit_eq (m : Material α) (r : Region) (run : GeneratorRun α) :
    m.visit r run = m.collect (.ofRegion m.rule r) run := by
  fun_induction visit m r run with
  | case1 r run hmeet =>
    rw [Partition.ofRegion, if_pos hmeet]
    exact (collect_pruned r run).symm
  | case2 r run hmeet hcut ih =>
    rw [Partition.ofRegion, if_neg hmeet, dif_pos hcut, collect_join, List.foldlM_map]
    simp only [ih]
  | case3 r run hmeet hcut hselects =>
    rw [Partition.ofRegion, if_neg hmeet, dif_neg hcut, if_pos hselects]
    exact (collect_admitted r run).symm
  | case4 r run hmeet hcut hselects =>
    rw [Partition.ofRegion, if_neg hmeet, dif_neg hcut, if_neg hselects]
    exact (collect_dropped r run).symm

/-! ### Accounts -/

/-- The regions of the seeds, the dropped and the pruned ones are the bounds cut up as the rule wants it, and
    the summary counts them. -/
structure Accounts (m : Material α) (dropped pruned : List Region) (run : GeneratorRun α) : Prop where
  apart : (run.seeds.map (·.region) ++ (dropped ++ pruned)).Pairwise Region.Apart
  covers : ∀ x, m.rule.bounds.contains x = true ↔
    ∃ r ∈ run.seeds.map (·.region) ++ (dropped ++ pruned), r.contains x = true
  uncut : ∀ r ∈ run.seeds.map (·.region) ++ dropped, ¬1 < (r.bisect (m.rule.refine r)).length
  selected : ∀ s ∈ run.seeds, m.rule.intersects s.region = true ∧ m.rule.selects s.region = true
  unselected : ∀ r ∈ dropped, m.rule.intersects r = true ∧ m.rule.selects r = false
  missed : ∀ r ∈ pruned, m.rule.intersects r = false
  visited_lt : run.stats.visited < 2 * m.rule.bounds.bulk
  admitted_eq : run.stats.admitted = run.seeds.length
  grouped_eq : run.stats.grouped = run.seeds.countP fun s => !s.region.isUnit
  droppedRegions_eq : run.stats.droppedRegions = dropped.length
  droppedCompositions_eq : run.stats.droppedCompositions = (dropped.map Region.volume).sum

theorem map_region_of_seeds {regions : List Region} {seeds : List (ClusterSeed α)}
    (h : regions.mapM m.seedFor = .ok seeds) : seeds.map (·.region) = regions := by
  rw [eq_map_seedOf (mapM_eq_ok.mp h), List.map_map]
  exact List.map_id' regions

theorem collect_start (p : Partition) : m.collect p .start =
    ((p.regions .admitted).mapM m.seedFor).map fun seeds => ⟨seeds, p.stats⟩ := by
  have hextend : ∀ seeds : List (ClusterSeed α), GeneratorRun.start.extend p seeds = ⟨seeds, p.stats⟩ := by
    intro seeds
    simp [GeneratorRun.extend, GeneratorRun.start, PartitionStats.add]
  rw [collect]
  exact congrArg (Except.map · _) (funext hextend)

theorem accounts_of_seeds {p : Partition} (hp : p = .ofRegion m.rule m.rule.bounds)
    {seeds : List (ClusterSeed α)} (h : (p.regions .admitted).mapM m.seedFor = .ok seeds) :
    m.Accounts (p.regions .dropped) (p.regions .pruned) ⟨seeds, p.stats⟩ := by
  have hregions := map_region_of_seeds h
  have hperm := p.regions_perm
  have E : p.Exhausts m.rule m.rule.bounds := hp ▸ Partition.exhausts_ofRegion _ _
  have T : p.Tiles := hp ▸ Partition.tiles_ofRegion _ _
  have hsettled : ∀ {r fate}, r ∈ p.regions fate → Cell.Settled m.rule ⟨r, fate⟩ := fun hr =>
    E.settled _ (Partition.mem_regions.mp hr)
  refine ⟨?_, fun x => ?_, fun r hr => ?_, fun s hs => ?_, fun r hr => ?_, fun r hr => ?_, ?_, ?_, ?_, ?_, ?_⟩
  · rw [hregions]
    exact (hperm.pairwise_iff Region.Apart.symm).mpr (List.pairwise_map.mpr T)
  · simp only [hregions, hperm.mem_iff, List.mem_map]
    constructor
    · intro hx
      obtain ⟨c, hc, hx⟩ := E.covers x hx
      exact ⟨_, ⟨c, hc, rfl⟩, hx⟩
    · rintro ⟨_, ⟨c, hc, rfl⟩, hx⟩
      exact (E.within c hc).contains hx
  · rw [hregions] at hr
    rcases List.mem_append.mp hr with hr | hr
    · exact (hsettled hr).whole (fun h => nomatch h)
    · exact (hsettled hr).whole (fun h => nomatch h)
  · have hmem : s.region ∈ p.regions .admitted := hregions ▸ List.mem_map_of_mem hs
    have S := hsettled hmem
    exact ⟨S.intersects (fun h => nomatch h), (S.admitted_iff (fun h => nomatch h)).mp rfl⟩
  · have S := hsettled hr
    refine ⟨S.intersects (fun h => nomatch h), ?_⟩
    exact Bool.eq_false_iff.mpr fun h => nomatch (S.admitted_iff (fun h => nomatch h)).mpr h
  · exact (hsettled hr).pruned_iff.mp rfl
  · have hcells := Partition.length_cells_le m.rule m.rule.bounds
    have hvisited := Partition.visited_lt m.rule m.rule.bounds
    rw [← hp] at hcells hvisited
    show p.visited < 2 * m.rule.bounds.bulk
    omega
  · rw [Partition.stats_eq, ← hregions]
    exact List.length_map _
  · rw [Partition.stats_eq, ← hregions]
    exact List.countP_map
  · rw [Partition.stats_eq]
  · rw [Partition.stats_eq]

/-- Whatever its rule says, a material's run ends. It fails only for an admitted region without a seed, else it
    accounts for the bounds; and what is generated with machine words is what the run collects. -/
theorem visit_accounts (m : Material α) :
    let p := Partition.ofRegion m.rule m.rule.bounds
    (∀ run, m.visit m.rule.bounds .start = .ok run → m.Accounts (p.regions .dropped) (p.regions .pruned) run) ∧
    (∀ fault, m.visit m.rule.bounds .start = .error fault →
      ∃ r ∈ p.regions .admitted, m.seedFor r = .error fault) ∧
    ∀ seeds q, m.generate = .ok (seeds, q) → q = p ∧ m.visit m.rule.bounds .start = .ok ⟨seeds, q.stats⟩ := by
  intro p
  rw [visit_eq, collect_start]
  refine ⟨fun run hrun => ?_, fun fault hfault => ?_, fun seeds q hq => ?_⟩
  · cases hseeds : (p.regions .admitted).mapM m.seedFor with
    | error fault =>
      rw [hseeds] at hrun
      cases hrun
    | ok seeds =>
      rw [hseeds] at hrun
      cases hrun
      exact accounts_of_seeds rfl hseeds
  · cases hseeds : (p.regions .admitted).mapM m.seedFor with
    | error fault' =>
      rw [hseeds] at hfault
      cases hfault
      exact mapM_eq_error hseeds
    | ok seeds =>
      rw [hseeds] at hfault
      cases hfault
  · obtain ⟨hpart, hmap⟩ := generate_eq_ok hq
    obtain rfl : q = Partition.ofRegion m.rule m.rule.bounds := Partition.eq_ofRegion _ (partition_eq_ok hpart)
    refine ⟨rfl, ?_⟩
    rw [mapM_eq_ok.mpr hmap]
    rfl

end Material

/-! ### A capricious rule -/

namespace Capricious
open scoped Pair

/-- Sixteen sizes, of which the last four are missed, the second four are never selected, and the first four
    are cut along axes that they do not have. -/
def rule : PartitionRule where
  bounds := .ofInclusive [(1, 16)]
  intersects r := decide (r.lo.get Direction.first < 13)
  selects r := decide (r.lo.get Direction.first ≠ 5)
  refine r := Vector.ofFn fun _ => decide (4 < r.width Direction.first) || decide (r.lo.get Direction.first < 5)
  countFits _ := true

/-- Xenon partitioned by that rule. -/
def material : Material ℚ := { Xenon.material .standard with rule := rule }

theorem generate_ok : ∃ x, material.generate = .ok x ∧
    x.2.stats = ⟨13, 5, 1, 1, 4⟩ ∧ x.2.regions .pruned = [.ofInclusive [(13, 16)]] :=
  exists_eq_ok (by decide +kernel)

/-- Four single sizes and a group of four; a region of four is dropped and another one pruned. -/
theorem accounts : ∃ seeds p, material.generate = .ok (seeds, p) ∧ p.regions .pruned = [.ofInclusive [(13, 16)]] ∧
    p.stats = ⟨13, 5, 1, 1, 4⟩ ∧ material.Accounts (p.regions .dropped) (p.regions .pruned) ⟨seeds, p.stats⟩ := by
  obtain ⟨⟨seeds, p⟩, hok, hstats, hpruned⟩ := generate_ok
  obtain ⟨hruns, -, hgenerate⟩ := material.visit_accounts
  obtain ⟨rfl, hrun⟩ := hgenerate seeds p hok
  exact ⟨seeds, _, hok, hpruned, hstats, hruns _ hrun⟩

end Capricious
end ClusterDynamics
