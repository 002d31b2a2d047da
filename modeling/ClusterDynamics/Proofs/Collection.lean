import ClusterDynamics.Proofs.RoundTrip

/-! A run of `add` calls. The program collects seeds in place and keeps a table from each single
    composition to its seed, which the later calls read. Here a call is the program text over this state;
    it agrees with the checks of `Builder.add`, so a refused seed leaves no trace and the seeds of the
    accepted calls, in their order, are all that `finish` sees. -/

namespace ClusterDynamics

variable {α : Type}

/-- What the calls change in place. -/
structure Collection (α : Type) where
  seeds : Array (ClusterSeed α)
  /-- The number of the seed of a single composition. -/
  units : List (Composition × Nat)

namespace Collection

/-- A collection that nothing was added to. -/
def empty : Collection α := ⟨#[], []⟩

/-- One call. What it has changed before it fails stays changed. -/
def insert (space : PhaseSpace) (s : ClusterSeed α) :
    ExceptT (NetworkFault α) (StateM (Collection α)) Unit := do
  (NetworkFault.require s.region.isEmptyFits : Except (NetworkFault α) Unit)
  if s.region.isEmpty then throw (.placementFault (.emptyRegion s.region s.composition))
  let p ← (space.locatePoint s.composition : Except (NetworkFault α) Point)
  (NetworkFault.require s.region.isUnitFits : Except (NetworkFault α) Unit)
  if s.region.isUnit then
    if p ≠ s.region.lo then throw (.placementFault (.misplaced s.composition s.region))
    if ((← get).units.lookup s.composition).isSome then
      throw (.ownershipFault (.composition s.composition s.region))
    modify fun c => { c with units := (s.composition, c.seeds.size) :: c.units }
  modify fun c => { c with seeds := c.seeds.push s }

/-- The calls one after the other, with their results. -/
def insertAll (space : PhaseSpace) (calls : List (ClusterSeed α)) :
    StateM (Collection α) (List (Except (NetworkFault α) Unit)) :=
  calls.mapM fun s => (insert space s).run

/-- The collection with one more seed at the end, which enters the table if it is a single composition. -/
def push (c : Collection α) (s : ClusterSeed α) : Collection α where
  seeds := c.seeds.push s
  units := if s.region.isUnit then (s.composition, c.seeds.size) :: c.units else c.units

/-- The builder that holds the collected seeds. -/
def builder (c : Collection α) (params : NetworkParams α) (m : Material α) : Builder α :=
  ⟨params, m, c.seeds⟩

/-- The calls that were not refused. -/
def accepted (calls : List (ClusterSeed α)) (results : List (Except (NetworkFault α) Unit)) :
    List (ClusterSeed α) :=
  ((calls.zip results).filter (·.2.isOk)).map (·.1)

/-- Two of the seeds share a point. -/
def Collides (seeds : List (ClusterSeed α)) : Prop :=
  ∃ (i j : Nat) (s t : ClusterSeed α), i < j ∧ seeds[i]? = some s ∧ seeds[j]? = some t ∧
    ∃ x, s.region.contains x = true ∧ t.region.contains x = true

theorem not_collides_iff {seeds : List (ClusterSeed α)} :
    ¬Collides seeds ↔ seeds.Pairwise fun s t => s.region.Apart t.region := by
  rw [List.pairwise_iff_getElem]
  constructor
  · intro h i j hi hj hij
    by_contra hmeet
    obtain ⟨x, hs, ht⟩ := Region.intersects_iff_exists.mp (Bool.not_eq_false _ ▸ hmeet)
    exact h ⟨i, j, _, _, hij, List.getElem?_eq_getElem hi, List.getElem?_eq_getElem hj, x, hs, ht⟩
  · rintro h ⟨i, j, s, t, hij, hs, ht, x, hsx, htx⟩
    obtain ⟨hi, rfl⟩ := List.getElem?_eq_some_iff.mp hs
    obtain ⟨hj, rfl⟩ := List.getElem?_eq_some_iff.mp ht
    have hapart := Region.apart_iff.mp (h i j hi hj hij) x hsx
    rw [htx] at hapart
    cases hapart

/-! ### One call -/

/-- The state change `run` ends in `c'` when the checks pass, and leaves `c` alone when they fail. -/
def Follows {ε σ : Type} (run : ExceptT ε (StateM σ) Unit) (check : Except ε Unit) (c c' : σ) : Prop :=
  StateT.run run.run c =
    match check with
    | .ok _ => (.ok (), c')
    | .error fault => (.error fault, c)

namespace Follows

variable {ε σ β : Type} {c c' : σ}

theorem bind {x : Except ε β} {f : β → ExceptT ε (StateM σ) Unit} {g : β → Except ε Unit}
    (h : ∀ b, x = .ok b → Follows (f b) (g b) c c') : Follows (liftM x >>= f) (x >>= g) c c' := by
  cases x with
  | ok b => exact h b rfl
  | error fault => rfl

theorem check {p : Prop} [Decidable p] {fault : ε} {f : Unit → ExceptT ε (StateM σ) Unit}
    {g : Unit → Except ε Unit} (h : ¬p → Follows (f ()) (g ()) c c') :
    Follows (if p then throw fault >>= f else f ()) (if p then throw fault >>= g else g ()) c c' := by
  split_ifs with hp
  · rfl
  · exact h hp

theorem get {f : σ → ExceptT ε (StateM σ) Unit} {g : Except ε Unit} (h : Follows (f c) g c c') :
    Follows (MonadState.get >>= f) g c c' := h

end Follows

/-- The table lists the collected seeds of single compositions, and no others. -/
def Tabled (c : Collection α) : Prop :=
  ∀ k i, c.units.lookup k = some i ↔
    ∃ s, c.seeds[i]? = some s ∧ s.region.isUnit = true ∧ s.composition = k

section
variable {c : Collection α} {s : ClusterSeed α} (params : NetworkParams α) (m : Material α)

theorem Tabled.ownsUnit (h : c.Tabled) (k : Composition) :
    (c.builder params m).ownsUnit k = (c.units.lookup k).isSome := by
  rw [Bool.eq_iff_iff, Option.isSome_iff_exists, Builder.ownsUnit, Array.any_eq_true']
  simp only [Bool.and_eq_true, beq_iff_eq, h k]
  constructor
  · rintro ⟨s, hs, hunit, hk⟩
    obtain ⟨i, hi⟩ := Array.mem_iff_getElem?.mp hs
    exact ⟨i, s, hi, hunit, hk⟩
  · rintro ⟨i, s, hi, hunit, hk⟩
    exact ⟨s, Array.mem_of_getElem? hi, hunit, hk⟩

theorem insert_follows (h : c.Tabled) :
    Follows (insert m.space s) ((c.builder params m).check s) c (c.push s) := by
  unfold insert Builder.check
  refine Follows.bind fun _ _ => Follows.check fun _ => Follows.bind fun x _ => Follows.bind fun _ _ => ?_
  by_cases hunit : s.region.isUnit = true
  · have hpush : c.push s = ⟨c.seeds.push s, (s.composition, c.seeds.size) :: c.units⟩ := by
      rw [push, if_pos hunit]
    rw [if_pos hunit, if_pos hunit]
    refine Follows.check fun _ => ?_
    rw [h.ownsUnit params m, hpush]
    refine Follows.get ?_
    cases (c.units.lookup s.composition).isSome <;> rfl
  · have hpush : c.push s = ⟨c.seeds.push s, c.units⟩ := by rw [push, if_neg hunit]
    rw [if_neg hunit, if_neg hunit, hpush]
    rfl

/-- A seed is refused for the same reason as by `Builder.add`, and then nothing changes. -/
theorem run_insert (h : c.Tabled) : StateT.run (insert m.space s).run c =
    match (c.builder params m).add s with
    | .ok _ => (.ok (), c.push s)
    | .error fault => (.error fault, c) := by
  have hrun := insert_follows (s := s) params m h
  unfold Follows at hrun
  rw [hrun, Builder.add]
  cases (c.builder params m).check s <;> rfl

theorem Tabled.push (h : c.Tabled) (hnew : s.region.isUnit = true → c.units.lookup s.composition = none) :
    (c.push s).Tabled := by
  intro k i
  have hseeds : ∀ t, (c.push s).seeds[i]? = some t ↔
      c.seeds[i]? = some t ∨ i = c.seeds.size ∧ s = t := by
    intro t
    show (c.seeds.push s)[i]? = some t ↔ _
    rw [Array.getElem?_push]
    by_cases hi : i = c.seeds.size
    · simp [hi]
    · simp [hi]
  have hsplit : (∃ t, (c.push s).seeds[i]? = some t ∧ t.region.isUnit = true ∧ t.composition = k) ↔
      c.units.lookup k = some i ∨ i = c.seeds.size ∧ s.region.isUnit = true ∧ s.composition = k := by
    simp only [hseeds, or_and_right, exists_or, h k i, and_assoc, exists_and_left, exists_eq_left']
  rw [hsplit]
  by_cases hunit : s.region.isUnit = true
  · have hunits : (c.push s).units = (s.composition, c.seeds.size) :: c.units := if_pos hunit
    rw [hunits, List.lookup_cons]
    by_cases hk : k = s.composition
    · subst hk
      simp [hnew hunit, hunit, eq_comm]
    · rw [beq_false_of_ne hk]
      simp [Ne.symm hk]
  · have hunits : (c.push s).units = c.units := if_neg hunit
    simp [hunits, hunit]

/-- A call either leaves no trace or appends its seed, as `Builder.add` does. -/
theorem insert_cases (h : c.Tabled) (s : ClusterSeed α) :
    (∃ fault, StateT.run (insert m.space s).run c = (.error fault, c)) ∨
      (StateT.run (insert m.space s).run c = (.ok (), c.push s) ∧ (c.push s).Tabled ∧
        (c.builder params m).add s = .ok ((c.push s).builder params m)) := by
  have hrun := run_insert (s := s) params m h
  cases hadd : (c.builder params m).add s with
  | error fault =>
    rw [hadd] at hrun
    exact .inl ⟨fault, hrun⟩
  | ok b' =>
    rw [hadd] at hrun
    obtain ⟨_, hcheck, hb'⟩ := bind_eq_ok.mp hadd
    cases hb'
    refine .inr ⟨hrun, h.push fun hunit => ?_, rfl⟩
    have hnew := (Builder.check_eq_ok hcheck).2 hunit
    rw [h.ownsUnit params m] at hnew
    simpa using hnew

theorem insertAll_cons {space : PhaseSpace} {calls : List (ClusterSeed α)} {c₁ c₂ : Collection α}
    {r : Except (NetworkFault α) Unit} {results : List (Except (NetworkFault α) Unit)}
    (hs : StateT.run (insert space s).run c = (r, c₁))
    (hrest : (insertAll space calls).run c₁ = (results, c₂)) :
    (insertAll space (s :: calls)).run c = (r :: results, c₂) := by
  unfold insertAll at hrest ⊢
  rw [List.mapM_cons, StateT.run_bind, hs]
  show (StateT.run (calls.mapM _ >>= _) c₁) = _
  rw [StateT.run_bind, hrest]
  rfl

/-- After any calls the table is right, the builder is one that `Builder.add` reaches, and it holds the
    seeds of the accepted calls. -/
theorem run_insertAll [Scalar α] {calls : List (ClusterSeed α)} : ∀ {c c' : Collection α}
    {results : List (Except (NetworkFault α) Unit)}, c.Tabled →
    (c.builder params m).Reachable params m → (insertAll m.space calls).run c = (results, c') →
      c'.Tabled ∧ (c'.builder params m).Reachable params m ∧
        c'.seeds.toList = c.seeds.toList ++ accepted calls results := by
  induction calls with
  | nil =>
    intro c c' results h hb hrun
    cases hrun
    exact ⟨h, hb, by simp [accepted]⟩
  | cons s calls ih =>
    intro c c' results h hb hrun
    rcases insert_cases params m h s with ⟨fault, hs⟩ | ⟨hs, hpush, hadd⟩
    · cases hrest : (insertAll m.space calls).run c with
      | mk rest c₂ =>
        rw [insertAll_cons hs hrest] at hrun
        cases hrun
        exact ih h hb hrest
    · cases hrest : (insertAll m.space calls).run (c.push s) with
      | mk rest c₂ =>
        rw [insertAll_cons hs hrest] at hrun
        cases hrun
        obtain ⟨htable, hreach, hseeds⟩ := ih hpush (hb.add hadd) hrest
        refine ⟨htable, hreach, ?_⟩
        rw [hseeds]
        simp [accepted, push, Except.isOk, Except.toBool]

end
end Collection

/-! ### Finishing -/

namespace Population

/-- Seeds that are indexed are apart: their clusters have different numbers. -/
theorem pairwise_of_ofSeeds {seeds : List (ClusterSeed α)} {p : Population α} (h : ofSeeds seeds = .ok p) :
    seeds.Pairwise fun s t => s.region.Apart t.region := by
  have S := sound_of_ofSeeds h
  obtain ⟨tree, -, rfl⟩ := ofSeeds_eq_ok h
  have hids : (clustersOf seeds).Pairwise fun c d => c.id < d.id := by
    rw [← List.pairwise_map (R := (· < ·)), map_id_clustersOf]
    exact List.pairwise_lt_range
  have hclusters : (clustersOf seeds).Pairwise fun c d => c.region.Apart d.region := by
    refine hids.imp_of_mem fun {c d} hc hd hlt => ?_
    by_contra hmeet
    have hmeet : c.region.intersects d.region = true := by
      rwa [Region.Apart, Bool.not_eq_false] at hmeet
    have hid := S.disjoint d (List.mem_toArray.mpr hd) c (List.mem_toArray.mpr hc) hmeet
    omega
  exact ((map_seed_clustersOf seeds).pairwise_iff fun h => Region.Apart.symm h).mp
    (List.pairwise_map.mpr hclusters)

theorem ofSeeds_eq_error {seeds : List (ClusterSeed α)} {fault : NetworkFault α}
    (h : ofSeeds seeds = .error fault) :
    fault = .overflow ∨ ∃ id other r, fault = .ownership (.overlap id other r) := by
  unfold ofSeeds NetworkFault.require at h
  split_ifs at h
  · cases hbuild : RegionTree.build (entriesOf (clustersOf seeds)) with
    | ok tree =>
      simp only [hbuild] at h
      cases h
    | error cause =>
      simp only [hbuild] at h
      cases h
      cases cause with
      | overflow => exact .inl rfl
      | overlap id other r => exact .inr ⟨id, other, r, rfl⟩
  · cases h
    exact .inl rfl

end Population

namespace Builder

variable [Scalar α] {b : Builder α}

/-- Collected seeds fail to make a network only by overflow, or by an overlap. -/
theorem finish_eq_error (hne : b.seeds.isEmpty = false) {fault : NetworkFault α}
    (h : b.finish = .error fault) :
    fault = .overflow ∨ ∃ id other r, fault = .ownership (.overlap id other r) := by
  unfold finish at h
  rw [hne, if_neg Bool.false_ne_true] at h
  cases hp : Population.ofSeeds b.seeds.toList with
  | error cause =>
    rw [hp] at h
    cases h
    exact Population.ofSeeds_eq_error hp
  | ok p =>
    rw [hp] at h
    exact .inl (OnlyOverflow.bind (.require _) (fun _ _ => .ok _) fault h)

theorem pairwise_of_finish {n : Network α} (h : b.finish = .ok n) :
    b.seeds.toList.Pairwise fun s t => s.region.Apart t.region := by
  obtain ⟨p, hp, -⟩ := finish_eq_ok h
  exact Population.pairwise_of_ofSeeds hp

/-- The seeds of a finished network are its clusters, single compositions first. -/
theorem map_seed_of_finish {n : Network α} (h : b.finish = .ok n) :
    n.clusters.toList.map Cluster.seed = Population.numbering b.seeds.toList := by
  rw [clusters_of_finish h, List.toList_toArray, Population.clustersOf, Population.map_seed_assign]

theorem map_id_of_finish {n : Network α} (h : b.finish = .ok n) :
    n.clusters.toList.map (·.id) = List.range b.seeds.size := by
  rw [clusters_of_finish h, List.toList_toArray, Population.map_id_clustersOf, Array.length_toList]

end Builder

/-- A cluster that is looked up by its composition has a place, which is its own. -/
theorem Network.Built.toPoint_of_findUnit? [Scalar α] {n : Network α} (hn : n.Built) {k : Composition}
    {c : Cluster α} (h : n.findUnit? k = some c) : n.material.space.toPoint k = .ok c.region.lo := by
  obtain ⟨hc, hsingle, rfl⟩ := Population.findUnit?_eq_some h
  exact hn.placed c hc (hn.sound.isUnit hc hsingle)

namespace Collection

variable [Scalar α] {results : List (Except (NetworkFault α) Unit)} {c : Collection α}

/-- After any calls, a further one leaves no trace or appends its seed. What `finish` says about the
    accepted seeds depends on whether there are any and whether two of them share a point; if none do,
    the network has them all as its clusters, and a monomer that is a cluster has a point. -/
theorem finish_of_insertAll (params : NetworkParams α) (m : Material α) (calls : List (ClusterSeed α))
    (h : (insertAll m.space calls).run empty = (results, c)) :
    (∀ s, (∃ fault, StateT.run (insert m.space s).run c = (.error fault, c)) ∨
      StateT.run (insert m.space s).run c = (.ok (), c.push s)) ∧
    c.seeds.toList = accepted calls results ∧
    (accepted calls results = [] → (c.builder params m).finish = .error (.noClusters m.name)) ∧
    (accepted calls results ≠ [] → (c.builder params m).finish ≠ .error .overflow →
      ((∃ id other r, (c.builder params m).finish = .error (.ownership (.overlap id other r))) ↔
        Collides (accepted calls results)) ∧
      (¬Collides (accepted calls results) → ∃ n, (c.builder params m).finish = .ok n ∧
        n.clusters.toList.map Cluster.seed =
          (accepted calls results).filter (·.region.isUnit) ++
            (accepted calls results).filter (fun s => !s.region.isUnit) ∧
        n.clusters.toList.map (·.id) = List.range n.clusters.size ∧
        ∀ k d, n.findUnit? k = some d → m.space.toPoint k = .ok d.region.lo)) := by
  have htabled : (empty : Collection α).Tabled := by
    intro k i
    simp [empty]
  obtain ⟨htable, hreach, hseeds⟩ := run_insertAll params m htabled .start h
  rw [show (empty : Collection α).seeds.toList = [] from rfl, List.nil_append] at hseeds
  have hbuilder : (c.builder params m).seeds.toList = accepted calls results := hseeds
  refine ⟨fun s => ?_, hseeds, fun hnil => ?_, fun hne hfits => ?_⟩
  · rcases insert_cases params m htable s with hfault | ⟨hok, -⟩
    · exact .inl hfault
    · exact .inr hok
  · have hempty : (c.builder params m).seeds.isEmpty = true := by
      rw [Array.isEmpty_iff, ← Array.toList_eq_nil_iff, hbuilder, hnil]
    unfold Builder.finish
    rw [hempty, if_pos rfl]
    rfl
  · have hempty : (c.builder params m).seeds.isEmpty = false := by
      rw [Array.isEmpty_eq_false_iff, ne_eq, ← Array.toList_eq_nil_iff, hbuilder]
      exact hne
    constructor
    · constructor
      · rintro ⟨id, other, r, hfault⟩
        by_contra hapart
        rw [not_collides_iff, ← hbuilder] at hapart
        cases Builder.onlyOverflow_finish hempty hapart _ hfault
      · intro hcollides
        cases hfinish : (c.builder params m).finish with
        | ok n =>
          have hapart := Builder.pairwise_of_finish hfinish
          rw [hbuilder, ← not_collides_iff] at hapart
          exact absurd hcollides hapart
        | error fault =>
          rcases Builder.finish_eq_error hempty hfinish with rfl | ⟨id, other, r, rfl⟩
          · exact absurd hfinish hfits
          · exact ⟨id, other, r, rfl⟩
    · intro hapart
      rw [not_collides_iff, ← hbuilder] at hapart
      obtain ⟨n, hfinish⟩ := (Builder.onlyOverflow_finish hempty hapart).exists_eq_ok hfits
      obtain ⟨hn, -, rfl⟩ := Network.built_of_finish hreach hfinish
      have hcluster := Builder.map_seed_of_finish hfinish
      have hid := Builder.map_id_of_finish hfinish
      have hsize : n.clusters.size = (c.builder params n.material).seeds.size := by
        simpa using congrArg List.length hid
      rw [hbuilder] at hcluster
      rw [← hsize] at hid
      exact ⟨n, hfinish, hcluster, hid, fun k d hk => hn.toPoint_of_findUnit? hk⟩

end Collection

/-! ### Runs on a chain -/

namespace Chain

/-- A group, a single atom, the same atom once more, no composition at all, and a pair. -/
def calls : List (ClusterSeed ℚ) := [seed 3 5 4, seed 1 1 1, seed 1 1 1, seed 2 1 2, seed 2 2 2]

/-- The pair lies in the region of the group. -/
def crossing : List (ClusterSeed ℚ) := [seed 1 3 2, seed 2 2 2]

/-- The answers to a sequence of calls, and the collection after them. -/
def collected (calls : List (ClusterSeed ℚ)) : List (Except (NetworkFault ℚ) Unit) × Collection ℚ :=
  (Collection.insertAll material.space calls).run .empty

/-- The network of what the calls have collected. -/
def finished (calls : List (ClusterSeed ℚ)) : Except (NetworkFault ℚ) (Network ℚ) :=
  ((collected calls).2.builder .standard material).finish

theorem finished_ne_overflow {calls : List (ClusterSeed ℚ)}
    (h : (match finished calls with
      | .error .overflow => false
      | _ => true) = true) : finished calls ≠ .error .overflow := by
  intro hfault
  rw [hfault] at h
  cases h

/-- The third and the fourth of the calls are refused, and the single atom is numbered first. A pair
    inside a group is found out only in the end. -/
theorem finished_calls :
    ((collected calls).1.map Except.isOk = [true, true, false, false, true] ∧
      ∃ n, finished calls = .ok n ∧
        n.clusters.toList.map Cluster.seed = [seed 1 1 1, seed 2 2 2, seed 3 5 4]) ∧
    ((collected crossing).1.map Except.isOk = [true, true] ∧
      ∃ id other r, finished crossing = .error (.ownership (.overlap id other r))) := by
  refine ⟨⟨by decide +kernel, ?_⟩, ⟨by decide +kernel, ?_⟩⟩
  · have hcalls : Collection.accepted calls (collected calls).1 =
        [seed 3 5 4, seed 1 1 1, seed 2 2 2] := by decide +kernel
    have hapart : ¬Collection.Collides [seed 3 5 4, seed 1 1 1, seed 2 2 2] := by
      rw [Collection.not_collides_iff]
      unfold Region.Apart
      decide +kernel
    obtain ⟨-, -, -, hfinish⟩ := Collection.finish_of_insertAll .standard material calls
      (Prod.mk.eta (p := collected calls)).symm
    rw [hcalls] at hfinish
    obtain ⟨n, hn, hclusters, -⟩ :=
      (hfinish (by simp) (finished_ne_overflow (by decide +kernel))).2 hapart
    refine ⟨n, hn, ?_⟩
    rw [hclusters]
    decide +kernel
  · have hcrossing : Collection.accepted crossing (collected crossing).1 =
        [seed 1 3 2, seed 2 2 2] := by decide +kernel
    obtain ⟨-, -, -, hfinish⟩ := Collection.finish_of_insertAll .standard material crossing
      (Prod.mk.eta (p := collected crossing)).symm
    rw [hcrossing] at hfinish
    obtain ⟨hoverlap, -⟩ := hfinish (by simp) (finished_ne_overflow (by decide +kernel))
    refine hoverlap.mpr ⟨0, 1, _, _, Nat.one_pos, rfl, rfl, (seed 2 2 2).region.lo, ?_⟩
    decide +kernel

end Chain
end ClusterDynamics
