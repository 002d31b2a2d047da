import ClusterDynamics.Proofs.RecordAgreement
import ClusterDynamics.Proofs.Reordering

/-! Which clusters the rates of change of a cluster depend on, without numbers: the cluster itself, its
    partners, the pairs that make it and the parents that release it. The records say it in the numbers of
    clusters and reactions, so this is what makes the sparsity pattern the same for every order of seeds. -/

namespace ClusterDynamics

variable {α : Type}

/-! ### Who feeds whom -/

namespace Network

variable [Scalar α]

/-- The rates of change of `c` depend on another cluster. -/
inductive Feeds (n : Network α) (c : Cluster α) : Cluster α → Prop
  | own : Feeds n c c
  | partner {d : Cluster α} (h : n.Reactive c d) : Feeds n c d
  | operand {d a : Cluster α} (ha : a ∈ n.clusters) (h : n.Reactive d a)
      (hmakes : ∃ x, d.Makes a x ∧ c.region.contains x = true) : Feeds n c d
  | released {P M : Cluster α} (hM : M ∈ n.clusters) (h : n.Reversible P M c) : Feeds n c P
  | left {P R : Cluster α} (hR : R ∈ n.clusters) (h : n.Reversible P c R) : Feeds n c P

variable {n : Network α} {c d : Cluster α}

theorem Reactive.symm {a : Cluster α} (h : n.Reactive a c) : n.Reactive c a where
  mobile := h.mobile.symm
  single := h.single.symm
  product := by
    obtain ⟨x, hx, hkept⟩ := h.product
    exact ⟨x, hx.symm, hkept⟩

/-- A cluster has a record of each partner that it meets. -/
theorem Built.exists_combining_iff (hn : n.Built) (hc : c ∈ n.clusters) {x : Nat} :
    (∃ r ∈ (n.linksOf c.id).combining, r.participants = x) ↔
      ∃ d ∈ n.clusters, d.id = x ∧ n.Reactive c d := by
  constructor
  · rintro ⟨r, hr, rfl⟩
    have hcombines := (hn.combining_iff hc).mp ⟨r, hr, rfl, rfl⟩
    obtain ⟨d, hd, hid⟩ : ∃ d ∈ n.clusters, d.id = r.participants := by
      obtain ⟨k, g, hg, s, hs, -, -, rfl⟩ := (hn.mem_combining hc).mp hr
      dsimp only
      split_ifs
      · exact ⟨s, hs, rfl⟩
      · exact ⟨g, hg, rfl⟩
    rw [← hid] at hcombines
    exact ⟨d, hd, hid, hn.reactive_of_combines hc hd hcombines⟩
  · rintro ⟨d, hd, rfl, hreactive⟩
    obtain ⟨i, hi⟩ := hn.exists_combines hc hd hreactive
    obtain ⟨r, hr, -, hparticipants⟩ := (hn.combining_iff hc).mpr hi
    exact ⟨r, hr, hparticipants⟩

/-- A cluster has a record of each parent that releases it or leaves it behind. -/
theorem Built.exists_dissociating_iff (hn : n.Built) (hc : c ∈ n.clusters) {x : Nat} :
    (∃ r ∈ (n.linksOf c.id).dissociating, r.participants = x) ↔
      ∃ P ∈ n.clusters, P.id = x ∧
        ((∃ M ∈ n.clusters, n.Reversible P M c) ∨ ∃ R ∈ n.clusters, n.Reversible P c R) := by
  constructor
  · rintro ⟨r, hr, rfl⟩
    obtain ⟨k, d, P, hP, M, hM, R, hR, hd, hjoins, howner, rfl⟩ := (hn.mem_dissociating hc).mp hr
    have hreaction := hn.reactions_dissociation hd
    rw [hjoins.parent_eq, hjoins.monomer_eq, hjoins.remainder_eq] at hreaction
    have hreversible := hn.reversible_of_dissociates hP hM hR ⟨_, _, hreaction⟩
    refine ⟨P, hP, rfl, ?_⟩
    rcases howner with hid | hid
    · obtain rfl := hn.sound.eq_of_id hc hR hid
      exact .inl ⟨M, hM, hreversible⟩
    · obtain rfl := hn.sound.eq_of_id hc hM hid
      exact .inr ⟨R, hR, hreversible⟩
  · rintro ⟨P, hP, rfl, hcase⟩
    have hrecord : ∀ {i a b : Nat}, n.Dissociates i P.id a b → a = c.id ∨ b = c.id →
        ∃ r ∈ (n.linksOf c.id).dissociating, r.participants = P.id := by
      intro i a b hi howner
      obtain ⟨r, hr, -, hparent⟩ := (hn.dissociating_iff hc).mpr ⟨a, b, hi, howner⟩
      exact ⟨r, hr, hparent⟩
    rcases hcase with ⟨M, hM, h⟩ | ⟨R, hR, h⟩
    · obtain ⟨i, hi⟩ := hn.exists_dissociates hP hM hc h
      exact hrecord hi (.inr rfl)
    · obtain ⟨i, hi⟩ := hn.exists_dissociates hP hc hR h
      exact hrecord hi (.inl rfl)

/-- The rows of a cluster depend on the slots of the clusters that feed it. -/
theorem Built.mem_influences_iff (hn : n.Built) (hc : c ∈ n.clusters) {t : Nat} :
    t ∈ influences n.clusters c (n.linksOf c.id) ↔ ∃ d ∈ n.clusters, t ∈ slotsOf d ∧ n.Feeds c d := by
  have hslots : ∀ {d : Cluster α}, d ∈ n.clusters → (n.clusters[d.id]?.map slotsOf).getD [] = slotsOf d :=
    fun hd => by rw [hn.sound.getElem?_id hd]; rfl
  simp only [influences, List.mem_append, List.mem_flatMap]
  constructor
  · rintro (((ht | ⟨r, hr, ht⟩) | ⟨r, hr, ht⟩) | ⟨r, hr, ht⟩)
    · exact ⟨c, hc, ht, .own⟩
    · obtain ⟨k, g, hg, s, hs, _, he, -, rfl⟩ := (hn.mem_production hc).mp hr
      have hcombines : n.Combines k g.id s.id := hn.combines_iff.mpr ⟨_, he, rfl⟩
      have hreactive := hn.reactive_of_combines hg hs hcombines
      obtain ⟨x, hx, hcx⟩ := (hn.exists_record_iff hg hs hcombines hc).mp ⟨_, hr, rfl⟩
      rcases List.mem_cons.mp ht with rfl | ht
      · exact ⟨s, hs, id_mem_slotsOf s, .operand hg hreactive.symm ⟨x, hx.symm, hcx⟩⟩
      · exact ⟨g, hg, hslots hg ▸ ht, .operand hs hreactive ⟨x, hx, hcx⟩⟩
    · obtain ⟨d, hd, hid, hreactive⟩ := (hn.exists_combining_iff hc).mp ⟨r, hr, rfl⟩
      rw [← hid, hn.sound.getElem?_id hd] at ht
      dsimp only [groupedFirst] at ht
      split_ifs at ht
      · rcases List.mem_cons.mp ht with rfl | ht
        · exact ⟨d, hd, id_mem_slotsOf d, .partner hreactive⟩
        · exact ⟨c, hc, ht, .own⟩
      · rcases List.mem_cons.mp ht with rfl | ht
        · exact ⟨c, hc, id_mem_slotsOf c, .own⟩
        · exact ⟨d, hd, ht, .partner hreactive⟩
    · obtain ⟨P, hP, hid, hcase⟩ := (hn.exists_dissociating_iff hc).mp ⟨r, hr, rfl⟩
      rw [← hid, hslots hP] at ht
      rcases hcase with ⟨M, hM, h⟩ | ⟨R, hR, h⟩
      · exact ⟨P, hP, ht, .released hM h⟩
      · exact ⟨P, hP, ht, .left hR h⟩
  · rintro ⟨d, hd, ht, hfeeds⟩
    have hparent : ((∃ M ∈ n.clusters, n.Reversible d M c) ∨ ∃ R ∈ n.clusters, n.Reversible d c R) →
        ∃ r ∈ (n.linksOf c.id).dissociating, t ∈ (n.clusters[r.participants]?.map slotsOf).getD [] := by
      intro h
      obtain ⟨r, hr, hid⟩ := (hn.exists_dissociating_iff hc).mpr ⟨d, hd, rfl, h⟩
      exact ⟨r, hr, by rwa [hid, hslots hd]⟩
    cases hfeeds with
    | own => exact .inl (.inl (.inl ht))
    | partner h =>
      obtain ⟨r, hr, hid⟩ := (hn.exists_combining_iff hc).mpr ⟨d, hd, rfl, h⟩
      refine .inl (.inr ⟨r, hr, ?_⟩)
      rw [hid, hn.sound.getElem?_id hd]
      dsimp only [groupedFirst]
      split_ifs with hgrouped
      · have hsingle := h.single.resolve_left (by simp [hgrouped])
        rw [hn.slotsOf_of_single hd hsingle, List.mem_singleton] at ht
        exact List.mem_cons.mpr (.inl ht)
      · exact List.mem_cons_of_mem _ ht
    | @operand _ a ha h hmakes =>
      obtain ⟨i, hi⟩ := hn.exists_combines hd ha h
      obtain ⟨r, hr, rfl⟩ := (hn.exists_record_iff hd ha hi hc).mpr hmakes
      obtain ⟨g, s, hcase, hsingle, -, -, he⟩ := hn.of_combines hd ha hi
      obtain ⟨k, g', hg', s', hs', _, he', -, rfl⟩ := (hn.mem_production hc).mp hr
      obtain ⟨hg, hs⟩ := mem_of_operands hd ha hcase
      have heq := Option.some.inj (he.symm.trans he')
      obtain rfl := hn.sound.eq_of_id hg hg' (congrArg Encounter.first heq)
      obtain rfl := hn.sound.eq_of_id hs hs' (congrArg Encounter.second heq)
      refine .inl (.inl (.inr ⟨_, hr, ?_⟩))
      rcases hcase with ⟨rfl, -⟩ | ⟨-, rfl⟩
      · exact List.mem_cons_of_mem _ ((hslots hd).symm ▸ ht)
      · rw [hn.slotsOf_of_single hd hsingle, List.mem_singleton] at ht
        exact List.mem_cons.mpr (.inl ht)
    | released hM h => exact .inr (hparent (.inl ⟨_, hM, h⟩))
    | left hR h => exact .inr (hparent (.inr ⟨_, hR, h⟩))

/-! ### Patterns of reordered networks -/

namespace Reordered

variable {n' : Network α} {c' d' : Cluster α} (R : n.Reordered n')
include R

theorem feeds (hc : n.Twins n' c c') (hd : n.Twins n' d d') (h : n.Feeds c d) : n'.Feeds c' d' := by
  cases h with
  | own =>
    rw [(R.eq_iff hc hd).mp rfl]
    exact .own
  | partner h => exact .partner (R.reactive hc hd h)
  | operand ha h hmakes =>
    obtain ⟨a', ha'⟩ := R.twin ha
    obtain ⟨x, hx, hcx⟩ := hmakes
    exact .operand ha'.mem' (R.reactive hd ha' h) ⟨x, (ha'.makes_iff hd).mp hx, hc.region_eq ▸ hcx⟩
  | released hM h =>
    obtain ⟨M', hM'⟩ := R.twin hM
    exact .released hM'.mem' (R.reversible hd hM' hc h)
  | left hR h =>
    obtain ⟨R', hR'⟩ := R.twin hR
    exact .left hR'.mem' (R.reversible hd hc hR' h)

theorem mem_entries {r r' s s' : Nat} (hr : n.Corresponds n' r r') (hs : n.Corresponds n' s s')
    (h : (r, s) ∈ n.sparsity.entries) : (r', s') ∈ n'.sparsity.entries := by
  obtain ⟨c, hc, hrow, hinfluences⟩ := R.built.mem_entries.mp h
  obtain ⟨d, hd, hcolumn, hfeeds⟩ := (R.built.mem_influences_iff hc).mp hinfluences
  obtain ⟨c', hc'⟩ := R.twin hc
  obtain ⟨d', hd'⟩ := R.twin hd
  refine R.built'.mem_entries.mpr ⟨c', hc'.mem', (R.mem_slotsOf_iff hc' hr).mp hrow, ?_⟩
  exact (R.built'.mem_influences_iff hc'.mem').mpr
    ⟨d', hd'.mem', (R.mem_slotsOf_iff hd' hs).mp hcolumn, R.feeds hc' hd' hfeeds⟩

/-- Corresponding places are in both patterns or in neither. -/
theorem mem_entries_iff {r r' s s' : Nat} (hr : n.Corresponds n' r r') (hs : n.Corresponds n' s s') :
    (r, s) ∈ n.sparsity.entries ↔ (r', s') ∈ n'.sparsity.entries :=
  ⟨R.mem_entries hr hs, R.symm.mem_entries hr.symm hs.symm⟩

end Reordered
end Network
end ClusterDynamics
