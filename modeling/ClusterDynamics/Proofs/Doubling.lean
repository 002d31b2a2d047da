import ClusterDynamics.Proofs.Enumeration
import ClusterDynamics.Proofs.Metal

/-! Dissociations that a network counts twice. Channels are looked for parent by parent and monomer by
    monomer, so a parent whose monomer and remainder are both monomers of the material is taken apart
    twice into the same two clusters, once by shedding each of them. In a generated network this
    happens to one helium atom in one vacancy and to no other cluster. -/

namespace ClusterDynamics
open DefectSpace

variable {α : Type}

theorem rel_of_pairwise {β : Type} {R : β → β → Prop} (hs : ∀ {x y}, R x y → R y x) {l : List β}
    (h : l.Pairwise R) {i j : Nat} {a b : β} (hij : i ≠ j) (ha : l[i]? = some a) (hb : l[j]? = some b) :
    R a b := by
  obtain ⟨hi, rfl⟩ := List.getElem?_eq_some_iff.mp ha
  obtain ⟨hj, rfl⟩ := List.getElem?_eq_some_iff.mp hb
  rcases Nat.lt_or_gt_of_ne hij with hlt | hlt
  · exact List.pairwise_iff_getElem.mp h i j hi hj hlt
  · exact hs (List.pairwise_iff_getElem.mp h j i hj hi hlt)

theorem Channel.SameSplit.symm {c d : Channel} (h : c.SameSplit d) : d.SameSplit c :=
  ⟨h.1.symm, h.2.1.symm, h.2.2.symm⟩

namespace Network

/-- Reaction `i` takes a parent apart into two clusters, either of which may be the monomer. -/
def Splits (n : Network α) (i parent a b : Nat) : Prop :=
  ∃ monomer remainder reverse energy,
    n.reactions[i]? = some (.dissociation parent monomer remainder reverse energy) ∧
      (monomer = a ∧ remainder = b ∨ monomer = b ∧ remainder = a)

/-- Two reactions take one parent apart into the same two clusters. -/
def Doubles (n : Network α) (i j : Nat) : Prop :=
  i ≠ j ∧ ∃ parent a b, n.Splits i parent a b ∧ n.Splits j parent a b

/-- Reaction `i` takes a parent apart into a monomer and a remainder, each of them on one point. -/
def Sheds (n : Network α) (i : Nat) (parent monomer remainder : Composition) : Prop :=
  ∃ P M R, n.findUnit? parent = some P ∧ n.findUnit? monomer = some M ∧
    n.findUnit? remainder = some R ∧
      ∃ reverse energy, n.reactions[i]? = some (.dissociation P.id M.id R.id reverse energy)

/-- Reaction `i` sheds `a` and leaves `b`, and reaction `j` sheds `b` and leaves `a`. -/
structure Crossed [Scalar α] (n : Network α) (i j : Nat) (parent a b : Cluster α) : Prop where
  parent_mem : parent ∈ n.clusters
  first_mem : a ∈ n.clusters
  second_mem : b ∈ n.clusters
  ne : a ≠ b
  first_single : a.isGrouped = false
  second_single : b.isGrouped = false
  first_listed : a.composition ∈ n.material.monomers
  second_listed : b.composition ∈ n.material.monomers
  contains : parent.region.contains (a.region.lo.add b.region.lo) = true
  mobile : a.isMobile = true ∨ b.isMobile = true
  first_sheds : ∃ reverse energy, n.reactions[i]? = some (.dissociation parent.id a.id b.id reverse energy)
  second_sheds : ∃ reverse energy, n.reactions[j]? = some (.dissociation parent.id b.id a.id reverse energy)

section
variable [Scalar α] {n : Network α}

/-- In any network, dissociations are doubled by shedding either of two monomers. -/
theorem Built.crossed_of_doubles (hn : n.Built) (hm : n.material.monomers.Nodup) {i j : Nat}
    (h : n.Doubles i j) : ∃ parent a b, n.Crossed i j parent a b := by
  obtain ⟨hij, parent, x, y, ⟨m, r, rev, en, hi, hmr⟩, ⟨m', r', rev', en', hj, hmr'⟩⟩ := h
  obtain ⟨k, c, rfl, hc, hcp, hcm, hcr⟩ := hn.getElem?_dissociation hi
  obtain ⟨l, d, rfl, hd, hdp, hdm, hdr⟩ := hn.getElem?_dissociation hj
  have hdiff : ¬c.1.SameSplit d.1 :=
    rel_of_pairwise (fun h h' => h h'.symm) (hn.pairwise_dissociations hm) (by omega) hc hd
  have hcross : m' = r ∧ r' = m := by
    rcases hmr with ⟨rfl, rfl⟩ | ⟨rfl, rfl⟩ <;> rcases hmr' with ⟨rfl, rfl⟩ | ⟨rfl, rfl⟩
    · exact absurd ⟨hcp.trans hdp.symm, hcm.trans hdm.symm, hcr.trans hdr.symm⟩ hdiff
    · exact ⟨rfl, rfl⟩
    · exact ⟨rfl, rfl⟩
    · exact absurd ⟨hcp.trans hdp.symm, hcm.trans hdm.symm, hcr.trans hdr.symm⟩ hdiff
  obtain ⟨rfl, rfl⟩ := hcross
  obtain ⟨hcall, -⟩ := mem_dissociations.mp ⟨c.2, List.mem_of_getElem? hc⟩
  obtain ⟨hdall, -⟩ := mem_dissociations.mp ⟨d.2, List.mem_of_getElem? hd⟩
  obtain ⟨P, hP, A, hA, B, hB, J, hlistA⟩ := Channel.of_mem_all hn.sound hn.placed hcall
  obtain ⟨P', hP', B', hB', A', hA', J', hlistB⟩ := Channel.of_mem_all hn.sound hn.placed hdall
  have hparent : P.id = parent := J.parent_eq.symm.trans hcp
  have hfirst : A.id = r' := J.monomer_eq.symm.trans hcm
  have hsecond : B.id = m' := J.remainder_eq.symm.trans hcr
  obtain rfl : B' = B :=
    hn.sound.eq_of_id hB' hB ((J'.monomer_eq.symm.trans hdm).trans hsecond.symm)
  have hne : A ≠ B' := by
    rintro rfl
    exact hdiff ⟨hcp.trans hdp.symm, by rw [hcm, hdm, ← hfirst, ← hsecond],
      by rw [hcr, hdr, ← hfirst, ← hsecond]⟩
  exact ⟨P, A, B', hP, hA, hB, hne, J.single, J'.single, hlistA, hlistB,
    J.contains_add hn.sound hB J'.single,
    hn.isMobile_of_mem_dissociations (List.mem_of_getElem? hc) hA hB J,
    ⟨rev, en, by rw [hparent, hfirst, hsecond]; exact hi⟩,
    ⟨rev', en', by rw [hparent, hfirst, hsecond]; exact hj⟩⟩

theorem Crossed.lo_ne (hn : n.Built) {i j : Nat} {parent a b : Cluster α} (h : n.Crossed i j parent a b) :
    a.region.lo ≠ b.region.lo := fun hlo => h.ne
  (hn.sound.eq_of_contains h.first_mem h.second_mem
    ((Region.contains_of_isUnit (hn.sound.isUnit h.first_mem h.first_single)).mpr rfl)
    ((Region.contains_of_isUnit (hn.sound.isUnit h.second_mem h.second_single)).mpr hlo))

/-- Shedding either of two clusters doubles a dissociation. -/
theorem Built.doubles_of_sheds (hn : n.Built) {i j : Nat} {parent m r : Composition} (hne : m ≠ r)
    (hi : n.Sheds i parent m r) (hj : n.Sheds j parent r m) : n.Doubles i j := by
  obtain ⟨P, M, R, hP, hM, hR, rev, en, hi⟩ := hi
  obtain ⟨P', R', M', hP', hR', hM', rev', en', hj⟩ := hj
  cases hP.symm.trans hP'
  cases hM.symm.trans hM'
  cases hR.symm.trans hR'
  refine ⟨?_, P.id, M.id, R.id, ⟨_, _, rev, en, hi, .inl ⟨rfl, rfl⟩⟩, ⟨_, _, rev', en', hj, .inr ⟨rfl, rfl⟩⟩⟩
  rintro rfl
  simp only [hi, Option.some.injEq, Reaction.dissociation.injEq] at hj
  obtain ⟨hM, -, hMc⟩ := Population.findUnit?_eq_some hM
  obtain ⟨hR, -, hRc⟩ := Population.findUnit?_eq_some hR
  rw [hn.sound.eq_of_id hM hR hj.2.1, hRc] at hMc
  exact hne hMc.symm

theorem Crossed.sheds (hn : n.Built) {i j : Nat} {parent a b : Cluster α} (h : n.Crossed i j parent a b)
    (hsingle : parent.isGrouped = false) :
    n.Sheds i parent.composition a.composition b.composition ∧
      n.Sheds j parent.composition b.composition a.composition := by
  have hP := Channel.findUnit?_composition hn.sound hn.placed h.parent_mem hsingle
  have hA := Channel.findUnit?_composition hn.sound hn.placed h.first_mem h.first_single
  have hB := Channel.findUnit?_composition hn.sound hn.placed h.second_mem h.second_single
  exact ⟨⟨_, _, _, hP, hA, hB, h.first_sheds⟩, ⟨_, _, _, hP, hB, hA, h.second_sheds⟩⟩

/-- A cluster on one point sheds a monomer and leaves the rest when one of these two moves. -/
theorem Built.exists_sheds (hn : n.Built) {parent monomer remainder : Cluster α}
    (hparent : parent ∈ n.clusters) (hmonomer : monomer ∈ n.clusters) (hremainder : remainder ∈ n.clusters)
    (hpsingle : parent.isGrouped = false) (hmsingle : monomer.isGrouped = false)
    (hrsingle : remainder.isGrouped = false) (hlisted : monomer.composition ∈ n.material.monomers)
    (hne : monomer.composition ≠ parent.composition)
    (hemit : n.material.canEmit parent.composition monomer.composition = true)
    (hmobile : monomer.isMobile = true ∨ remainder.isMobile = true)
    (hsum : remainder.region.lo.add monomer.region.lo = parent.region.lo) :
    ∃ i, n.Sheds i parent.composition monomer.composition remainder.composition := by
  have hself : monomer.id ≠ parent.id := fun hid =>
    hne (congrArg _ (hn.sound.eq_of_id hmonomer hparent hid))
  have hx := (Region.contains_of_isUnit (hn.sound.isUnit hparent hpsingle)).mpr rfl
  have hrem : remainder.region.contains (parent.region.lo.add monomer.region.lo.neg) = true := by
    rw [← hsum, Point.add_add_neg]
    exact (Region.contains_of_isUnit (hn.sound.isUnit hremainder hrsingle)).mpr rfl
  obtain ⟨i, hi⟩ := hn.exists_dissociation_of_isMobile hparent hmonomer hremainder hmsingle hlisted hself
    hemit hmobile hx hrem
  exact ⟨i, parent, monomer, remainder,
    Channel.findUnit?_composition hn.sound hn.placed hparent hpsingle,
    Channel.findUnit?_composition hn.sound hn.placed hmonomer hmsingle,
    Channel.findUnit?_composition hn.sound hn.placed hremainder hrsingle, hi⟩

end

/-! ### Metals -/

namespace Generated

variable [Analytic α] {n : Network α} {params : NetworkParams α} {p : Partition} {d : DefectSpace}
variable (G : n.Generated p) (hn : n.Built) (hm : n.material.IsMetal params d)
include hn hm

theorem lo_of_listed {c : Cluster α} (hc : c ∈ n.clusters) (hsingle : c.isGrouped = false)
    (hlisted : c.composition ∈ n.material.monomers) :
    (c.composition = .single .helium 1 ∧ c.region.lo = point 1 0) ∨
      (c.composition = .single .vacancy 1 ∧ c.region.lo = point 0 1) ∨
        (c.composition = .single .interstitial 1 ∧ c.region.lo = point 0 (-1)) := by
  have hplace := hn.placed c hc (hn.sound.isUnit hc hsingle)
  rw [hm.space_eq] at hplace
  rw [hm.monomers_eq] at hlisted
  exact eq_of_listed hlisted hplace

include G

/-- Only helium and a vacancy can both be shed by a parent and both be left behind. -/
theorem compositions_of_crossed {i j : Nat} {parent a b : Cluster α} (h : n.Crossed i j parent a b) :
    (a.composition = .single .helium 1 ∧ b.composition = .single .vacancy 1 ∨
        a.composition = .single .vacancy 1 ∧ b.composition = .single .helium 1) ∧
      parent.region.contains (point 1 1) = true := by
  have hin := h.contains
  have hadmissible := G.isAdmissible hm h.parent_mem hin
  have hne := h.lo_ne hn
  rcases lo_of_listed hn hm h.first_mem h.first_single h.first_listed with
      ⟨ha, hla⟩ | ⟨ha, hla⟩ | ⟨ha, hla⟩ <;>
    rcases lo_of_listed hn hm h.second_mem h.second_single h.second_listed with
      ⟨hb, hlb⟩ | ⟨hb, hlb⟩ | ⟨hb, hlb⟩ <;>
    rw [hla, hlb] at hne hin hadmissible <;> rw [add_point] at hin hadmissible
  · exact absurd rfl hne
  · exact ⟨.inl ⟨ha, hb⟩, hin⟩
  · cases hadmissible
  · exact ⟨.inr ⟨ha, hb⟩, hin⟩
  · exact absurd rfl hne
  · cases hadmissible
  · cases hadmissible
  · cases hadmissible
  · exact absurd rfl hne

theorem bounds_of_single {c : Cluster α} (hc : c ∈ n.clusters) (hsingle : c.isGrouped = false) :
    (c.composition = .single .helium 1 → 1 ≤ d.maxHelium) ∧
      (c.composition = .single .vacancy 1 → 1 ≤ d.maxVacancy) := by
  obtain ⟨-, hi, hv, -⟩ := hm.nonneg
  have hunit := hn.sound.isUnit hc hsingle
  have hplace := hn.placed c hc hunit
  rw [hm.space_eq] at hplace
  have hadmissible := G.isAdmissible hm hc ((Region.contains_of_isUnit hunit).mpr rfl)
  constructor <;> intro hcomp <;> rw [hcomp] at hplace
  · rw [← show point 1 0 = c.region.lo from Except.ok.inj hplace, isAdmissible_point hi hv] at hadmissible
    exact hadmissible.2.2.2
  · rw [← show point 0 1 = c.region.lo from Except.ok.inj hplace, isAdmissible_point hi hv] at hadmissible
    exact hadmissible.2.1.2

/-- A doubled dissociation needs both of the defects and a mover among them. -/
theorem bounds_of_crossed {i j : Nat} {parent a b : Cluster α} (h : n.Crossed i j parent a b) :
    1 ≤ d.maxHelium ∧ 1 ≤ d.maxVacancy ∧
      (n.material.moves (.single .helium 1) = true ∨ n.material.moves (.single .vacancy 1) = true) := by
  have ha := G.bounds_of_single hn hm h.first_mem h.first_single
  have hb := G.bounds_of_single hn hm h.second_mem h.second_single
  have hmobile := h.mobile
  rw [G.isMobile_of_isUnit h.first_mem (hn.sound.isUnit h.first_mem h.first_single),
    G.isMobile_of_isUnit h.second_mem (hn.sound.isUnit h.second_mem h.second_single)] at hmobile
  obtain ⟨⟨hac, hbc⟩ | ⟨hac, hbc⟩, -⟩ := G.compositions_of_crossed hn hm h
  · exact ⟨ha.1 hac, hb.2 hbc, hac ▸ hbc ▸ hmobile⟩
  · exact ⟨hb.1 hbc, ha.2 hac, hac ▸ hbc ▸ hmobile.symm⟩

variable (hchoice : params.chooseMaterial = .ok n.material)
include hchoice

theorem exists_single {h x : Int} (hx : x ≤ 1) (ha : d.isAdmissible (point h x) = true) :
    ∃ c ∈ n.clusters, c.isGrouped = false ∧ c.region.lo = point h x ∧
      c.composition = DefectSpace.space.toComposition (point h x) := by
  obtain ⟨c, hc, hunit, hlo⟩ := G.exists_cluster_point hm hchoice hx ha
  have hcomp := G.composition_of_isUnit hc hunit
  rw [hm.space_eq, hlo] at hcomp
  refine ⟨c, hc, ?_, hlo, hcomp⟩
  rw [hn.sound.grouped c hc, hunit]
  rfl

/-- A doubled dissociation takes one helium atom and one vacancy apart. -/
theorem sheds_of_crossed {i j : Nat} {parent a b : Cluster α} (h : n.Crossed i j parent a b) :
    n.Sheds i .bubble a.composition b.composition ∧ n.Sheds j .bubble b.composition a.composition := by
  obtain ⟨-, hin⟩ := G.compositions_of_crossed hn hm h
  obtain ⟨hunit, hlo⟩ := G.lo_eq_point hm hchoice h.parent_mem (le_refl 1) hin
  have hsingle : parent.isGrouped = false := by
    rw [hn.sound.grouped parent h.parent_mem, hunit]
    rfl
  have hcomp := G.composition_of_isUnit h.parent_mem hunit
  rw [hm.space_eq, hlo, show DefectSpace.space.toComposition (point 1 1) = .bubble from rfl] at hcomp
  exact hcomp ▸ h.sheds hn hsingle

/-- When helium, vacancies and their pair are clusters and one of the former moves, the pair sheds either
    of them. -/
theorem exists_sheds (hh : 1 ≤ d.maxHelium) (hv : 1 ≤ d.maxVacancy)
    (hmoves : n.material.moves (.single .helium 1) = true ∨ n.material.moves (.single .vacancy 1) = true) :
    (∃ i, n.Sheds i .bubble (.single .helium 1) (.single .vacancy 1)) ∧
      ∃ j, n.Sheds j .bubble (.single .vacancy 1) (.single .helium 1) := by
  have hadmissible := hm.isAdmissible_low hh hv
  obtain ⟨A, hA, hAsingle, hAlo, hAcomp⟩ :=
    G.exists_single hn hm hchoice (by decide) (hadmissible 1 0 (by decide))
  obtain ⟨B, hB, hBsingle, hBlo, hBcomp⟩ :=
    G.exists_single hn hm hchoice (by decide) (hadmissible 0 1 (by decide))
  obtain ⟨P, hP, hPsingle, hPlo, hPcomp⟩ :=
    G.exists_single hn hm hchoice (by decide) (hadmissible 1 1 (by decide))
  replace hAcomp : A.composition = .single .helium 1 := hAcomp
  replace hBcomp : B.composition = .single .vacancy 1 := hBcomp
  replace hPcomp : P.composition = .bubble := hPcomp
  have hmobile : A.isMobile = true ∨ B.isMobile = true := by
    rw [G.isMobile_of_isUnit hA (hn.sound.isUnit hA hAsingle), hAcomp,
      G.isMobile_of_isUnit hB (hn.sound.isUnit hB hBsingle), hBcomp]
    exact hmoves
  have hlisted : ∀ s ∈ [Species.helium, .vacancy], Composition.single s 1 ∈ n.material.monomers := by
    rw [hm.monomers_eq]
    decide
  have hemit := hm.emits
  simp only [List.forall_mem_cons] at hlisted hemit
  rw [← hPcomp, ← hAcomp, ← hBcomp] at hemit ⊢
  rw [← hAcomp, ← hBcomp] at hlisted
  have hne : A.composition ≠ P.composition ∧ B.composition ≠ P.composition := by
    rw [hPcomp, hAcomp, hBcomp]
    decide
  constructor
  · refine hn.exists_sheds hP hA hB hPsingle hAsingle hBsingle hlisted.1 hne.1 hemit.1 hmobile ?_
    rw [hAlo, hBlo, hPlo, add_point]
    rfl
  · refine hn.exists_sheds hP hB hA hPsingle hBsingle hAsingle hlisted.2.1 hne.2 hemit.2.1 hmobile.symm ?_
    rw [hAlo, hBlo, hPlo, add_point]
    rfl

end Generated

theorem one_le_iff {m : UInt32} : 1 ≤ m ↔ (1 : Int) ≤ m.toNat := by
  rw [UInt32.le_iff_toNat_le, show (1 : UInt32).toNat = 1 from rfl]
  omega

/-- A xenon network has one monomer, so it doubles nothing. -/
theorem Crossed.not_xenon [Analytic α] {n : Network α} {params : NetworkParams α} (hn : n.Built)
    (hchoice : params.chooseMaterial = .ok n.material) {i j : Nat} {parent a b : Cluster α}
    (h : n.Crossed i j parent a b) : params.material ≠ .xenon := by
  intro hx
  have hmonomers := Material.monomers_of_xenon hchoice hx
  have ha := List.mem_singleton.mp (hmonomers ▸ h.first_listed)
  have hb := List.mem_singleton.mp (hmonomers ▸ h.second_listed)
  have hlo := hn.placed a h.first_mem (hn.sound.isUnit h.first_mem h.first_single)
  rw [ha, ← hb, hn.placed b h.second_mem (hn.sound.isUnit h.second_mem h.second_single)] at hlo
  exact h.lo_ne hn (Except.ok.inj hlo).symm

theorem nodup_monomers [Analytic α] {m : Material α} {params : NetworkParams α}
    (hchoice : params.chooseMaterial = .ok m) : m.monomers.Nodup := by
  by_cases hx : params.material = .xenon
  · rw [Material.monomers_of_xenon hchoice hx]
    exact List.nodup_singleton _
  · obtain ⟨d, hm⟩ := Material.isMetal_of_chooseMaterial hchoice hx
    rw [hm.monomers_eq]
    decide

/-- The doubled dissociations of a generated network are those of one helium atom in one vacancy, which
    sheds the one as well as the other. There are such exactly when the material is a metal, both
    defects are tracked and one of them moves. -/
theorem doubles_iff [Analytic α] {params : NetworkParams α} {n : Network α}
    (h : Network.ofParams params = .ok n) :
    (∀ i j, n.Doubles i j ↔
      n.Sheds i .bubble (.single .helium 1) (.single .vacancy 1) ∧
          n.Sheds j .bubble (.single .vacancy 1) (.single .helium 1) ∨
        n.Sheds i .bubble (.single .vacancy 1) (.single .helium 1) ∧
          n.Sheds j .bubble (.single .helium 1) (.single .vacancy 1)) ∧
    ((∃ i j, n.Doubles i j) ↔
      params.material ≠ .xenon ∧ 1 ≤ params.maxHelium ∧ 1 ≤ params.maxVacancy ∧
        (n.material.moves (.single .helium 1) = true ∨ n.material.moves (.single .vacancy 1) = true)) := by
  obtain ⟨hn, hchoice, p, G⟩ := generated_of_ofParams h
  have hcrossed : ∀ {i j}, n.Doubles i j → ∃ d, n.material.IsMetal params d ∧
      params.material ≠ .xenon ∧ ∃ parent a b, n.Crossed i j parent a b := fun {i j} hd => by
    obtain ⟨parent, a, b, hc⟩ := hn.crossed_of_doubles (nodup_monomers hchoice) hd
    have hx := hc.not_xenon hn hchoice
    obtain ⟨d, hm⟩ := Material.isMetal_of_chooseMaterial hchoice hx
    exact ⟨d, hm, hx, parent, a, b, hc⟩
  refine ⟨fun i j => ⟨fun hd => ?_, ?_⟩, ?_, ?_⟩
  · obtain ⟨d, hm, -, parent, a, b, hc⟩ := hcrossed hd
    have hsheds := G.sheds_of_crossed hn hm hchoice hc
    obtain ⟨⟨ha, hb⟩ | ⟨ha, hb⟩, -⟩ := G.compositions_of_crossed hn hm hc
    · exact .inl (ha ▸ hb ▸ hsheds)
    · exact .inr (ha ▸ hb ▸ hsheds)
  · rintro (⟨hi, hj⟩ | ⟨hi, hj⟩)
    · exact hn.doubles_of_sheds (by decide) hi hj
    · exact hn.doubles_of_sheds (by decide) hi hj
  · rintro ⟨i, j, hd⟩
    obtain ⟨d, hm, hx, parent, a, b, hc⟩ := hcrossed hd
    obtain ⟨hh, hv, hmoves⟩ := G.bounds_of_crossed hn hm hc
    rw [hm.maxHelium_eq] at hh
    rw [hm.maxVacancy_eq] at hv
    exact ⟨hx, one_le_iff.mpr hh, one_le_iff.mpr hv, hmoves⟩
  · rintro ⟨hx, hh, hv, hmoves⟩
    obtain ⟨d, hm⟩ := Material.isMetal_of_chooseMaterial hchoice hx
    obtain ⟨⟨i, hi⟩, j, hj⟩ := G.exists_sheds hn hm hchoice
      (hm.maxHelium_eq ▸ one_le_iff.mp hh) (hm.maxVacancy_eq ▸ one_le_iff.mp hv) hmoves
    exact ⟨i, j, hn.doubles_of_sheds (by decide) hi hj⟩

end Network

/-- The smallest iron network takes its one bubble of one helium atom apart twice. -/
theorem Pair.exists_doubles : ∃ n, Network.ofParams params = .ok n ∧ ∃ i j, n.Doubles i j := by
  obtain ⟨n, h, -, hmoves⟩ := ofParams_ok
  exact ⟨n, h, (Network.doubles_iff h).2.mpr ⟨by decide, by decide, by decide, .inl hmoves⟩⟩

end ClusterDynamics
