import ClusterDynamics.Proofs.Accumulation
import ClusterDynamics.Proofs.SeedOrder

/-! The dissociation switch. Only the rate constants read the switch of a run: with and without dissociation the
    same seeds are placed, numbered and connected, or the same fault stops the construction. Switching
    dissociation off is therefore switching off rates, whatever the scalar; in exact arithmetic records with a
    rate of zero leave every row as it is. -/

namespace ClusterDynamics

/-! ### Construction -/

section
variable {α : Type}

/-- The same run with dissociation switched on or off. -/
def NetworkParams.withDissociation (p : NetworkParams α) (on : Bool) : NetworkParams α :=
  { p with dissociation := on }

/-- A material with its dissociations switched on or off. -/
def Material.withDissociation (m : Material α) (on : Bool) : Material α := { m with dissociation := on }

/-- A builder with its dissociations switched on or off. -/
def Builder.withDissociation (b : Builder α) (on : Bool) : Builder α :=
  { b with params := b.params.withDissociation on, material := b.material.withDissociation on }

/-- A network with its dissociations switched on or off; its reactions stay. -/
def Network.withDissociation (n : Network α) (on : Bool) : Network α :=
  { n with params := n.params.withDissociation on, material := n.material.withDissociation on }

theorem NetworkParams.chooseMaterial_withDissociation [Analytic α] (p : NetworkParams α) (on : Bool) :
    (p.withDissociation on).chooseMaterial = p.chooseMaterial.map (·.withDissociation on) := by
  have hvalid : (p.withDissociation on).validate = p.validate := rfl
  have hbuild : ∀ kind : MaterialKind,
      kind.build (p.withDissociation on) = (kind.build p).map (·.withDissociation on) := by
    intro kind
    cases kind with
    | tungsten =>
      show (if ConfigFault.tabulatedHelium < p.maxHelium.toNat then _ else _) = _
      unfold MaterialKind.build
      split_ifs <;> rfl
    | iron => rfl
    | xenon =>
      show (if p.maxXenon = 0 then _ else _) = _
      unfold MaterialKind.build
      split_ifs <;> rfl
  unfold chooseMaterial
  rw [hvalid]
  cases p.validate with
  | error fault => rfl
  | ok => exact hbuild p.material

namespace Builder

variable (b : Builder α) (on : Bool)

theorem add_withDissociation (s : ClusterSeed α) :
    (b.withDissociation on).add s = (b.add s).map (·.withDissociation on) := by
  have hcheck : (b.withDissociation on).check s = b.check s := rfl
  unfold add
  rw [hcheck]
  cases b.check s <;> rfl

theorem addAll_withDissociation : ∀ (seeds : List (ClusterSeed α)) (b : Builder α),
    (b.withDissociation on).addAll seeds = ((b.addAll seeds).1.withDissociation on, (b.addAll seeds).2)
  | [], _ => rfl
  | s :: rest, b => by
    rw [addAll, addAll, add_withDissociation]
    cases b.add s with
    | error fault => rfl
    | ok b' => exact addAll_withDissociation rest b'

variable [Scalar α]

theorem generate_withDissociation :
    (b.withDissociation on).generate = (b.generate.1.withDissociation on, b.generate.2) := by
  have hgenerate : (b.withDissociation on).material.generate = b.material.generate := rfl
  unfold generate
  rw [hgenerate]
  cases b.material.generate with
  | error fault => rfl
  | ok x =>
    dsimp only
    rw [addAll_withDissociation]
    obtain ⟨b', result⟩ := b.addAll x.1
    cases result <;> rfl

theorem finish_withDissociation :
    (b.withDissociation on).finish = b.finish.map (·.withDissociation on) := by
  unfold finish
  show (do
    if b.seeds.isEmpty then throw (NetworkFault.noClusters b.material.name)
    let population ← Population.ofSeeds b.seeds.toList
    let plan := ReactionPlan.ofPopulation b.material population
    NetworkFault.require (plan.rangeFits b.material population)
    return (Network.assemble b.params b.material population plan).withDissociation on) = _
  cases b.seeds.isEmpty with
  | true => rfl
  | false =>
    cases Population.ofSeeds b.seeds.toList with
    | error fault => rfl
    | ok population =>
      let plan := ReactionPlan.ofPopulation b.material population
      show (NetworkFault.require (plan.rangeFits b.material population) >>= fun _ => .ok _) =
        (NetworkFault.require (plan.rangeFits b.material population) >>= fun _ => .ok _).map _
      cases plan.rangeFits b.material population <;> rfl

end Builder

theorem Network.ofParams_withDissociation [Analytic α] (p : NetworkParams α) (on : Bool) :
    Network.ofParams (p.withDissociation on) = (Network.ofParams p).map (·.withDissociation on) := by
  have hrun : ∀ p : NetworkParams α, Network.ofParams p =
      (Builder.ofParams p).bind fun b => b.generate.2.bind fun _ => b.generate.1.finish := fun _ => rfl
  rw [hrun, hrun]
  unfold Builder.ofParams
  rw [NetworkParams.chooseMaterial_withDissociation]
  cases p.chooseMaterial with
  | error cause => rfl
  | ok m =>
    let start := Builder.withMaterial p m
    show (start.withDissociation on).generate.2.bind
        (fun _ => (start.withDissociation on).generate.1.finish) =
      (start.generate.2.bind fun _ => start.generate.1.finish).map (·.withDissociation on)
    rw [Builder.generate_withDissociation]
    cases start.generate.2 with
    | error fault => rfl
    | ok => exact start.generate.1.finish_withDissociation on

/-! ### Rate constants -/

/-- Reaction `i` is a production. -/
def Network.produces (n : Network α) (i : Nat) : Bool := n.reactions[i]?.any Reaction.isProduction

namespace RateConstants

section
variable [Analytic α]

theorem rates_withDissociation_false (n : Network α) (T : α) (productions : Array α)
    (hp : productions = n.reactions.map (productionRate n (diffusionOf n T))) :
    productions = ((if n.material.dissociation then
        Array.zipWith (fun r k => (dissociationRate n T productions r).getD k) n.reactions productions
      else productions).mapIdx fun i x => if n.produces i then x else 0) := by
  have hsize : productions.size = n.reactions.size := by rw [hp, Array.size_map]
  refine Array.ext ?_ fun i hi hi' => ?_
  · split_ifs <;> simp [hsize]
  · have hreaction : i < n.reactions.size := hsize ▸ hi
    have hproduces : n.produces i = n.reactions[i].isProduction := by
      rw [Network.produces, Array.getElem?_eq_getElem hreaction, Option.any_some]
    rw [Array.getElem_mapIdx, hproduces]
    cases hr : n.reactions[i] with
    | production first second =>
      rw [Reaction.isProduction, if_pos rfl]
      split_ifs
      · rw [Array.getElem_zipWith, hr]; rfl
      · rfl
    | dissociation parent first second reverse energy =>
      rw [Reaction.isProduction, if_neg Bool.false_ne_true]
      simp only [hp, Array.getElem_map, hr, productionRate]

/-- Without dissociation, a network has the constants that it has with it, except that every dissociation is
    switched off. -/
theorem compute_withDissociation_false (n : Network α) (T : α) :
    compute (n.withDissociation false) T = (compute n T).map (·.keepOnly n.produces) := by
  rw [compute, compute]
  split
  case isTrue => rfl
  case isFalse =>
    let diffusion := diffusionOf n T
    let productions := n.reactions.map (productionRate n diffusion)
    exact congrArg
      (fun rates => Except.ok (RateConstants.mk T rates diffusion (productions.foldl Scalar.larger 0)))
      (rates_withDissociation_false n T productions rfl)

end

variable [Scalar α]

/-- The constants `k'` are those of `k` with every dissociation switched off. -/
structure Silences (n : Network α) (k k' : RateConstants α) : Prop where
  size : k'.rates.size = k.rates.size
  diffusion : k'.diffusion = k.diffusion
  production : ∀ {i first second}, n.reactions[i]? = some (.production first second) → k'.rate i = k.rate i
  dissociation : ∀ {i parent first second reverse energy},
    n.reactions[i]? = some (.dissociation parent first second reverse energy) → k'.rate i = 0

theorem rate_keepOnly (k : RateConstants α) (keep : Nat → Bool) (i : Nat) :
    (k.keepOnly keep).rate i = if keep i then k.rate i else 0 := by
  simp only [rate, keepOnly, Array.getD_eq_getD_getElem?, Array.getElem?_mapIdx]
  cases k.rates[i]? with
  | none => exact (ite_self 0).symm
  | some x => rfl

theorem silences_keepOnly (n : Network α) (k : RateConstants α) : k.Silences n (k.keepOnly n.produces) where
  size := Array.size_mapIdx
  diffusion := rfl
  production h := by
    rw [rate_keepOnly, Network.produces, h]
    rfl
  dissociation h := by
    rw [rate_keepOnly, Network.produces, h]
    rfl

end RateConstants
end

/-! ### Rows -/

namespace Network

section
variable {K : Type} [Field K] [LinearOrder K] {n : Network K} {k k' : RateConstants K} {state : Array K}
  {c : Cluster K} (A : n.RecordsAgree c) (hk : k.Silences n k') (j : BasisIndex)
include A hk

theorem get_production_of_silences :
    (n.terms k' state c).production.get j = (n.terms k state c).production.get j := by
  rw [terms, terms, get_productionTerm, get_productionTerm]
  refine congrArg List.sum (List.map_congr_left fun r hr => ?_)
  rw [productionRow, productionRow, hk.production (A.production r hr)]

theorem get_combination_of_silences :
    (n.terms k' state c).combination.get j = (n.terms k state c).combination.get j := by
  rw [terms, terms, get_combinationTerm, get_combinationTerm]
  refine congrArg List.sum (List.map_congr_left fun r hr => ?_)
  obtain ⟨g, -, s, -, hreaction, -⟩ := A.combining_total r hr
  rw [combinationRow, combinationRow, hk.production hreaction]

theorem get_dissociation_of_silences : (n.terms k' state c).dissociation.get j = 0 := by
  rw [terms, get_dissociationTerm]
  refine List.sum_eq_zero (List.forall_mem_map.mpr fun r hr => ?_)
  obtain ⟨P, -, M, -, R, -, ⟨reverse, energy, hreaction⟩, -⟩ := A.dissociating_total r hr
  rw [dissociationRow, hk.dissociation hreaction, mul_zero]

theorem get_emission_of_silences : (n.terms k' state c).emission.get j = 0 := by
  rw [terms, get_emissionTerm]
  refine List.sum_eq_zero (List.forall_mem_map.mpr fun r hr => ?_)
  obtain ⟨reverse, energy, hreaction⟩ := (A.emission _ _ _).mp ⟨r, hr, rfl, rfl⟩
  rw [emissionRow, hk.dissociation hreaction, mul_zero, neg_zero]

/-- Switching the dissociations off takes their two terms out of every row. -/
theorem get_total_of_silences : (n.terms k' state c).total.get j =
    (n.terms k state c).total.get j -
      ((n.terms k state c).dissociation.get j + (n.terms k state c).emission.get j) := by
  have hsink : (n.terms k' state c).sink = (n.terms k state c).sink := by
    simp only [terms, sinkTerm, RateConstants.diffusion?, hk.diffusion]
  rw [get_total, get_total, get_production_of_silences A hk, get_combination_of_silences A hk,
    get_dissociation_of_silences A hk, get_emission_of_silences A hk, hsink]
  ring

end

/-- The second network is the first one with dissociation switched off. Only what fluxes lose depends on how
    numbers are rounded. -/
structure LosesDissociation {α : Type} [A : Analytic α] (n n' : Network α) : Prop where
  /-- Clusters, their numbers and slots, and the index over their regions. -/
  population : n'.toPopulation = n.toPopulation
  reactions : n'.reactions = n.reactions
  links : n'.links = n.links
  sinks : n'.sinks = n.sinks
  sparsity : n'.sparsity = n.sparsity
  switched : n.material.dissociation = true ∧ n'.material.dissociation = false
  computed : ∀ T, Scalar.isFinite T = true → 0 < T →
    ∃ k k', RateConstants.compute n T = .ok k ∧ RateConstants.compute n' T = .ok k'
  rates : ∀ T k k', RateConstants.compute n T = .ok k → RateConstants.compute n' T = .ok k' →
    k.Silences n k'
  /-- In exact arithmetic, fluxes lose what dissociation and emission contribute. -/
  fluxes : A.IsExact → ∀ T k k', RateConstants.compute n T = .ok k → RateConstants.compute n' T = .ok k' →
    ∀ state out : Array α, state.size = n.dof → out.size = n.dof →
      ∃ f f' b, n.addFluxes k state out = .ok f ∧ n'.addFluxes k' state out = .ok f' ∧
        n.fluxBreakdown k state = .ok b ∧ f.size = n.dof ∧ f'.size = n.dof ∧ ∀ slot < n.dof,
          State.value f' slot =
            State.value f slot - (State.value b.dissociation slot + State.value b.emission slot)
  /-- Derivatives are those of constants whose dissociations are switched off. -/
  jacobians : ∀ T k k', RateConstants.compute n T = .ok k → RateConstants.compute n' T = .ok k' →
    ∀ state values : Array α,
      n'.addJacobian k' state values = n.addJacobian (k.keepOnly n.produces) state values

/-- In a finished network, switching the dissociations off takes their breakdown out of the flux. -/
theorem Built.addFluxes_of_silences {K : Type} [Field K] [LinearOrder K] {n : Network K}
    {k k' : RateConstants K} {state out : Array K} (hn : n.Built) (hfits : k.Fits n) (hk : k.Silences n k')
    (hs : state.size = n.dof) (ho : out.size = n.dof) :
    ∃ f f' b, n.addFluxes k state out = .ok f ∧ n.addFluxes k' state out = .ok f' ∧
      n.fluxBreakdown k state = .ok b ∧ f.size = n.dof ∧ f'.size = n.dof ∧ ∀ slot < n.dof,
        State.value f' slot =
          State.value f slot - (State.value b.dissociation slot + State.value b.emission slot) := by
  have hfits' : k'.Fits n := ⟨hk.size.trans hfits.rates, hk.diffusion ▸ hfits.diffusion⟩
  obtain ⟨f, hf, hfsize, hfrow⟩ := addFluxes_eq_ok hn.sound hfits hs ho
  obtain ⟨f', hf', hfsize', hfrow'⟩ := addFluxes_eq_ok hn.sound hfits' hs ho
  obtain ⟨b, hb, -, hbrow⟩ := fluxBreakdown_eq_ok hn.sound hfits hs
  refine ⟨f, f', b, hf, hf', hb, hfsize, hfsize', fun slot hslot => ?_⟩
  obtain ⟨⟨c, j⟩, ⟨hc, hj⟩, -⟩ := (hn.sound.existsUnique_owner slot).mp hslot
  obtain ⟨-, -, hdissociation, hemission, -⟩ := hbrow c hc _ hj
  rw [hfrow' c hc _ hj, hfrow c hc _ hj, hdissociation, hemission,
    get_total_of_silences (hn.recordsAgree hc) hk, add_sub_assoc]

/-- A finished network with dissociation loses its dissociations and nothing else. -/
theorem Built.losesDissociation {α : Type} [A : Analytic α] {n : Network α} (hn : n.Built)
    (hon : n.material.dissociation = true) : n.LosesDissociation (n.withDissociation false) := by
  have hkeep : ∀ T k k', RateConstants.compute n T = .ok k →
      RateConstants.compute (n.withDissociation false) T = .ok k' → k' = k.keepOnly n.produces := by
    intro T k k' hk hk'
    rw [RateConstants.compute_withDissociation_false, hk] at hk'
    exact (Except.ok.inj hk').symm
  exact {
    population := rfl, reactions := rfl, links := rfl, sinks := rfl, sparsity := rfl, switched := ⟨hon, rfl⟩
    computed := fun T hfinite hT => by
      obtain ⟨k, hk⟩ := RateConstants.exists_compute hfinite hT
      obtain ⟨k', hk'⟩ := RateConstants.exists_compute hfinite hT
      exact ⟨k, k', hk, hk'⟩
    rates := fun T k k' hk hk' => hkeep T k k' hk hk' ▸ RateConstants.silences_keepOnly n k
    fluxes := fun hA T k k' hk hk' state out hs ho => by
      obtain rfl := hkeep T k k' hk hk'
      have hfits := RateConstants.fits_of_compute hk
      have hsilences := RateConstants.silences_keepOnly n k
      clear hkeep hk hk'
      obtain ⟨field, order, ordered, hA⟩ := hA
      obtain ⟨pi, exp, sqrt, cbrt, pow, infinity, floor⟩ := A
      dsimp only at hA
      subst hA
      exact hn.addFluxes_of_silences hfits hsilences hs ho
    jacobians := fun T k k' hk hk' state values => by
      obtain rfl := hkeep T k k' hk hk'
      rfl }

/-- A run with dissociation and the same run without it build networks that differ by their dissociations alone,
    or fail alike. -/
theorem losesDissociation_of_ofParams {α : Type} [Analytic α] (p : NetworkParams α) :
    (∃ n n', ofParams (p.withDissociation true) = .ok n ∧ ofParams (p.withDissociation false) = .ok n' ∧
      n.LosesDissociation n') ∨
    ∃ fault, ofParams (p.withDissociation true) = .error fault ∧
      ofParams (p.withDissociation false) = .error fault := by
  have hoff : p.withDissociation false = (p.withDissociation true).withDissociation false := rfl
  rw [hoff, ofParams_withDissociation (p.withDissociation true)]
  cases hn : ofParams (p.withDissociation true) with
  | error fault => exact .inr ⟨fault, rfl, rfl⟩
  | ok n =>
    obtain ⟨hbuilt, hchoice, -⟩ := generated_of_ofParams hn
    have hon : n.material.dissociation = true := Material.dissociation_of_chooseMaterial hchoice
    exact .inl ⟨n, n.withDissociation false, rfl, rfl, hbuilt.losesDissociation hon⟩

end Network

namespace Pair

/-- Bubbles of up to four helium atoms in one vacancy shed what they hold, unless they are told not to. -/
theorem losesDissociation_metal : (inferInstance : Analytic ℚ).IsExact ∧
    ∃ n n', Network.ofParams (params.withDissociation true) = .ok n ∧
      Network.ofParams (params.withDissociation false) = .ok n' ∧ 0 < n.dissociationCount ∧
        n.LosesDissociation n' := by
  refine ⟨⟨_, _, inferInstance, rfl⟩, ?_⟩
  obtain ⟨n, hn, hcount⟩ : ∃ n, Network.ofParams params = .ok n ∧ 0 < n.dissociationCount :=
    exists_eq_ok (by decide +kernel)
  have hon : Network.ofParams (params.withDissociation true) = .ok n := hn
  rcases Network.losesDissociation_of_ofParams params with ⟨m, n', hm, hn', h⟩ | ⟨fault, hfault, -⟩
  · obtain rfl : n = m := Except.ok.inj (hon.symm.trans hm)
    exact ⟨n, n', hon, hn', hcount, h⟩
  · rw [hon] at hfault
    cases hfault

end Pair
end ClusterDynamics
