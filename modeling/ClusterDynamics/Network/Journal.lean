import ClusterDynamics.Network.Builder

/-! The journal of a construction: one line per stage, with what it found. The lines are a function of
    the parameters, and they end where the construction fails. -/

namespace ClusterDynamics

/-- How much a line of the journal matters. -/
inductive JournalLevel
  | debug
  | info
  | warn
deriving DecidableEq, Repr

/-- The written name of a level. -/
def JournalLevel.text : JournalLevel → String
  | .debug => "DEBUG"
  | .info => "INFO"
  | .warn => "WARN"

/-- A line of the journal. -/
structure JournalLine where
  level : JournalLevel
  message : String
deriving DecidableEq, Repr

/-- The line as it is printed. -/
def JournalLine.text (l : JournalLine) : String := l.level.text ++ " " ++ l.message

namespace Journal

variable {α : Type}

/-- The chosen material; xenon also notes its lattice constant. -/
def materialLines [Analytic α] [ScalarText α] (params : NetworkParams α) (m : Material α) :
    List JournalLine :=
  (if params.material = .xenon then
    [⟨.debug, "Xenon in UO2 (a = " ++ ScalarText.plain (Xenon.lattice : α)
      ++ " nm) ignores helium/vacancy/interstitial bounds"⟩]
  else []) ++
    [⟨.debug, "Material " ++ m.name ++ " with bounds " ++ m.rule.bounds.text⟩]

/-- Every dropped region, the count of all regions, and a warning if any was dropped. -/
def partitionLines (m : Material α) (p : Partition) : List JournalLine :=
  let stats := p.stats
  (p.regions .dropped).map
      (fun r => ⟨.debug, "Dropping partly admissible region " ++ r.text⟩) ++
    [⟨.debug, "Generator visited " ++ toString stats.visited ++ " regions, admitted "
      ++ toString stats.admitted ++ " (" ++ toString stats.grouped ++ " grouped), dropped "
      ++ toString stats.droppedRegions⟩] ++
    (if 0 < stats.droppedRegions then
      [⟨.warn, m.name ++ ": " ++ toString stats.droppedRegions ++ " partly admissible regions ("
        ++ toString stats.droppedCompositions ++ " compositions) dropped at minimum width"⟩]
    else [])

/-- The reactions that were built, and the pairs that made none. -/
def reactionLine (t : ReactionTally) : JournalLine :=
  ⟨.debug, "Built " ++ toString t.productions ++ " productions (" ++ toString t.recombinations
    ++ " recombination pieces, " ++ toString t.pairsWithoutProduct
    ++ " pairs without product) and " ++ toString t.dissociations ++ " dissociations ("
    ++ toString t.withoutReverse ++ " without reverse, " ++ toString t.absentMonomers
    ++ " absent monomers)"⟩

/-- The size of the finished network. -/
def summaryLine (n : Network α) : JournalLine :=
  ⟨.info, "Network " ++ n.material.name ++ ": " ++ toString n.clusters.size ++ " clusters ("
    ++ toString (n.countKind .single) ++ " single, " ++ toString (n.countKind .mixed)
    ++ " mixed, " ++ toString (n.countKind .grouped) ++ " super), " ++ toString n.dof ++ " DOF, "
    ++ toString n.productionCount ++ " productions, " ++ toString n.dissociationCount
    ++ " dissociations, " ++ toString n.sparsity.size ++ " non-zeros"⟩

/-- The lines written while a network is built from parameters, and how the construction ends. -/
def ofParams [Analytic α] [ScalarText α] (params : NetworkParams α) :
    List JournalLine × Except (NetworkFault α) (Network α) :=
  match Builder.ofParams params with
  | .error fault => ([], .error fault)
  | .ok b =>
    let opening := materialLines params b.material
    match b.material.generate with
    | .error fault => (opening, .error fault)
    | .ok (seeds, partition) =>
      let generated := opening ++ partitionLines b.material partition
      match b.addAll seeds with
      | (_, .error fault) => (generated, .error fault)
      | (b, .ok ()) =>
        match b.finish with
        | .error fault => (generated, .error fault)
        | .ok n => (generated ++ [reactionLine n.tally, summaryLine n], .ok n)

end Journal
end ClusterDynamics
