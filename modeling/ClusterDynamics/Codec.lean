import ClusterDynamics.Json.Decode
import ClusterDynamics.Json.Parser
import ClusterDynamics.Json.Printer
import ClusterDynamics.Inventory

/-! The written forms of the domain's types. Each type has a writer `toJson` and a reader `ofJson?`;
    reading checks the form alone and validates nothing. -/

namespace ClusterDynamics

/-! ### Species and compositions -/

/-- The name of a species in data files. -/
def Species.name : Species → String
  | .helium => "Helium"
  | .xenon => "Xenon"
  | .vacancy => "Vacancy"
  | .interstitial => "Interstitial"

/-- The species with a given name. -/
def Species.ofName? (s : String) : Option Species := Species.all.find? fun x => x.name == s

/-- A species is written as its name. -/
def Species.toJson (s : Species) : Json := .text s.name

/-- The species that a value names. -/
def Species.ofJson? (j : Json) : Option Species := j.choice? Species.ofName?

/-- A composition is written as a record with a count for each species. -/
def Composition.toJson (c : Composition) : Json :=
  .record [("counts", Json.ofList (fun n => .nat n.toNat) c.counts)]

/-- The composition that a record describes. -/
def Composition.ofJson? (j : Json) : Option Composition := do
  let f ← Json.Fields.of? ["counts"] j
  let n ← f.required "counts" (Json.vector? 4 Json.count?)
  return ⟨n[0], n[1], n[2], n[3]⟩

/-! ### Kinds and parameters -/

/-- The kind with a given written name. -/
def ClusterKind.ofName? (s : String) : Option ClusterKind :=
  [ClusterKind.single, .mixed, .grouped].find? fun k => k.text == s

/-- A kind is written as its name. -/
def ClusterKind.toJson (k : ClusterKind) : Json := .text k.text

/-- The kind that a value names. -/
def ClusterKind.ofJson? (j : Json) : Option ClusterKind := j.choice? ClusterKind.ofName?

/-- The material with a given written name. -/
def MaterialKind.ofName? (s : String) : Option MaterialKind :=
  [MaterialKind.tungsten, .iron, .xenon].find? fun k => k.name == s

/-- A material is written as its name. -/
def MaterialKind.toJson (k : MaterialKind) : Json := .text k.name

/-- The material that a value names. -/
def MaterialKind.ofJson? (j : Json) : Option MaterialKind := j.choice? MaterialKind.ofName?

section

variable {α : Type} [Scalar α] [ScalarText α]

/-- Grouping parameters are written with every field. -/
def GroupingParams.toJson (g : GroupingParams α) : Json :=
  .record [("start", .nat g.start.toNat), ("width", .nat g.width.toNat),
    ("growth", Json.ofScalar g.growth), ("min_width", .nat g.minWidth.toNat)]

/-- The grouping parameters that a record describes. -/
def GroupingParams.ofJson? (j : Json) : Option (GroupingParams α) := do
  let f ← Json.Fields.of? ["start", "width", "growth", "min_width"] j
  return ⟨← f.required "start" Json.count?, ← f.required "width" Json.count?,
    ← f.required "growth" Json.scalar?, ← f.required "min_width" Json.count?⟩

/-- Network parameters are written with every field; null stands for no grouping. -/
def NetworkParams.toJson (p : NetworkParams α) : Json :=
  .record [("material", p.material.toJson), ("max_helium", .nat p.maxHelium.toNat),
    ("max_vacancy", .nat p.maxVacancy.toNat), ("max_interstitial", .nat p.maxInterstitial.toNat),
    ("max_xenon", .nat p.maxXenon.toNat), ("grouping", Json.ofOption GroupingParams.toJson p.grouping),
    ("dissociation_enabled", .bool p.dissociation), ("sink_strength", Json.ofScalar p.sinkStrength)]

/-- Every field that is left out keeps its standard value. -/
def NetworkParams.ofJson? (j : Json) : Option (NetworkParams α) := do
  let standard : NetworkParams α := .standard
  let f ← Json.Fields.of? ["material", "max_helium", "max_vacancy", "max_interstitial", "max_xenon",
    "grouping", "dissociation_enabled", "sink_strength"] j
  return {
    material := ← f.withDefault "material" MaterialKind.ofJson? standard.material
    maxHelium := ← f.withDefault "max_helium" Json.count? standard.maxHelium
    maxVacancy := ← f.withDefault "max_vacancy" Json.count? standard.maxVacancy
    maxInterstitial := ← f.withDefault "max_interstitial" Json.count? standard.maxInterstitial
    maxXenon := ← f.withDefault "max_xenon" Json.count? standard.maxXenon
    grouping := ← f.withDefault "grouping" (Json.option? GroupingParams.ofJson?) standard.grouping
    dissociation := ← f.withDefault "dissociation_enabled" Json.bool? standard.dissociation
    sinkStrength := ← f.withDefault "sink_strength" Json.scalar? standard.sinkStrength }

/-- The validated parameters of a text. -/
def NetworkParams.ofText (s : String) : Except (NetworkFault α) (NetworkParams α) :=
  match (Json.ofString? s).bind NetworkParams.ofJson? with
  | none => .error .malformed
  | some p =>
    match p.validate with
    | .ok () => .ok p
    | .error cause => .error (.config cause)

/-- The validated parameters of a file; `none` stands for a file that cannot be read. -/
def NetworkParams.ofFile : Option String → Except (NetworkFault α) (NetworkParams α)
  | none => .error .unreadable
  | some s => ofText s

end

/-! ### Phase space and regions -/

/-- An axis is written as a record of its species; null stands for no negative one. -/
def Axis.toJson (x : Axis) : Json :=
  .record [("positive", x.positive.toJson), ("negative", Json.ofOption Species.toJson x.negative)]

/-- The axis that a record describes. -/
def Axis.ofJson? (j : Json) : Option Axis := do
  let f ← Json.Fields.of? ["positive", "negative"] j
  return ⟨← f.required "positive" Species.ofJson?, ← f.optional "negative" Species.ofJson?⟩

/-- A phase space is written as a record of its axes. -/
def PhaseSpace.toJson (s : PhaseSpace) : Json := .record [("axes", Json.ofList Axis.toJson s.axes)]

/-- The phase space that a record describes; its axes are taken as they are. -/
def PhaseSpace.ofJson? (j : Json) : Option PhaseSpace := do
  let f ← Json.Fields.of? ["axes"] j
  return ⟨← f.required "axes" (Json.list? Axis.ofJson?)⟩

/-- A point is written as the list of its coordinates. -/
def Point.toJson (p : Point) : Json := Json.ofList Json.int p.toList

/-- The point with listed coordinates, one for each axis. -/
def Point.ofJson? (j : Json) : Option Point := j.vector? maxAxes Json.coordinate?

/-- A region is written as a record of its two corners. -/
def Region.toJson (r : Region) : Json :=
  .record [("lo", Point.toJson r.lo), ("hi", Point.toJson r.hi)]

/-- The region that a record describes. -/
def Region.ofJson? (j : Json) : Option Region := do
  let f ← Json.Fields.of? ["lo", "hi"] j
  return ⟨← f.required "lo" Point.ofJson?, ← f.required "hi" Point.ofJson?⟩

/-- A pattern is written as a record of its offsets and columns. -/
def SparsityPattern.toJson (p : SparsityPattern) : Json :=
  .record [("row_offsets", Json.ofList Json.nat p.offsets.toList),
    ("columns", Json.ofList Json.nat p.columns.toList)]

/-- What the generator reports. -/
def PartitionStats.toJson (s : PartitionStats) : Json :=
  .record [("visited", .nat s.visited), ("admitted", .nat s.admitted), ("grouped", .nat s.grouped),
    ("dropped_regions", .nat s.droppedRegions),
    ("dropped_compositions", .int s.droppedCompositions)]

/-- Size and shape of a network. -/
def NetworkStats.toJson (s : NetworkStats) : Json :=
  .record [("material", .text s.material), ("singles", .nat s.singles), ("mixed", .nat s.mixed),
    ("supers", .nat s.supers), ("dof", .nat s.dof), ("productions", .nat s.productions),
    ("dissociations", .nat s.dissociations), ("nonzeros", .nat s.nonzeros),
    ("represented", .int s.represented), ("largest_group", .int s.largestGroup)]

end ClusterDynamics
