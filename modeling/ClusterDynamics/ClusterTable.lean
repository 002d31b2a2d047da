import ClusterDynamics.Network

/-! The cluster table: one row per cluster with its physics, separated by commas, for a look at a
    network in a spreadsheet. -/

namespace ClusterDynamics
namespace ClusterTable

/-- A cell as it stands in the table: in quotes when it holds a separator, a quote or a line end. -/
def cell (s : String) : String :=
  if s.toList.any fun c => c == ',' || c == '"' || c == '\n' || c == '\r' then
    "\"" ++ String.ofList (s.toList.flatMap fun c => if c = '"' then ['"', '"'] else [c]) ++ "\""
  else s

/-- A row with the line end behind it. -/
def row (cells : List String) : String := ",".intercalate (cells.map cell) ++ "\n"

/-- The names of the columns. -/
def header : List String :=
  ["id", "name", "kind", "compositions", "formation_energy", "migration_energy", "diffusion_factor",
    "reaction_radius"]

variable {α : Type} [Analytic α] [ScalarText α]

/-- The cells of a cluster. A cluster that never moves has an infinite migration energy. -/
def cells (c : Cluster α) : List String :=
  [toString c.id, c.name, c.kind.text, toString c.volume,
    ScalarText.cell c.properties.formationEnergy,
    ScalarText.cell (c.properties.migrationEnergy.getD Analytic.infinity),
    ScalarText.cell c.properties.diffusionFactor, ScalarText.cell c.properties.reactionRadius]

/-- Header and rows of a network. -/
def text (n : Network α) : String :=
  String.join (row header :: n.clusters.toList.map fun c => row (cells c))

/-- The names in the table are made of machine words. -/
def textFits (n : Network α) : Bool := n.clusters.all Cluster.nameFits

end ClusterTable
end ClusterDynamics
