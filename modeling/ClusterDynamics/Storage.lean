import ClusterDynamics.ClusterTable
import ClusterDynamics.Snapshot

/-! Files as values: what is written to a path, what is made of the text found there, and what is
    reported when the path cannot be used. -/

namespace ClusterDynamics

/-- Why a file operation failed, with the path it was given. -/
inductive StorageFault
  | cannotCreateSnapshot (path : String)
  | cannotOpenSnapshot (path : String)
  | malformedSnapshot (path : String)
  | cannotCreateTable (path : String)
deriving DecidableEq, Repr

/-- The text that reports a failed file operation. -/
def StorageFault.message : StorageFault → String
  | .cannotCreateSnapshot path => "Failed to create snapshot file " ++ path
  | .cannotOpenSnapshot path => "Failed to open snapshot file " ++ path
  | .malformedSnapshot path => "Malformed snapshot in " ++ path
  | .cannotCreateTable path => "Failed to create cluster table " ++ path

namespace Storage

variable {α : Type} [Analytic α] [ScalarText α]

/-- The text that goes to a snapshot file, if the file can be created. -/
def snapshotText (path : String) (creatable : Bool) (s : NetworkSnapshot α) :
    Except StorageFault String :=
  if creatable then .ok s.fileText else .error (.cannotCreateSnapshot path)

/-- The snapshot in a file with the given contents; `none` stands for a file that cannot be opened. -/
def readSnapshot (path : String) : Option String → Except StorageFault (NetworkSnapshot α)
  | none => .error (.cannotOpenSnapshot path)
  | some text =>
    match NetworkSnapshot.ofText? text with
    | some s => .ok s
    | none => .error (.malformedSnapshot path)

/-- The text that goes to a cluster table, if the file can be created. -/
def tableText (path : String) (creatable : Bool) (n : Network α) : Except StorageFault String :=
  if creatable then .ok (ClusterTable.text n) else .error (.cannotCreateTable path)

end Storage
end ClusterDynamics
