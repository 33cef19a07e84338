import CodeGraph.Files.FileTree
import CodeGraph.Snapshot.Format

/-!
# Snapshots in file trees

A store is saved as a snapshot at a path and opened from there; where nothing is, the store is
empty. A `SnapshotError` tells its story from the outside in.
-/

namespace CodeGraph

/-- Why a store could not be saved or opened. -/
inductive SnapshotError
  | store (cause : StoreError)
  | file (cause : FileError)
  | malformed (cause : Snapshot.Fault)
deriving DecidableEq, Inhabited

/-- What went wrong, and what lies behind it. -/
def SnapshotError.messages : SnapshotError → List String
  | store cause => [cause.message]
  | file cause => [s!"snapshot I/O failed: {cause.message}", cause.message]
  | malformed cause => [s!"snapshot is corrupt: {cause.message}", cause.message]

namespace Store

/-- Save a store at an absolute path; answers the tree with the snapshot in it. -/
def saveTo (s : Store) (files : FileTree) (path savedAt : String) :
    Except SnapshotError FileTree := do
  let bytes ← (s.save savedAt).mapError .store
  (files.write (Path.place path) bytes).mapError .file

/-- Open the store at an absolute path. -/
def openFrom (files : FileTree) (path : String) : Except SnapshotError Store :=
  match files.find? (Path.place path) with
  | none => .ok empty
  | some (.directory _) => .error (.file .isDirectory)
  | some (.file bytes) => (load bytes).mapError .malformed

end Store

end CodeGraph
