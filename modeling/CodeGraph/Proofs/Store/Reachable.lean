import CodeGraph.Proofs.Snapshot.Rebuild
import CodeGraph.Snapshot.Files

/-!
# Reachable stores

A store is reachable if a run of writes and of stores opened from files leads to it from the empty
one. Every reachable store is connected and its state is well formed.
-/

namespace CodeGraph.Store

/-- One successful operation. A single attribute that is written is not the key
attribute of its node. -/
inductive Step : Store → Store → Prop
  | mergeNode {s s' : Store} {key : NodeKey} {given : Attributes} {id : NodeId}
      (h : s.mergeNode key given = .ok (id, s')) : Step s s'
  | mergeEdge {s s' : Store} {start target : NodeKey} {relation : Relation} {id : EdgeId}
      (h : s.mergeEdge start target relation = .ok (id, s')) : Step s s'
  | setAttribute {s s' : Store} {id : NodeId} {name : String} {value : Value}
      (h : s.setAttribute id name value = .ok ((), s'))
      (hname : ∀ n, s.state.graph.node? id = some n → name ≠ n.label.keyAttribute) : Step s s'
  | createIndex {s s' : Store} {index : VectorIndex} (h : s.createIndex index = .ok ((), s')) :
      Step s s'
  | dropIndex {s s' : Store} {name : String} {existed : Bool}
      (h : s.dropIndex name = .ok (existed, s')) : Step s s'
  | wipe {s s' : Store} (h : s.wipe = .ok ((), s')) : Step s s'
  | openFrom {s s' : Store} {files : FileTree} {path : String}
      (h : Store.openFrom files path = .ok s') : Step s s'

/-- The stores that runs of operations lead to. -/
inductive Reachable : Store → Prop
  | empty : Reachable empty
  | step {s s' : Store} (h : Reachable s) (hs : Step s s') : Reachable s'

variable {s s' : Store}

/-- An opened store is the empty one or has the state of a snapshot. -/
theorem openFrom_eq_ok {files : FileTree} {path : String} (h : openFrom files path = .ok s) :
    s = empty ∨ ∃ bytes state, files.find? (Path.place path) = some (.file bytes) ∧
      Snapshot.decode bytes = .ok state ∧ s = ofState state := by
  unfold Store.openFrom at h
  split at h
  case h_1 => cases h; exact .inl rfl
  case h_2 => cases h
  case h_3 bytes hfile =>
    unfold load at h
    cases hdecode : Snapshot.decode bytes with
    | error fault => rw [hdecode] at h; cases h
    | ok state =>
      rw [hdecode] at h
      cases h
      exact .inr ⟨bytes, state, hfile, hdecode, rfl⟩

theorem wellFormed_decode {bytes : Snapshot.Bytes} {state : StoreState}
    (h : Snapshot.decode bytes = .ok state) : state.WellFormed := by
  obtain ⟨snapshot, rest, -, rfl⟩ := Snapshot.decode_eq_ok h
  exact Snapshot.wellFormed_toState snapshot

theorem wellFormed_openFrom {files : FileTree} {path : String} (h : openFrom files path = .ok s) :
    s.state.WellFormed := by
  rcases openFrom_eq_ok h with rfl | ⟨bytes, state, -, hdecode, rfl⟩
  · exact StoreState.wellFormed_empty
  · exact wellFormed_decode hdecode

theorem Step.wellFormed (h : Step s s') (hs : s.state.WellFormed) : s'.state.WellFormed := by
  cases h with
  | mergeNode h => exact wellFormed_mergeNode hs h
  | mergeEdge h => exact wellFormed_mergeEdge hs h
  | setAttribute h hname => exact wellFormed_setAttribute hs h hname
  | createIndex h => exact wellFormed_createIndex hs h
  | dropIndex h => exact wellFormed_dropIndex hs h
  | wipe h => exact wellFormed_wipe h
  | openFrom h => exact wellFormed_openFrom h

theorem connected_of_write {α : Type} {f : StoreState → Except StoreError (α × StoreState)} {a : α}
    (h : s.write f = .ok (a, s')) : s'.connected := by
  obtain ⟨hconnected, state, -, rfl⟩ := write_eq_ok.1 h
  exact hconnected

theorem Step.connected (h : Step s s') : s'.connected := by
  cases h with
  | mergeNode h => exact connected_of_write h
  | mergeEdge h => exact connected_of_write h
  | setAttribute h => exact connected_of_write h
  | createIndex h => exact connected_of_write h
  | dropIndex h => exact connected_of_write h
  | wipe h => exact connected_of_write h
  | openFrom h => rcases openFrom_eq_ok h with rfl | ⟨bytes, state, -, -, rfl⟩ <;> rfl

/-- **The state of a reachable store is well formed.** -/
theorem Reachable.wellFormed (h : Reachable s) : s.state.WellFormed := by
  induction h with
  | empty => exact StoreState.wellFormed_empty
  | step _ hs ih => exact hs.wellFormed ih

theorem Reachable.connected (h : Reachable s) : s.connected := by
  cases h with
  | empty => rfl
  | step _ hs => exact hs.connected

end CodeGraph.Store
