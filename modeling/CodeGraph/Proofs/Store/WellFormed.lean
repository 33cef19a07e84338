import CodeGraph.Proofs.Graph.WellFormed
import CodeGraph.Store.Basic

/-!
# Well-formed store states

A state is *well formed* if its graph is, every node holds its natural key and every vector index is
kept under its own name. Each write of the store keeps this; `Store.setAttribute` does so unless it
writes the key attribute of its node.
-/

namespace CodeGraph

/-- The graph is well formed and holds its keys, and indexes are kept under their names. -/
structure StoreState.WellFormed (state : StoreState) : Prop where
  graph : state.graph.WellFormed
  holdsKeys : state.graph.HoldsKeys
  indexes : ∀ name i, state.indexes.get? name = some i → i.name = name

theorem StoreState.wellFormed_empty : StoreState.empty.WellFormed :=
  ⟨Graph.wellFormed_empty, Graph.holdsKeys_empty, fun _ _ h => by cases h⟩

namespace Store

variable {s s' : Store}

/-- A successful write is one of a connected store, and it changes the state alone. -/
theorem write_eq_ok {α : Type} {f : StoreState → Except StoreError (α × StoreState)} {a : α} :
    s.write f = .ok (a, s') ↔
      s.connected ∧ ∃ state, f s.state = .ok (a, state) ∧ s' = { s with state } := by
  unfold write
  cases s.connected with
  | false => simp
  | true =>
    cases hf : f s.state with
    | error e => simp [Except.map]
    | ok p =>
      obtain ⟨b, state⟩ := p
      simp only [if_true, Except.map, true_and]
      constructor
      · rintro h
        cases h
        exact ⟨state, rfl, rfl⟩
      · rintro ⟨state', h, rfl⟩
        cases h
        rfl

theorem mergeNode_eq_ok {key : NodeKey} {given : Attributes} {id : NodeId}
    (h : s.mergeNode key given = .ok (id, s')) :
    s' = { s with state := { s.state with graph := (s.state.graph.mergeNode key given).1 } } := by
  obtain ⟨-, state, hstate, rfl⟩ := write_eq_ok.1 h
  cases hstate
  rfl

theorem mergeEdge_eq_ok {start target : NodeKey} {relation : Relation} {id : EdgeId}
    (h : s.mergeEdge start target relation = .ok (id, s')) :
    ∃ a b graph isNew, s.state.graph.mergeEdge a b relation = some (graph, id, isNew) ∧
      s' = { s with state := { s.state with graph } } := by
  obtain ⟨-, state, hstate, rfl⟩ := write_eq_ok.1 h
  split at hstate
  · cases hstate
  · rename_i a _
    split at hstate
    · cases hstate
    · rename_i b _
      split at hstate
      · cases hstate
      · rename_i graph id' isNew hmerge
        cases hstate
        exact ⟨a, b, graph, isNew, hmerge, rfl⟩

theorem setAttribute_eq_ok {id : NodeId} {name : String} {value : Value}
    (h : s.setAttribute id name value = .ok ((), s')) :
    ∃ i, s.state.graph.position? id = some i ∧
      s' = { s with state := { s.state with graph := { s.state.graph with
        nodes := s.state.graph.nodes.modify i fun n =>
          { n with attributes := n.attributes.insert name value } } } } := by
  obtain ⟨-, state, hstate, rfl⟩ := write_eq_ok.1 h
  split at hstate
  · cases hstate
  · rename_i graph hgraph
    cases hstate
    obtain ⟨i, hi, hgraph⟩ := Option.bind_eq_some_iff.1 hgraph
    cases hgraph
    exact ⟨i, hi, rfl⟩

theorem setAttribute_of_position? (hs : s.connected) {id i : NodeId}
    (hi : s.state.graph.position? id = some i) (name : String) (value : Value) :
    s.setAttribute id name value = .ok ((), { s with state := { s.state with graph :=
      { s.state.graph with nodes := s.state.graph.nodes.modify i fun n =>
        { n with attributes := n.attributes.insert name value } } } }) := by
  simp only [setAttribute, write, if_pos hs, Graph.modifyNode, hi]
  rfl

theorem setAttribute_of_position?_eq_none (hs : s.connected) {id : NodeId}
    (hid : s.state.graph.position? id = none) (name : String) (value : Value) :
    s.setAttribute id name value = .error (.unknownNode id) := by
  rw [setAttribute, write, if_pos hs, Graph.modifyNode, hid]
  rfl

theorem wipe_of_connected (hs : s.connected) : s.wipe = .ok ((), { s with state := .empty }) := by
  rw [wipe, write, if_pos hs]
  rfl

theorem wellFormed_mergeNode {key : NodeKey} {given : Attributes} {id : NodeId}
    (h : s.state.WellFormed) (hs : s.mergeNode key given = .ok (id, s')) : s'.state.WellFormed := by
  rw [mergeNode_eq_ok hs]
  exact ⟨h.graph.mergeNode key given, h.holdsKeys.mergeNode key given, h.indexes⟩

theorem wellFormed_mergeEdge {start target : NodeKey} {relation : Relation} {id : EdgeId}
    (h : s.state.WellFormed) (hs : s.mergeEdge start target relation = .ok (id, s')) :
    s'.state.WellFormed := by
  obtain ⟨a, b, graph, isNew, hmerge, rfl⟩ := mergeEdge_eq_ok hs
  refine ⟨h.graph.mergeEdge hmerge, ?_, h.indexes⟩
  intro n hn
  rw [Graph.nodes_of_mergeEdge hmerge] at hn
  exact h.holdsKeys n hn

theorem wellFormed_setAttribute {id : NodeId} {name : String} {value : Value}
    (h : s.state.WellFormed) (hs : s.setAttribute id name value = .ok ((), s'))
    (hname : ∀ n, s.state.graph.node? id = some n → name ≠ n.label.keyAttribute) :
    s'.state.WellFormed := by
  obtain ⟨i, hi, rfl⟩ := setAttribute_eq_ok hs
  have hnode : s.state.graph.node? id = s.state.graph.nodes[i]? := by
    rw [Graph.node?, (Graph.position?_eq_some.1 hi).1]
    rfl
  refine ⟨h.graph.modifyNode i fun a => a.insert name value,
    h.holdsKeys.modifyNode (f := fun a => a.insert name value) fun n hn => ?_, h.indexes⟩
  exact Dict.get?_insert_of_ne (hname n (hnode.trans hn)) n.attributes value

theorem wellFormed_createIndex {index : VectorIndex} (h : s.state.WellFormed)
    (hs : s.createIndex index = .ok ((), s')) : s'.state.WellFormed := by
  obtain ⟨-, state, hstate, rfl⟩ := write_eq_ok.1 hs
  cases hstate
  refine ⟨h.graph, h.holdsKeys, fun name i hi => ?_⟩
  rw [Dict.get?_insert] at hi
  split at hi
  case isTrue heq => cases hi; exact heq
  case isFalse => exact h.indexes name i hi

theorem wellFormed_dropIndex {name : String} {existed : Bool} (h : s.state.WellFormed)
    (hs : s.dropIndex name = .ok (existed, s')) : s'.state.WellFormed := by
  obtain ⟨-, state, hstate, rfl⟩ := write_eq_ok.1 hs
  cases hstate
  refine ⟨h.graph, h.holdsKeys, fun other i hi => ?_⟩
  have hmem := Dict.mem_of_get? hi
  exact h.indexes other i (Dict.get?_of_mem (List.mem_filter.1 hmem).1)

theorem wellFormed_wipe (hs : s.wipe = .ok ((), s')) : s'.state.WellFormed := by
  obtain ⟨-, state, hstate, rfl⟩ := write_eq_ok.1 hs
  cases hstate
  exact StoreState.wellFormed_empty

end Store

end CodeGraph
