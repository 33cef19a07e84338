import CodeGraph.Proofs.Store.Reachable

/-!
# Histories of stores

A `Change` is a call that may change a store, and a `History` lists the changes that were made to
the empty store, the latest first. Unlike the steps to a reachable store these write any attribute,
and a change that is refused is one, too: it leaves the store as it was.

* `History.consistent`: after any history the graph is well formed and indexes are kept under their
  names. What may be lost are the natural keys that nodes hold.
-/

namespace CodeGraph

/-- All of a well-formed state but for the keys that its nodes hold. -/
structure StoreState.Consistent (state : StoreState) : Prop where
  graph : state.graph.WellFormed
  indexes : ∀ name i, state.indexes.get? name = some i → i.name = name

theorem StoreState.WellFormed.consistent {state : StoreState} (h : state.WellFormed) :
    state.Consistent :=
  ⟨h.graph, h.indexes⟩

theorem StoreState.Consistent.wellFormed {state : StoreState} (h : state.Consistent)
    (hkeys : state.graph.HoldsKeys) : state.WellFormed :=
  ⟨h.graph, hkeys, h.indexes⟩

namespace Store

/-- A call that may change a store. Reading and saving do not. -/
inductive Change
  | mergeNode (key : NodeKey) (given : Attributes)
  | mergeEdge (start target : NodeKey) (relation : Relation)
  | setAttribute (id : NodeId) (name : String) (value : Value)
  | createIndex (index : VectorIndex)
  | dropIndex (name : String)
  | wipe
  /-- Go on with the store in a file, be it one that was saved or any other. -/
  | openFrom (files : FileTree) (path : String)

/-- The store that a call leaves, the old one if it is refused. -/
def after {α ε : Type} (s : Store) : Except ε (α × Store) → Store
  | .ok (_, s') => s'
  | .error _ => s

/-- What a call keeps if it succeeds, it keeps in any case. -/
theorem after_induction {α ε : Type} {P : Store → Prop} {s : Store}
    {r : Except ε (α × Store)} (h : P s)
    (hr : ∀ a s', r = .ok (a, s') → P s') : P (s.after r) := by
  cases r with
  | error e => exact h
  | ok p => exact hr p.1 p.2 rfl

/-- Make a change. -/
def Change.perform (s : Store) : Change → Store
  | .mergeNode key given => s.after (s.mergeNode key given)
  | .mergeEdge start target relation => s.after (s.mergeEdge start target relation)
  | .setAttribute id name value => s.after (s.setAttribute id name value)
  | .createIndex index => s.after (s.createIndex index)
  | .dropIndex name => s.after (s.dropIndex name)
  | .wipe => s.after s.wipe
  | .openFrom files path => s.after ((Store.openFrom files path).map ((), ·))

/-- An opened store is what opening answers. -/
theorem of_openFrom_map {files : FileTree} {path : String} {s : Store}
    (h : (openFrom files path).map ((), ·) = .ok ((), s)) : openFrom files path = .ok s := by
  cases hopen : openFrom files path with
  | error e => rw [hopen] at h; cases h
  | ok s' => rw [hopen] at h; cases h; rfl

variable {s s' : Store}

theorem connected_perform (h : s.connected) (c : Change) : (c.perform s).connected := by
  cases c with
  | openFrom files path =>
    refine after_induction (P := fun s => s.connected = true) h fun _ s' hs => ?_
    rcases openFrom_eq_ok (of_openFrom_map hs) with rfl | ⟨bytes, state, -, -, rfl⟩ <;> rfl
  | _ => exact after_induction (P := fun s => s.connected = true) h fun _ s' hs =>
    connected_of_write hs

/-- **Every change keeps a state consistent.** -/
theorem consistent_perform (h : s.state.Consistent) (c : Change) :
    (c.perform s).state.Consistent := by
  have hkeep {α ε : Type} {r : Except ε (α × Store)}
      (hr : ∀ a s', r = .ok (a, s') → s'.state.Consistent) : (s.after r).state.Consistent :=
    after_induction (P := fun s => s.state.Consistent) h hr
  cases c with
  | mergeNode key given =>
    refine hkeep fun id s' hs => ?_
    rw [mergeNode_eq_ok hs]
    exact ⟨h.graph.mergeNode key given, h.indexes⟩
  | mergeEdge start target relation =>
    refine hkeep fun id s' hs => ?_
    obtain ⟨a, b, graph, isNew, hmerge, rfl⟩ := mergeEdge_eq_ok hs
    exact ⟨h.graph.mergeEdge hmerge, h.indexes⟩
  | setAttribute id name value =>
    refine hkeep fun _ s' hs => ?_
    obtain ⟨i, -, rfl⟩ := setAttribute_eq_ok hs
    exact ⟨h.graph.modifyNode i fun a => a.insert name value, h.indexes⟩
  | createIndex index =>
    refine hkeep fun _ s' hs => ?_
    obtain ⟨-, state, hstate, rfl⟩ := write_eq_ok.1 hs
    cases hstate
    refine ⟨h.graph, fun name i hi => ?_⟩
    rw [Dict.get?_insert] at hi
    split at hi
    case isTrue heq => cases hi; exact heq
    case isFalse => exact h.indexes name i hi
  | dropIndex name =>
    refine hkeep fun _ s' hs => ?_
    obtain ⟨-, state, hstate, rfl⟩ := write_eq_ok.1 hs
    cases hstate
    refine ⟨h.graph, fun other i hi => h.indexes other i (Dict.get?_of_mem ?_)⟩
    exact (List.mem_filter.1 (Dict.mem_of_get? hi)).1
  | wipe => exact hkeep fun _ s' hs => (wellFormed_wipe hs).consistent
  | openFrom files path =>
    exact hkeep fun _ s' hs => (wellFormed_openFrom (of_openFrom_map hs)).consistent

/-- Changes made to the empty store one after another, the latest first. -/
abbrev History := List Change

namespace History

/-- The store that a history leads to. -/
def store : History → Store
  | [] => empty
  | c :: earlier => c.perform (store earlier)

theorem connected (h : History) : (store h).connected := by
  induction h with
  | nil => rfl
  | cons c earlier ih => exact connected_perform ih c

/-- **Whatever the history, the state is consistent.** -/
theorem consistent (h : History) : (store h).state.Consistent := by
  induction h with
  | nil => exact StoreState.wellFormed_empty.consistent
  | cons c earlier ih => exact consistent_perform ih c

end History

end Store

end CodeGraph
