import CodeGraph.Proofs.Store.WellFormed
import CodeGraph.Snapshot.Files
import CodeGraph.Store.Nearest

/-!
# Calls in place

The operations of a store answer a new store when they succeed and none when they are refused. A
`Procedure` has only one store, which it reads and changes in place: what it has changed when it is
refused stays changed. `Call.procedure` carries a call out in place, one change after another.

* `Call.on_procedure`: in place, a call answers and leaves what the operation of the store does, so
  a refused one leaves nothing behind (`Call.eq_of_on_procedure`).
* `Call.on_procedure_of_disconnected`: while it is disconnected, a store refuses every call.
* `answers_append`: what calls answer does not depend on the calls that were made before while the
  store was disconnected. A session of `Event`s without these is what the store has `heard`.
-/

namespace CodeGraph

/-- A procedure on a store in place. -/
abbrev Procedure (ε α : Type) := ExceptT ε (StateM Store) α

namespace Procedure

variable {ε α β : Type}

/-- What a procedure answers, and the store it leaves. -/
def on (p : Procedure ε α) (s : Store) : Except ε α × Store := p.run s

/-- An answer that may be a refusal; the store stays. -/
def demand (r : Except ε α) : Procedure ε α := ExceptT.mk (pure r)

/-- With an answer the reason for a refusal does not matter. -/
theorem on_demand_mapError {ε' : Type} (f : ε' → ε) (a : α) (s : Store) :
    (demand ((Except.ok a).mapError f)).on s = (.ok a, s) := rfl

theorem on_get (s : Store) : (get : Procedure ε Store).on s = (.ok s, s) := rfl

/-- A procedure goes on with the answer and in the store of the one before, unless
that was refused. -/
theorem on_bind (p : Procedure ε α) (f : α → Procedure ε β) (s : Store) :
    (p >>= f).on s =
      match p.on s with
      | (.ok a, s') => (f a).on s'
      | (.error e, s') => (.error e, s') := by
  show ExceptT.bindCont f (p.on s).1 (p.on s).2 = _
  rcases p.on s with ⟨e | a, s'⟩
  · rfl
  · rfl

theorem on_bind_of_ok {p : Procedure ε α} {a : α} {s s' : Store} (h : p.on s = (.ok a, s'))
    (f : α → Procedure ε β) : (p >>= f).on s = (f a).on s' := by
  rw [on_bind, h]

theorem on_bind_of_error {p : Procedure ε α} {e : ε} {s s' : Store} (h : p.on s = (.error e, s'))
    (f : α → Procedure ε β) : (p >>= f).on s = (.error e, s') := by
  rw [on_bind, h]

end Procedure

namespace Store

open Procedure

/-- What an operation answers and the store there is afterwards: the old one if it was refused. -/
def settled {α ε : Type} (s : Store) : Except ε (α × Store) → Except ε α × Store
  | .ok (a, s') => (.ok a, s')
  | .error e => (.error e, s)

/-- What has been refused has left the old store. -/
theorem eq_of_settled {α ε : Type} {s s' : Store} {r : Except ε (α × Store)} {e : ε}
    (h : s.settled r = (.error e, s')) : s' = s := by
  cases r with
  | ok p => cases h
  | error e' => exact (Prod.mk.inj h).2.symm

/-! ## Calls -/

/-- An operation of a store with its arguments. -/
inductive Call
  | probe
  | mergeNode (key : NodeKey) (given : Attributes)
  | mergeEdge (start target : NodeKey) (relation : Relation)
  | setAttribute (id : NodeId) (name : String) (value : Value)
  | find (key : NodeKey)
  | counts
  | wipe
  | createIndex (index : VectorIndex)
  | dropIndex (name : String)
  | scan (label : Label) (required : String) (skip : Nat) (limit : Option Nat)
  | nearest (name : String) (query : List Single) (limit : Nat)
  | traverse (start : NodeId) (spec : TraversalSpec)
  | hydrateNodes (ids : List NodeId)
  | hydrateRelationships (ids : List EdgeId)
  | inducedRelationships (ids : List NodeId)
  | save (files : FileTree) (path savedAt : String)

/-- What a call answers that is not refused. -/
inductive Reply
  | done
  | node (id : NodeId)
  | edge (id : EdgeId)
  | found (id : Option NodeId)
  | counted (counts : Counts)
  | removed (existed : Bool)
  | scanned (nodes : List ScannedNode)
  | ranked (hits : List ScoredNode)
  | traversed (traversal : Traversal)
  | nodes (details : List NodeDetail)
  | relationships (details : List RelationshipDetail)
  | induced (ids : List EdgeId)
  | saved (files : FileTree)

namespace Call

/-- The answer of an operation that only reads. -/
def reading {α : Type} (s : Store) (r : Except StoreError α) (reply : α → Reply) :
    Except SnapshotError (Reply × Store) :=
  (r.map fun a => (reply a, s)).mapError .store

/-- The answer of an operation that writes, with the store it makes. -/
def writing {α : Type} (r : Except StoreError (α × Store)) (reply : α → Reply) :
    Except SnapshotError (Reply × Store) :=
  (r.map fun (a, s) => (reply a, s)).mapError .store

/-- What the store answers, with the store it makes unless it refuses. -/
def perform (s : Store) : Call → Except SnapshotError (Reply × Store)
  | probe => reading s s.probe fun _ => .done
  | mergeNode key given => writing (s.mergeNode key given) .node
  | mergeEdge start target relation => writing (s.mergeEdge start target relation) .edge
  | setAttribute id name value => writing (s.setAttribute id name value) fun _ => .done
  | find key => reading s (s.find key) .found
  | counts => reading s s.counts .counted
  | wipe => writing s.wipe fun _ => .done
  | createIndex index => writing (s.createIndex index) fun _ => .done
  | dropIndex name => writing (s.dropIndex name) .removed
  | scan label required skip limit => reading s (s.scan label required skip limit) .scanned
  | nearest name query limit => reading s (s.nearest name query limit) .ranked
  | traverse start spec => reading s (s.traverse start spec) .traversed
  | hydrateNodes ids => reading s (s.hydrateNodes ids) .nodes
  | hydrateRelationships ids => reading s (s.hydrateRelationships ids) .relationships
  | inducedRelationships ids => reading s (s.inducedRelationships ids) .induced
  | save files path savedAt => (s.saveTo files path savedAt).map fun files => (.saved files, s)

/-! ## Calls in place -/

/-- The state of a store that answers. -/
def opened : Procedure SnapshotError StoreState := do
  let s ← get
  demand (s.probe.mapError .store)
  return s.state

/-- What must be there for the call to go on. -/
def present {α : Type} (o : Option α) (e : StoreError) : Procedure SnapshotError α :=
  demand (match o with
    | some a => .ok a
    | none => .error (.store e))

def alterGraph (f : Graph → Graph) : Procedure SnapshotError PUnit :=
  modify fun s => { s with state.graph := f s.state.graph }

def alterIndexes (f : Dict VectorIndex → Dict VectorIndex) : Procedure SnapshotError PUnit :=
  modify fun s => { s with state.indexes := f s.state.indexes }

/-- Look a node up or add it. -/
def nodeNamed (key : NodeKey) (g : Graph) : Procedure SnapshotError NodeId :=
  match g.find? key with
  | some id => return id
  | none => do
    alterGraph fun g => { g with nodes := g.nodes.push (Graph.freshNode key) }
    return g.nodes.size

/-- Look a relationship between two positions up or add it. -/
def edgeBetween (a b : Nat) (relation : Relation) (g : Graph) : Procedure SnapshotError EdgeId :=
  match g.findEdge? a b relation with
  | some id => return id
  | none => do
    alterGraph fun g => { g with edges := g.edges.push ⟨a, b, relation, Dict.empty⟩ }
    return g.edges.size

/-- A call that only reads. -/
def inquiry {α : Type} (ask : StoreState → Except StoreError α) (reply : α → Reply) :
    Procedure SnapshotError Reply := do
  let state ← opened
  return reply (← demand ((ask state).mapError .store))

/-- Carry a call out in place. -/
def procedure : Call → Procedure SnapshotError Reply
  | probe => do
    let _ ← opened
    return .done
  | mergeNode key given => do
    let state ← opened
    let id ← nodeNamed key state.graph
    alterGraph fun g => { g with nodes := g.nodes.modify id fun n =>
      { n with attributes := Graph.overwrite key.label given n.attributes } }
    return .node id
  | mergeEdge start target relation => do
    let state ← opened
    let a ← present (state.graph.find? start) (.missingEndpoint start)
    let b ← present (state.graph.find? target) (.missingEndpoint target)
    let i ← present (state.graph.position? a) (.unknownNode a)
    let j ← present (state.graph.position? b) (.unknownNode a)
    return .edge (← edgeBetween i j relation state.graph)
  | setAttribute id name value => do
    let state ← opened
    let i ← present (state.graph.position? id) (.unknownNode id)
    alterGraph fun g => { g with nodes := g.nodes.modify i fun n =>
      { n with attributes := n.attributes.insert name value } }
    return .done
  | find key => inquiry (fun state => .ok (state.graph.find? key)) .found
  | counts => inquiry (fun state => .ok ⟨state.graph.nodes.size, state.graph.edges.size⟩) .counted
  | wipe => do
    let _ ← opened
    alterGraph fun _ => Graph.empty
    alterIndexes fun _ => Dict.empty
    return .done
  | createIndex index => do
    let _ ← opened
    alterIndexes (·.insert index.name index)
    return .done
  | dropIndex name => do
    let state ← opened
    alterIndexes (·.erase name)
    return .removed (state.indexes.get? name).isSome
  | scan label required skip limit =>
    inquiry (fun state => (ofState state).scan label required skip limit) .scanned
  | nearest name query limit =>
    inquiry (fun state => (ofState state).nearest name query limit) .ranked
  | traverse start spec => inquiry (fun state => (ofState state).traverse start spec) .traversed
  | hydrateNodes ids => inquiry (fun state => (ofState state).hydrateNodes ids) .nodes
  | hydrateRelationships ids =>
    inquiry (fun state => (ofState state).hydrateRelationships ids) .relationships
  | inducedRelationships ids => inquiry (fun state => .ok (state.graph.inducedEdges ids)) .induced
  | save files path savedAt => do
    let state ← opened
    let written := files.write (Path.place path) (Snapshot.encode state savedAt)
    return .saved (← demand (written.mapError .file))

theorem write_ofState {α : Type} (state : StoreState)
    (f : StoreState → Except StoreError (α × StoreState)) :
    (ofState state).write f = (f state).map fun (a, state) => (a, ofState state) := rfl

theorem on_opened (state : StoreState) :
    opened.on (ofState state) = (.ok state, ofState state) := rfl

theorem on_opened_of_disconnected {s : Store} (h : s.connected = false) :
    opened.on s = (.error (.store .unavailable), s) := by
  rw [opened, on_bind_of_ok (on_get s), Store.probe, h]
  rfl

theorem on_present_some {α : Type} (a : α) (e : StoreError) (s : Store) :
    (present (some a) e).on s = (.ok a, s) := rfl

theorem on_inquiry {α : Type} (ask : StoreState → Except StoreError α) (reply : α → Reply)
    (state : StoreState) :
    (inquiry ask reply).on (ofState state) =
      (ofState state).settled (reading (ofState state) (ask state) reply) := by
  rw [inquiry, on_bind_of_ok (on_opened state)]
  cases ask state with
  | error e => rfl
  | ok a => rfl

/-- A merge in place is the merge of the graph. -/
theorem on_procedure_mergeNode (key : NodeKey) (given : Attributes) (state : StoreState) :
    (procedure (.mergeNode key given)).on (ofState state) =
      (ofState state).settled (perform (ofState state) (.mergeNode key given)) := by
  have hperform : perform (ofState state) (.mergeNode key given) =
      .ok (.node (state.graph.mergeNode key given).2.1,
        ofState { state with graph := (state.graph.mergeNode key given).1 }) := rfl
  rw [procedure, on_bind_of_ok (on_opened state), nodeNamed, hperform]
  cases hfind : state.graph.find? key with
  | some id =>
    rw [Graph.mergeNode_of_find?_eq_some hfind]
    rfl
  | none =>
    rw [Graph.mergeNode_of_find?_eq_none hfind, ← Graph.modify_push_freshNode]
    rfl

theorem on_procedure_mergeEdge (start target : NodeKey) (relation : Relation) (state : StoreState) :
    (procedure (.mergeEdge start target relation)).on (ofState state) =
      (ofState state).settled (perform (ofState state) (.mergeEdge start target relation)) := by
  rw [procedure, on_bind_of_ok (on_opened state), perform, Store.mergeEdge, write_ofState]
  cases hstart : state.graph.find? start with
  | none => rfl
  | some a =>
    rw [on_bind_of_ok (on_present_some a _ _)]
    cases htarget : state.graph.find? target with
    | none => rfl
    | some b =>
      rw [on_bind_of_ok (on_present_some b _ _)]
      cases hi : state.graph.position? a with
      | none =>
        have hmerge : state.graph.mergeEdge a b relation = none := by simp [Graph.mergeEdge, hi]
        simp only [hmerge]
        rfl
      | some i =>
        rw [on_bind_of_ok (on_present_some i _ _)]
        cases hj : state.graph.position? b with
        | none =>
          have hmerge : state.graph.mergeEdge a b relation = none := by
            simp [Graph.mergeEdge, hi, hj]
          simp only [hmerge]
          rfl
        | some j =>
          rw [on_bind_of_ok (on_present_some j _ _), edgeBetween]
          cases hfind : state.graph.findEdge? i j relation with
          | some id =>
            have hmerge : state.graph.mergeEdge a b relation = some (state.graph, id, false) := by
              simp [Graph.mergeEdge, hi, hj, hfind]
            simp only [hmerge]
            rfl
          | none =>
            have hmerge : state.graph.mergeEdge a b relation =
                some ({ state.graph with
                  edges := state.graph.edges.push ⟨i, j, relation, Dict.empty⟩ },
                  state.graph.edges.size, true) := by
              simp [Graph.mergeEdge, hi, hj, hfind]
            simp only [hmerge]
            rfl

theorem on_procedure_setAttribute (id : NodeId) (name : String) (value : Value)
    (state : StoreState) :
    (procedure (.setAttribute id name value)).on (ofState state) =
      (ofState state).settled (perform (ofState state) (.setAttribute id name value)) := by
  rw [procedure, on_bind_of_ok (on_opened state)]
  cases hi : state.graph.position? id with
  | none =>
    have hmodify : state.graph.modifyNode id (·.insert name value) = none := by
      simp [Graph.modifyNode, hi]
    rw [perform, Store.setAttribute, write_ofState]
    simp only [hmodify]
    rfl
  | some i =>
    rw [on_bind_of_ok (on_present_some i _ _), perform,
      setAttribute_of_position? (s := ofState state) rfl hi]
    rfl

theorem on_procedure_save (files : FileTree) (path savedAt : String) (state : StoreState) :
    (procedure (.save files path savedAt)).on (ofState state) =
      (ofState state).settled (perform (ofState state) (.save files path savedAt)) := by
  have hsave : (ofState state).saveTo files path savedAt =
      (files.write (Path.place path) (Snapshot.encode state savedAt)).mapError .file := rfl
  rw [procedure, on_bind_of_ok (on_opened state), perform, hsave]
  cases files.write (Path.place path) (Snapshot.encode state savedAt) with
  | error e => rfl
  | ok files => rfl

theorem perform_of_disconnected {s : Store} (h : s.connected = false) (c : Call) :
    c.perform s = .error (.store .unavailable) := by
  obtain ⟨state, connected⟩ := s
  cases h
  cases c <;> rfl

/-- **A disconnected store refuses every call**, saving included, and stays as it is. -/
theorem on_procedure_of_disconnected {s : Store} (h : s.connected = false) (c : Call) :
    c.procedure.on s = (.error (.store .unavailable), s) := by
  cases c <;> exact on_bind_of_error (on_opened_of_disconnected h) _

/-- **In place, a call answers and leaves what the operation of the store does.** -/
theorem on_procedure (c : Call) (s : Store) : c.procedure.on s = s.settled (c.perform s) := by
  obtain ⟨state, connected⟩ := s
  cases connected with
  | false =>
    rw [perform_of_disconnected rfl, on_procedure_of_disconnected rfl]
    rfl
  | true =>
    cases c with
    | probe => rfl
    | mergeNode key given => exact on_procedure_mergeNode key given state
    | mergeEdge start target relation => exact on_procedure_mergeEdge start target relation state
    | setAttribute id name value => exact on_procedure_setAttribute id name value state
    | find key => exact on_inquiry _ _ state
    | counts => exact on_inquiry _ _ state
    | wipe => rfl
    | createIndex index => rfl
    | dropIndex name => rfl
    | scan label required skip limit => exact on_inquiry _ _ state
    | nearest name query limit => exact on_inquiry _ _ state
    | traverse start spec => exact on_inquiry _ _ state
    | hydrateNodes ids => exact on_inquiry _ _ state
    | hydrateRelationships ids => exact on_inquiry _ _ state
    | inducedRelationships ids => exact on_inquiry _ _ state
    | save files path savedAt => exact on_procedure_save files path savedAt state

theorem eq_of_reading {α : Type} {s s' : Store} {r : Except StoreError α} {reply : α → Reply}
    {answer : Reply} (h : reading s r reply = .ok (answer, s')) : s' = s := by
  cases r with
  | error e => cases h
  | ok a =>
    cases h
    rfl

theorem connected_of_writing {α : Type} {s s' : Store}
    {f : StoreState → Except StoreError (α × StoreState)}
    {reply : α → Reply} {answer : Reply} (h : writing (s.write f) reply = .ok (answer, s')) :
    s'.connected = s.connected := by
  cases hwrite : s.write f with
  | error e =>
    rw [hwrite] at h
    cases h
  | ok p =>
    obtain ⟨a, t⟩ := p
    rw [hwrite] at h
    cases h
    obtain ⟨-, state, -, rfl⟩ := write_eq_ok.1 hwrite
    rfl

/-- No call changes whether there is a connection. -/
theorem connected_of_perform {c : Call} {s s' : Store} {answer : Reply}
    (h : c.perform s = .ok (answer, s')) : s'.connected = s.connected := by
  cases c with
  | mergeNode | mergeEdge | setAttribute | wipe | createIndex | dropIndex =>
    rw [perform] at h
    exact connected_of_writing h
  | save files path savedAt =>
    cases hsave : s.saveTo files path savedAt with
    | error e =>
      rw [perform, hsave] at h
      cases h
    | ok files =>
      rw [perform, hsave] at h
      cases h
      rfl
  | _ => rw [eq_of_reading h]

/-- **A refused call leaves the store as it was.** -/
theorem eq_of_on_procedure {c : Call} {s s' : Store} {e : SnapshotError}
    (h : c.procedure.on s = (.error e, s')) : s' = s := by
  rw [on_procedure] at h
  exact eq_of_settled h

end Call

/-! ## Sessions -/

/-- What happens to a store: calls, and the loss and return of its connection. -/
inductive Event
  | call (c : Call)
  | connect
  | disconnect

namespace Event

/-- What is answered to an event, if it is a call, and the store it leaves. -/
def happen (s : Store) : Event → List (Except SnapshotError Reply) × Store
  | call c => ([(c.procedure.on s).1], (c.procedure.on s).2)
  | connect => ([], s.connect)
  | disconnect => ([], s.disconnect)

/-- Let events happen in order; lists the answers. -/
def session (s : Store) : List Event → List (Except SnapshotError Reply) × Store
  | [] => ([], s)
  | e :: es => ((e.happen s).1 ++ (session (e.happen s).2 es).1, (session (e.happen s).2 es).2)

/-- The events without the calls that are made while there is no connection. -/
def heard : Bool → List Event → List Event
  | _, [] => []
  | true, call c :: es => call c :: heard true es
  | false, call _ :: es => heard false es
  | _, connect :: es => connect :: heard true es
  | _, disconnect :: es => disconnect :: heard false es

theorem session_append (es es' : List Event) (s : Store) :
    session s (es ++ es') =
      ((session s es).1 ++ (session (session s es).2 es').1, (session (session s es).2 es').2) := by
  induction es generalizing s with
  | nil => rfl
  | cons e es ih => simp only [List.cons_append, session, ih, List.append_assoc]

theorem connected_happen_call (c : Call) (s : Store) :
    ((call c).happen s).2.connected = s.connected := by
  rw [happen, Call.on_procedure]
  cases h : c.perform s with
  | error e => rfl
  | ok p => exact Call.connected_of_perform h

/-- The calls that are not heard leave nothing behind. -/
theorem session_heard (es : List Event) (s : Store) :
    (session s (heard s.connected es)).2 = (session s es).2 := by
  induction es generalizing s with
  | nil => rfl
  | cons e es ih =>
    cases e with
    | call c =>
      cases hs : s.connected with
      | true =>
        have hstays : ((call c).happen s).2.connected = true := (connected_happen_call c s).trans hs
        simp only [heard, session]
        rw [← hstays, ih]
      | false =>
        have hstays : ((call c).happen s).2 = s := by
          rw [happen, Call.on_procedure_of_disconnected hs]
        simp only [heard, session]
        rw [hstays, ← hs, ih]
    | connect =>
      rw [heard, session, session]
      exact ih s.connect
    | disconnect =>
      rw [heard, session, session]
      exact ih s.disconnect

/-- **What is answered later does not depend on the calls that were not heard.** -/
theorem answers_append (before later : List Event) (s : Store) :
    (session s (before ++ later)).1 =
      (session s before).1 ++ (session (session s (heard s.connected before)).2 later).1 := by
  rw [session_append, session_heard]

end Event

end Store

end CodeGraph
