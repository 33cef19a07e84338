import CodeGraph.Graph.Traversal
import CodeGraph.Json.Basic

/-!
# The graph store

A `Store` is a graph with named vector indexes that can be disconnected. Every operation answers
`StoreError.unavailable` while it is, and a failing operation has no successor state: writes answer
a new store only when they succeed.

Writes are match-or-create on natural keys, so repeating one changes nothing.
-/

namespace CodeGraph

/-- Why the store refused an operation. -/
inductive StoreError
  | unavailable
  | missingEndpoint (key : NodeKey)
  | unknownNode (id : NodeId)
  | unknownIndex (name : String)
  | dimensionMismatch (index : String) (expected actual : Nat)
deriving DecidableEq, Inhabited

namespace StoreError

def message : StoreError → String
  | unavailable => "graph store is unavailable"
  | missingEndpoint key => s!"relationship endpoint {key.display} does not exist"
  | unknownNode id => s!"node {id} does not exist"
  | unknownIndex name => s!"vector index `{name}` does not exist"
  | dimensionMismatch index expected actual =>
    s!"vector has {actual} dimensions but index `{index}` expects {expected}"

/-- Whether the failure lies with the store and not with the request. -/
def isUnavailable : StoreError → Bool
  | unavailable => true
  | _ => false

end StoreError

/-- A named nearest-neighbour index over one vector attribute of one label. -/
structure VectorIndex where
  name : String
  label : Label
  property : String
  dimensions : Nat
deriving DecidableEq, Inhabited

/-- A graph with its vector indexes, in name order. -/
structure StoreState where
  graph : Graph
  indexes : Dict VectorIndex
deriving DecidableEq, Inhabited

def StoreState.empty : StoreState := ⟨Graph.empty, Dict.empty⟩

/-- A store state behind a connection. -/
structure Store where
  state : StoreState
  connected : Bool
deriving DecidableEq, Inhabited

/-- How many nodes and relationships there are. -/
structure Counts where
  nodes : Nat
  relationships : Nat
deriving DecidableEq, Inhabited

def Counts.isEmpty (c : Counts) : Bool := c.nodes == 0

/-- A node as a label scan yields it. -/
structure ScannedNode where
  id : NodeId
  attributes : Attributes

/-- A nearest-neighbour hit with its cosine similarity. -/
structure ScoredNode where
  id : NodeId
  score : Single
deriving DecidableEq, Inhabited

/-- A node with all that is known of it, attributes in their JSON form. -/
structure NodeDetail where
  id : NodeId
  labels : List String
  properties : Dict Json

/-- A relationship with all that is known of it. -/
structure RelationshipDetail where
  id : EdgeId
  relation : Relation
  start : NodeId
  target : NodeId
  attributes : Attributes

/-- The JSON form of an attribute value: a vector is a list of numbers in double width. -/
def Value.toJson : Value → Json
  | null => .null
  | bool b => .bool b
  | int i => .int i.toInt
  | float x => .ofDouble x
  | text s => .text s
  | vector xs => .list (xs.map fun x => .ofDouble x.toDouble)

namespace Store

/-- A connected store without nodes and indexes. -/
def empty : Store := ⟨StoreState.empty, true⟩

def ofState (state : StoreState) : Store := ⟨state, true⟩

def connect (s : Store) : Store := { s with connected := true }

def disconnect (s : Store) : Store := { s with connected := false }

/-- Whether the store answers. -/
def probe (s : Store) : Except StoreError Unit :=
  if s.connected then .ok () else .error .unavailable

/-- Answer from the state of a connected store. -/
def read {α : Type} (s : Store) (f : StoreState → Except StoreError α) : Except StoreError α :=
  if s.connected then f s.state else .error .unavailable

/-- Change the state of a connected store. -/
def write {α : Type} (s : Store) (f : StoreState → Except StoreError (α × StoreState)) :
    Except StoreError (α × Store) :=
  if s.connected then (f s.state).map fun (a, state) => (a, { s with state })
  else .error .unavailable

/-! ## Writes -/

/-- Find or create a node by its natural key and overwrite the given attributes. -/
def mergeNode (s : Store) (key : NodeKey) (given : Attributes) :
    Except StoreError (NodeId × Store) :=
  s.write fun state =>
    let (graph, id, _) := state.graph.mergeNode key given
    .ok (id, { state with graph })

/-- Find or create the relationship of a kind between two nodes that exist. -/
def mergeEdge (s : Store) (start target : NodeKey) (relation : Relation) :
    Except StoreError (EdgeId × Store) :=
  s.write fun state =>
    match state.graph.find? start with
    | none => .error (.missingEndpoint start)
    | some a =>
      match state.graph.find? target with
      | none => .error (.missingEndpoint target)
      | some b =>
        match state.graph.mergeEdge a b relation with
        | none => .error (.unknownNode a)
        | some (graph, id, _) => .ok (id, { state with graph })

/-- Overwrite one attribute of an existing node, whichever it is. -/
def setAttribute (s : Store) (id : NodeId) (name : String) (value : Value) :
    Except StoreError (Unit × Store) :=
  s.write fun state =>
    match state.graph.modifyNode id (·.insert name value) with
    | none => .error (.unknownNode id)
    | some graph => .ok ((), { state with graph })

/-- Remove every node, relationship and index. -/
def wipe (s : Store) : Except StoreError (Unit × Store) :=
  s.write fun _ => .ok ((), StoreState.empty)

/-- Create a vector index in place of any of its name. -/
def createIndex (s : Store) (index : VectorIndex) : Except StoreError (Unit × Store) :=
  s.write fun state => .ok ((), { state with indexes := state.indexes.insert index.name index })

/-- Remove a vector index; answers whether there was one. -/
def dropIndex (s : Store) (name : String) : Except StoreError (Bool × Store) :=
  s.write fun state =>
    .ok ((state.indexes.get? name).isSome, { state with indexes := state.indexes.erase name })

/-! ## Reads -/

def find (s : Store) (key : NodeKey) : Except StoreError (Option NodeId) :=
  s.read fun state => .ok (state.graph.find? key)

def counts (s : Store) : Except StoreError Counts :=
  s.read fun state => .ok ⟨state.graph.nodes.size, state.graph.edges.size⟩

/-- The nodes of a label that carry an attribute other than null, a page of them in id order. -/
def scan (s : Store) (label : Label) (required : String) (skip : Nat) (limit : Option Nat) :
    Except StoreError (List ScannedNode) :=
  s.read fun state =>
    let eligible := state.graph.nodeList.filter fun (_, n) =>
      n.label == label && (n.attributes.get? required).any (!·.isNull)
    let page := eligible.drop skip
    let page := match limit with
      | none => page
      | some limit => page.take limit
    .ok (page.map fun (id, n) => ⟨id, n.attributes⟩)

def traverse (s : Store) (start : NodeId) (spec : TraversalSpec) : Except StoreError Traversal :=
  s.read fun state =>
    match state.graph.traverse start spec with
    | none => .error (.unknownNode start)
    | some t => .ok t

/-- The nodes with the given ids in the given order; unknown ones are left out. -/
def hydrateNodes (s : Store) (ids : List NodeId) : Except StoreError (List NodeDetail) :=
  s.read fun state => .ok <| ids.filterMap fun id => do
    let n ← state.graph.node? id
    return ⟨id, [n.label.name], n.attributes.map Value.toJson⟩

/-- The relationships with the given ids in the given order; unknown ones are left out. -/
def hydrateRelationships (s : Store) (ids : List EdgeId) :
    Except StoreError (List RelationshipDetail) :=
  s.read fun state => .ok <| ids.filterMap fun id => do
    let e ← state.graph.edge? id
    return ⟨id, e.relation, e.start, e.target, e.attributes⟩

/-- The relationships whose two ends lie among the given nodes. -/
def inducedRelationships (s : Store) (ids : List NodeId) : Except StoreError (List EdgeId) :=
  s.read fun state => .ok (state.graph.inducedEdges ids)

end Store

end CodeGraph
