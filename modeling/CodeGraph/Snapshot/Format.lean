import CodeGraph.Snapshot.Bytes
import CodeGraph.Store.Basic

/-!
# Snapshots

A snapshot is the whole state of a store as bytes: version and time of writing, nodes, relationships
by the positions of their ends, and vector indexes.

Reading rebuilds the graph with `mergeNode` and `mergeEdge`, so any bytes that decode give a graph
with unique nodes and relationships: repeated nodes become one, a relationship with an end outside
the node list is dropped and a repeated relationship keeps its last attributes.
-/

namespace CodeGraph

/-- A stored graph. The ends of a relationship are positions in `nodes`. -/
structure Snapshot where
  version : String
  savedAt : String
  nodes : List Node
  edges : List Edge
  indexes : List VectorIndex

namespace Snapshot

/-- The version written into every snapshot. -/
def currentVersion : String := "0.1.0"

/-! ## Layouts -/

def int64 : Layout Int64 :=
  Layout.word.via (fun i => i.toUInt64.toNat) (fun n => .ok (UInt64.ofNat n).toInt64)

def double : Layout Double :=
  Layout.word.via (fun x => x.bits.toNat) (fun n => .ok ⟨UInt64.ofNat n⟩)

def single : Layout Single := Layout.tag.via (fun x => x.bits.toNat) (fun n => .ok ⟨UInt32.ofNat n⟩)

/-- An attribute value: a tag, then what belongs to it. -/
def value : Layout Value where
  write
    | .null => Layout.tag.write 0
    | .bool b => Layout.tag.write 1 ++ Layout.bool.write b
    | .int i => Layout.tag.write 2 ++ int64.write i
    | .float x => Layout.tag.write 3 ++ double.write x
    | .text s => Layout.tag.write 4 ++ Layout.text.write s
    | .vector xs => Layout.tag.write 5 ++ (Layout.list single).write xs
  read bs := do
    let (t, rest) ← Layout.tag.read bs
    match t with
    | 0 => return (.null, rest)
    | 1 => return (← Layout.bool.read rest).map .bool id
    | 2 => return (← int64.read rest).map .int id
    | 3 => return (← double.read rest).map .float id
    | 4 => return (← Layout.text.read rest).map .text id
    | 5 => return (← (Layout.list single).read rest).map .vector id
    | _ => throw (.noChoice t 6)

/-- Attributes as a list of bindings; a later binding of a name overwrites an earlier one. -/
def attributes : Layout Attributes :=
  (Layout.list (Layout.text.pair value)).via Dict.toList (fun l => .ok (Dict.ofList l))

def label : Layout Label := Layout.choice Label.all

def relation : Layout Relation := Layout.choice Relation.all

def node : Layout Node :=
  (label.pair (Layout.text.pair attributes)).via
    (fun n => (n.label, n.key, n.attributes)) (fun (l, k, a) => .ok ⟨l, k, a⟩)

def edge : Layout Edge :=
  (Layout.word.pair (Layout.word.pair (relation.pair attributes))).via
    (fun e => (e.start, e.target, e.relation, e.attributes)) (fun (s, t, r, a) => .ok ⟨s, t, r, a⟩)

def index : Layout VectorIndex :=
  (Layout.text.pair (label.pair (Layout.text.pair Layout.word))).via
    (fun i => (i.name, i.label, i.property, i.dimensions)) (fun (n, l, p, d) => .ok ⟨n, l, p, d⟩)

def layout : Layout Snapshot :=
  (Layout.text.pair (Layout.text.pair ((Layout.list node).pair
      ((Layout.list edge).pair (Layout.list index))))).via
    (fun s => (s.version, s.savedAt, s.nodes, s.edges, s.indexes))
    (fun (v, t, ns, es, is) => .ok ⟨v, t, ns, es, is⟩)

/-! ## From and to store states -/

/-- The snapshot of a state. Node numbers are positions, so ends need no renumbering. -/
def ofState (state : StoreState) (savedAt : String) : Snapshot where
  version := currentVersion
  savedAt := savedAt
  nodes := state.graph.nodes.toList
  edges := state.graph.edges.toList
  indexes := state.indexes.toList.map (·.2)

/-- Add a stored node and note its number. -/
def addNode (acc : Graph × List NodeId) (n : Node) : Graph × List NodeId :=
  let (g, id, _) := acc.1.mergeNode n.nodeKey n.attributes
  (g, acc.2 ++ [id])

/-- Add the stored nodes one by one; answers their numbers too. -/
def addNodes (nodes : List Node) : Graph × List NodeId := nodes.foldl addNode (Graph.empty, [])

/-- Add a stored relationship, its attributes in place of earlier ones. -/
def addEdge (ids : Array NodeId) (g : Graph) (e : Edge) : Graph :=
  match ids[e.start]?, ids[e.target]? with
  | some start, some target =>
    match g.mergeEdge start target e.relation with
    | some (g, id, _) =>
      { g with edges := g.edges.modify id fun stored => { stored with attributes := e.attributes } }
    | none => g
  | _, _ => g

/-- The state that a snapshot stands for. -/
def toState (s : Snapshot) : StoreState :=
  let (g, ids) := addNodes s.nodes
  { graph := s.edges.foldl (addEdge ids.toArray) g
    indexes := Dict.ofList (s.indexes.map fun i => (i.name, i)) }

/-- The bytes of a state. -/
def encode (state : StoreState) (savedAt : String) : Bytes := layout.write (ofState state savedAt)

/-- The state of bytes that start with a snapshot. -/
def decode (bs : Bytes) : Except Fault StoreState := (layout.read bs).map fun (s, _) => s.toState

end Snapshot

/-- The bytes of a snapshot of the store. -/
def Store.save (s : Store) (savedAt : String) : Except StoreError Snapshot.Bytes :=
  s.read fun state => .ok (Snapshot.encode state savedAt)

/-- The connected store of a snapshot. -/
def Store.load (bytes : Snapshot.Bytes) : Except Snapshot.Fault Store :=
  (Snapshot.decode bytes).map Store.ofState

end CodeGraph
