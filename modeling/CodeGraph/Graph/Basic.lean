import CodeGraph.Model.Schema
import CodeGraph.Model.Value

/-!
# Property graphs

A `Graph` numbers its nodes and its relationships from zero in creation order. A node is unique on
its `NodeKey`, a relationship on its start, end and kind, because both are only ever made by
`mergeNode` and `mergeEdge`, which reuse what is there.

An id given from outside is a 64-bit word of which a look-up reads the low 32 bits, the largest of
them never naming anything (`slot?`).
-/

namespace CodeGraph

/-- The number of a node in creation order. -/
abbrev NodeId := Nat

/-- The number of a relationship in creation order. -/
abbrev EdgeId := Nat

/-- A code entity. -/
structure Node where
  label : Label
  key : String
  attributes : Attributes
deriving DecidableEq, Inhabited

/-- The natural identity of a node. -/
def Node.nodeKey (n : Node) : NodeKey := ⟨n.label, n.key⟩

/-- A relationship between two nodes. -/
structure Edge where
  start : NodeId
  target : NodeId
  relation : Relation
  attributes : Attributes
deriving DecidableEq, Inhabited

/-- A directed graph of attributed nodes and relationships. -/
structure Graph where
  nodes : Array Node
  edges : Array Edge
deriving DecidableEq, Inhabited

namespace Graph

/-- The graph without nodes. -/
def empty : Graph := ⟨#[], #[]⟩

instance : EmptyCollection Graph := ⟨empty⟩

/-- The position an id names: its low 32 bits, all ones naming none. -/
def slot? (id : Nat) : Option Nat :=
  let s := id % 0x100000000
  if s = 0xffffffff then none else some s

/-- The node that an id names. -/
def node? (g : Graph) (id : NodeId) : Option Node := do
  g.nodes[← slot? id]?

/-- The relationship that an id names. -/
def edge? (g : Graph) (id : EdgeId) : Option Edge := do
  g.edges[← slot? id]?

/-- The position of an existing node. -/
def position? (g : Graph) (id : NodeId) : Option Nat :=
  (slot? id).filter (· < g.nodes.size)

/-- The number of the node with a natural key. -/
def find? (g : Graph) (key : NodeKey) : Option NodeId :=
  g.nodes.findIdx? fun n => n.label == key.label && n.key == key.key

/-- The number of the relationship of a kind between two nodes. -/
def findEdge? (g : Graph) (start target : NodeId) (relation : Relation) : Option EdgeId :=
  g.edges.findIdx? fun e => e.start == start && e.target == target && e.relation == relation

/-- The attributes a merge leaves: the given ones overwrite, except that the key attribute stays. -/
def overwrite (label : Label) (given old : Attributes) : Attributes :=
  given.toList.foldl
    (fun attrs entry => if entry.1 = label.keyAttribute then attrs
      else attrs.insert entry.1 entry.2)
    old

/-- What a new node holds: its key under its label's key attribute. -/
def freshNode (key : NodeKey) : Node :=
  ⟨key.label, key.key, Dict.empty.insert key.label.keyAttribute (.text key.key)⟩

/-- Find or create the node with a natural key, then overwrite the given attributes; attributes not
given stay. Answers its number and whether it is new. -/
def mergeNode (g : Graph) (key : NodeKey) (given : Attributes) : Graph × NodeId × Bool :=
  let write (n : Node) : Node := { n with attributes := overwrite key.label given n.attributes }
  match g.find? key with
  | some id => ({ g with nodes := g.nodes.modify id write }, id, false)
  | none => ({ g with nodes := g.nodes.push (write (freshNode key)) }, g.nodes.size, true)

/-- Find or create the relationship of a kind between two existing nodes. Answers its number and
whether it is new, or nothing if an end is missing. -/
def mergeEdge (g : Graph) (start target : NodeId) (relation : Relation) :
    Option (Graph × EdgeId × Bool) := do
  let a ← g.position? start
  let b ← g.position? target
  match g.findEdge? a b relation with
  | some id => return (g, id, false)
  | none =>
    return ({ g with edges := g.edges.push ⟨a, b, relation, Dict.empty⟩ }, g.edges.size, true)

/-- Change the attributes of a node; nothing if there is no such node. -/
def modifyNode (g : Graph) (id : NodeId) (f : Attributes → Attributes) : Option Graph := do
  let i ← g.position? id
  return { g with nodes := g.nodes.modify i fun n => { n with attributes := f n.attributes } }

/-- Change the attributes of a relationship; nothing if there is no such relationship. -/
def modifyEdge (g : Graph) (id : EdgeId) (f : Attributes → Attributes) : Option Graph := do
  let i ← (slot? id).filter (· < g.edges.size)
  return { g with edges := g.edges.modify i fun e => { e with attributes := f e.attributes } }

/-- The nodes with their numbers, in number order. -/
def nodeList (g : Graph) : List (NodeId × Node) :=
  g.nodes.toList.zipIdx.map fun (n, i) => (i, n)

/-- The relationships with their numbers, in number order. -/
def edgeList (g : Graph) : List (EdgeId × Edge) :=
  g.edges.toList.zipIdx.map fun (e, i) => (i, e)

/-- The numbers of the nodes that carry a label, in number order. -/
def withLabel (g : Graph) (label : Label) : List NodeId :=
  (g.nodeList.filter fun (_, n) => n.label == label).map (·.1)

/-- The relationships whose two ends both lie in a set of nodes, in number order. -/
def inducedEdges (g : Graph) (ids : List NodeId) : List EdgeId :=
  (g.edgeList.filter fun (_, e) => ids.contains e.start && ids.contains e.target).map (·.1)

/-- A one-line summary for diagnostics. -/
def summary (g : Graph) : String :=
  s!"PropertyGraph \x7b node_count: {g.nodes.size}, edge_count: {g.edges.size} \x7d"

end Graph

end CodeGraph
