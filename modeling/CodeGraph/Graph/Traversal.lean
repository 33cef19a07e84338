import CodeGraph.Graph.Basic

/-!
# Bounded traversal

A traversal walks relationships of the allowed kinds in both directions, breadth first and at most
`maxHops` steps from its start. It is computed a level at a time: `level` reaches the unseen
neighbours of one level in encounter order, `visits` strings the levels together, so that hop
distance never decreases along the list. What a traversal reports is that list cut down by
`minHops`, by a label and, last, by a cap; the walk itself ignores all three.
-/

namespace CodeGraph

/-- What to walk and what to report. -/
structure TraversalSpec where
  minHops : Nat := 1
  maxHops : Nat
  /-- The kinds of relationship to walk; all of them if absent. -/
  relations : Option (List Relation) := none
  /-- The label to report; all of them if absent. -/
  label : Option Label := none
  /-- The largest number of nodes to report. -/
  cap : Option Nat := none
  /-- Also report the relationship through which a reported node was first reached. -/
  collectRelationships : Bool := false
deriving DecidableEq, Inhabited

def TraversalSpec.allows (spec : TraversalSpec) (relation : Relation) : Bool :=
  match spec.relations with
  | none => true
  | some kinds => kinds.contains relation

/-- Distinct nodes in encounter order, with the relationships that led to them. -/
structure Traversal where
  nodes : List NodeId
  relationships : List EdgeId
deriving DecidableEq, Inhabited

/-- A node met on a walk, its distance from the start and the relationship that led to it. -/
structure Visit where
  node : NodeId
  hops : Nat
  via : Option EdgeId
deriving DecidableEq, Inhabited

namespace Graph

/-- The other ends of the allowed relationships at a node, in the order of their numbers. -/
def neighbours (g : Graph) (spec : TraversalSpec) (id : NodeId) : List (EdgeId × NodeId) :=
  g.edgeList.flatMap fun (i, e) =>
    if spec.allows e.relation then
      (if e.start = id then [(i, e.target)] else []) ++
        (if e.target = id then [(i, e.start)] else [])
    else []

/-- The neighbours not seen yet, each once, and all that is seen after them. -/
def reach (seen : List NodeId) : List (EdgeId × NodeId) → List (EdgeId × NodeId) × List NodeId
  | [] => ([], seen)
  | (i, n) :: rest =>
    if seen.contains n then reach seen rest
    else
      let (found, seen) := reach (n :: seen) rest
      ((i, n) :: found, seen)

/-- The unseen neighbours of a whole level in encounter order. -/
def level (g : Graph) (spec : TraversalSpec) (seen : List NodeId) (frontier : List NodeId) :
    List (EdgeId × NodeId) × List NodeId :=
  reach seen (frontier.flatMap (g.neighbours spec))

/-- What is met from a level on, at most `fuel` steps further. -/
def visits (g : Graph) (spec : TraversalSpec) :
    (fuel hops : Nat) → (seen : List NodeId) → (frontier : List Visit) → List Visit
  | _, _, _, [] => []
  | 0, _, _, frontier => frontier
  | fuel + 1, hops, seen, frontier =>
    let (found, seen) := g.level spec seen (frontier.map (·.node))
    frontier ++
      g.visits spec fuel (hops + 1) seen (found.map fun (i, n) => ⟨n, hops + 1, some i⟩)

/-- Every node within reach of an existing start, nearest first. -/
def visitsFrom (g : Graph) (spec : TraversalSpec) (start : NodeId) : List Visit :=
  g.visits spec spec.maxHops 0 [start] [⟨start, 0, none⟩]

/-- Whether a visit is reported. -/
def reports (g : Graph) (spec : TraversalSpec) (v : Visit) : Bool :=
  spec.minHops ≤ v.hops &&
    match spec.label with
    | none => true
    | some label => (g.nodes[v.node]?.map (·.label)) == some label

/-- Walk from a node; nothing if it does not exist. -/
def traverse (g : Graph) (start : NodeId) (spec : TraversalSpec) : Option Traversal := do
  let start ← g.position? start
  let reported := (g.visitsFrom spec start).filter (g.reports spec)
  let kept :=
    match spec.cap with
    | none => reported
    | some cap => reported.take cap
  return ⟨kept.map (·.node), if spec.collectRelationships then kept.filterMap (·.via) else []⟩

end Graph

end CodeGraph
