import CodeGraph.Store.Basic

/-!
# Nearest neighbours

`Store.nearest` ranks the nodes that an index covers by cosine similarity to a query vector,
greatest first in the IEEE total order; nodes of equal score stay in id order. A node is covered
when it has the index's label and its attribute is a vector of exactly the index's dimension.
-/

namespace CodeGraph

/-- The sum of the products of entries at equal positions. -/
def dotProduct (a b : List Single) : Single := Single.sum (List.zipWith (· * ·) a b)

/-- The Euclidean length. -/
def vectorNorm (a : List Single) : Single := (dotProduct a a).sqrt

/-- The cosine of the angle between two vectors; zero if either has no length. -/
def cosine (a b : List Single) : Single :=
  let normA := vectorNorm a
  let normB := vectorNorm b
  if normA.isZero || normB.isZero then .zero else dotProduct a b / (normA * normB)

/-- The vector by which an index covers a node. -/
def VectorIndex.vector? (index : VectorIndex) (n : Node) : Option (List Single) :=
  if n.label = index.label then
    ((n.attributes.get? index.property).bind Value.asVector?).filter
      (·.length == index.dimensions)
  else none

/-- All covered nodes with their scores, in id order. -/
def VectorIndex.scores (index : VectorIndex) (g : Graph) (query : List Single) : List ScoredNode :=
  g.nodeList.filterMap fun (id, n) => (index.vector? n).map fun v => ⟨id, cosine query v⟩

/-- Greatest score first, equal ones in the order given. -/
def rank (hits : List ScoredNode) : List ScoredNode :=
  hits.mergeSort fun a b => b.score.orderKey ≤ a.score.orderKey

/-- The `limit` best nodes of an index for a query vector of its dimension. -/
def Store.nearest (s : Store) (name : String) (query : List Single) (limit : Nat) :
    Except StoreError (List ScoredNode) :=
  s.read fun state =>
    match state.indexes.get? name with
    | none => .error (.unknownIndex name)
    | some index =>
      if query.length = index.dimensions then
        .ok ((rank (index.scores state.graph query)).take limit)
      else .error (.dimensionMismatch index.name index.dimensions query.length)

end CodeGraph
