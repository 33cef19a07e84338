import CodeGraph.Retrieval.Cluster
import CodeGraph.Text.Character

/-!
# Queries

A query embeds its text, takes the methods with the nearest vectors as seeds and gathers a cluster
around each of them. `Retrieval.tryQuery` says why a query failed; `Retrieval.query` answers with an
empty result instead. A seed whose cluster cannot be gathered is left out.
-/

namespace CodeGraph

/-- The clusters of a query in two views, in the order of the seeds. -/
structure QueryResult where
  /-- Ids alone, for drawing. -/
  graph : List Cluster
  /-- All that is shown, for reading. -/
  chat : List ClusterDetail

namespace QueryResult

def empty : QueryResult := ⟨[], []⟩

def isEmpty (r : QueryResult) : Bool := r.graph.isEmpty && r.chat.isEmpty

def toJson (r : QueryResult) : Json := .object [
  ("graph", .list (r.graph.map Cluster.toJson)),
  ("chat", .list (r.chat.map ClusterDetail.toJson))]

end QueryResult

/-- How queries are answered. -/
structure Retrieval (m : Type → Type) where
  embedder : Option (Embedder m)
  indexName : String := "methodEmbeddings"
  relationships : RelationshipPolicy := .omitted
  patterns : List TraversalSpec := Pattern.defaults

namespace Retrieval

variable {m : Type → Type}

/-- The methods nearest to a vector. -/
def seeds (r : Retrieval m) (s : Store) (vector : List Single) (count : Nat) :
    Except RetrievalError (List ScoredNode) :=
  Store.retrieved (s.nearest r.indexName vector count)

def expand (r : Retrieval m) (s : Store) (seed : NodeId) : Except RetrievalError Cluster :=
  s.expand r.patterns r.relationships seed

/-- The cluster of a seed in both views. -/
def cluster (r : Retrieval m) (s : Store) (seed : NodeId) :
    Except RetrievalError (Cluster × ClusterDetail) := do
  let c ← r.expand s seed
  return (c, ← s.hydrate c)

/-- The clusters of all seeds whose cluster can be gathered. -/
def gather (r : Retrieval m) (s : Store) (seeds : List ScoredNode) : QueryResult :=
  let found := seeds.filterMap fun seed => (r.cluster s seed.id).toOption
  ⟨found.map (·.1), found.map (·.2)⟩

/-- The clusters nearest to a vector. -/
def answer (r : Retrieval m) (s : Store) (embedder : String) (count : Nat) :
    Except EmbedError (List Single) → Except RetrievalError QueryResult
  | .error e => .error (.embedding e)
  | .ok [] => .error (.embedding (.noVector embedder))
  | .ok vector => do return r.gather s (← r.seeds s vector count)

variable [Monad m]

/-- The clusters around the `count` methods nearest to a text, or why there are none. -/
def tryQuery (r : Retrieval m) (s : Store) (text : String) (count : Nat) :
    m (Except RetrievalError QueryResult) :=
  let text := Text.trimmed text
  if text.isEmpty then pure (.error .blankQuery)
  else
    match Store.retrieved s.probe, r.embedder with
    | .error e, _ => pure (.error e)
    | .ok _, none => pure (.error .noEmbedder)
    | .ok _, some embedder =>
      if count = 0 then pure (.ok .empty)
      else do return r.answer s embedder.name count (← embedder.embed text)

/-- The clusters around the `count` methods nearest to a text, none if the query fails. -/
def query (r : Retrieval m) (s : Store) (text : String) (count : Nat) : m QueryResult := do
  return (← r.tryQuery s text count).toOption.getD .empty

end Retrieval

end CodeGraph
