import CodeGraph.Embedding.Embedder
import CodeGraph.Store.Nearest

/-!
# Clusters

A cluster is what surrounds one node of the graph: the nodes that a list of traversals reports from
it, each once in the order of first encounter, and the relationships that a policy selects. `expand`
gathers the ids, `hydrate` fetches what is known of them.
-/

namespace CodeGraph

/-- Which relationships a cluster carries. -/
inductive RelationshipPolicy
  | omitted
  /-- Those through which the traversals that collect them reached a node. -/
  | traversed
  /-- All between two nodes of the cluster. -/
  | induced
deriving DecidableEq, Inhabited

namespace RelationshipPolicy

def all : List RelationshipPolicy := [omitted, traversed, induced]

def name : RelationshipPolicy → String
  | omitted => "omitted"
  | traversed => "traversed"
  | induced => "induced"

def ofName? (text : String) : Option RelationshipPolicy := all.find? (·.name == text)

end RelationshipPolicy

/-! ## Patterns -/

namespace Pattern

/-- Methods that call each other, up to three calls away. -/
def callChain : TraversalSpec where
  maxHops := 3
  relations := some [.callsMethod]
  collectRelationships := true

/-- What is at most two relationships of any kind away, the first thirty of it. -/
def neighbourhood : TraversalSpec where
  maxHops := 2
  cap := some 30

/-- The ten nearest methods, up to three relationships of any kind away. -/
def nearbyMethods : TraversalSpec where
  maxHops := 3
  label := some .method
  cap := some 10

/-- The start alone. -/
def start : TraversalSpec where
  minHops := 0
  maxHops := 0

/-- The traversals of a cluster, unless others are asked for. -/
def defaults : List TraversalSpec := [callChain, neighbourhood, nearbyMethods, start]

end Pattern

/-- The ids around one node, each once in the order of first encounter. -/
structure Cluster where
  seed : NodeId
  nodes : List NodeId
  relationships : List EdgeId
deriving DecidableEq, Inhabited

/-- A cluster with all that is shown of its parts. -/
structure ClusterDetail where
  nodes : List NodeDetail
  relationships : List RelationshipDetail

/-! ## Failures -/

/-- Why a query has no result. -/
inductive RetrievalError
  | blankQuery
  | noEmbedder
  | noIndex (name : String)
  | store (cause : StoreError)
  | embedding (cause : EmbedError)
  | dimensions (index : String) (expected actual : Nat)
deriving DecidableEq, Inhabited

namespace RetrievalError

def message : RetrievalError → String
  | blankQuery => "malformed query: query text is empty"
  | noEmbedder => "embedding provider is not configured"
  | noIndex name => s!"vector index `{name}` is not configured"
  | store cause => cause.message
  | embedding cause => s!"query embedding failed: {cause.message}"
  | dimensions index expected actual =>
    s!"embedding dimension mismatch: index `{index}` holds {expected}-dimensional vectors, " ++
      s!"query has {actual}"

/-- A missing index and a vector that does not fit one are faults of the configuration. -/
def ofStore : StoreError → RetrievalError
  | .dimensionMismatch index expected actual => dimensions index expected actual
  | .unknownIndex name => noIndex name
  | other => store other

end RetrievalError

/-- Read the failures of a store as failures of a query. -/
def Store.retrieved {α : Type} (r : Except StoreError α) : Except RetrievalError α :=
  r.mapError RetrievalError.ofStore

/-! ## Gathering and fetching -/

/-- The relationships of a cluster under a policy. -/
def RelationshipPolicy.select (policy : RelationshipPolicy) (s : Store) (nodes : List NodeId)
    (traversed : List EdgeId) : Except StoreError (List EdgeId) :=
  match policy with
  | .omitted => .ok []
  | .traversed => .ok traversed
  | .induced => s.inducedRelationships nodes

/-- The cluster around a node: the union of all traversals from it. -/
def Store.expand (s : Store) (patterns : List TraversalSpec) (policy : RelationshipPolicy)
    (seed : NodeId) : Except RetrievalError Cluster := Store.retrieved do
  let found ← patterns.mapM (s.traverse seed)
  let nodes := (found.flatMap (·.nodes)).eraseDups
  let traversed := (found.flatMap (·.relationships)).eraseDups
  return ⟨seed, nodes, ← policy.select s nodes traversed⟩

/-- The attributes that are not shown. -/
def hiddenAttributes : List String := ["embedding", "start_line", "end_line"]

/-- The node without its hidden attributes. -/
def NodeDetail.visible (n : NodeDetail) : NodeDetail :=
  { n with properties := hiddenAttributes.foldl Dict.erase n.properties }

/-- Fetch what is shown of a cluster; fails if one of its nodes does not exist. -/
def Store.hydrate (s : Store) (c : Cluster) : Except RetrievalError ClusterDetail :=
  Store.retrieved do
  let nodes ← s.hydrateNodes c.nodes
  if nodes.length ≠ c.nodes.length then
    let missing := c.nodes.find? fun id => !(nodes.map (·.id)).contains id
    throw (.unknownNode (missing.getD c.seed))
  let relationships ← s.hydrateRelationships c.relationships
  return ⟨nodes.map NodeDetail.visible, relationships⟩

/-! ## As JSON -/

def idList (ids : List Nat) : Json :=
  .list (ids.map fun id => .object [("id", .text (toString id))])

/-- The ids alone, for drawing. -/
def Cluster.toJson (c : Cluster) : Json :=
  .object [("nodes", idList c.nodes), ("rels", idList c.relationships)]

def NodeDetail.toJson (n : NodeDetail) : Json := .object [
  ("id", .ofNat n.id),
  ("labels", .ofTexts n.labels),
  ("properties", .object n.properties.toList)]

def RelationshipDetail.toJson (r : RelationshipDetail) : Json := .object [
  ("type", .text r.relation.name),
  ("start", .ofNat r.start),
  ("end", .ofNat r.target)]

def ClusterDetail.toJson (c : ClusterDetail) : Json := .object [
  ("nodes", .list (c.nodes.map NodeDetail.toJson)),
  ("relationships", .list (c.relationships.map RelationshipDetail.toJson))]

end CodeGraph
