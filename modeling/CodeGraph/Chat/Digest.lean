import CodeGraph.Chat.Message
import CodeGraph.Retrieval.Query
import CodeGraph.Text.Tokens

/-!
# Digests

A digest tells a language model about clusters of the graph: a preamble and then the clusters in
order, as long as the estimates of preamble and clusters fit a budget. The first cluster that does
not fit ends the digest. `withContext` puts a digest before a conversation.
-/

namespace CodeGraph

namespace Digest

def preamble : String :=
  "You are a code assistant for a Java project. Answer using the code graph excerpts below. " ++
    "Each cluster starts from a method that matched the question and includes related methods, " ++
    "classes, fields and files. Say so when the excerpts do not contain the answer."

/-- The text of a JSON value that is a text. -/
def textOf? : Json → Option String
  | .text s => some s
  | _ => none

/-- How a node without a name is shown. -/
def numbered (id : NodeId) : String := s!"#{id}"

/-- The natural key of a node, or its number if it shows none. -/
def displayName (n : NodeDetail) : String :=
  let key := ((n.labels.head?.bind Label.ofName?).map Label.keyAttribute).getD "name"
  ((n.properties.get? key).bind textOf?).getD (numbered n.id)

/-- The name by which a cluster shows a node; of several nodes with one id the last counts. -/
def nameIn (c : ClusterDetail) (id : NodeId) : String :=
  match c.nodes.reverse.find? (·.id == id) with
  | some n => displayName n
  | none => numbered id

/-- The attributes that a node's own line or its code already show. -/
def shownElsewhere : List String := ["code", "name", "path", "qualified_name"]

/-- The line of an attribute, if it is a text that is worth showing. -/
def attributeLine? (entry : String × Json) : Option String :=
  if shownElsewhere.contains entry.1 then none
  else
    match textOf? entry.2 with
    | some s => if s.isEmpty then none else some ("  " ++ entry.1 ++ ": " ++ s)
    | none => none

/-- The code of a node between fences. -/
def codeBlock? (n : NodeDetail) : Option String :=
  ((n.properties.get? "code").bind textOf?).map fun code => "```java\n" ++ code ++ "\n```"

def nodeLines (c : ClusterDetail) (n : NodeDetail) : List String :=
  ["- [" ++ ":".intercalate n.labels ++ "] " ++ nameIn c n.id] ++
    n.properties.toList.filterMap attributeLine? ++ (codeBlock? n).toList

def relationshipLine (c : ClusterDetail) (r : RelationshipDetail) : String :=
  "- " ++ nameIn c r.start ++ " -[" ++ r.relation.name ++ "]-> " ++ nameIn c r.target

/-- The lines of the cluster at a position. -/
def clusterLines (position : Nat) (c : ClusterDetail) : List String :=
  [s!"## Cluster {position + 1}"] ++ c.nodes.flatMap (nodeLines c) ++
    if c.relationships.isEmpty then []
    else "Relationships:" :: c.relationships.map (relationshipLine c)

/-- The text of the cluster at a position; every line is ended. -/
def render (position : Nat) (c : ClusterDetail) : String :=
  String.join ((clusterLines position c).map (· ++ "\n"))

/-- The texts of the clusters from a position on, as long as they fit the budget. -/
def fitting (budget : Text.Budget) (position : Nat) : List ClusterDetail → List String
  | [] => []
  | c :: rest =>
    let text := render position c
    match budget.spend text with
    | (true, budget) => text :: fitting budget (position + 1) rest
    | (false, _) => []

end Digest

/-- What a language model is told about clusters within a number of tokens. -/
def digest (clusters : List ClusterDetail) (tokens : Nat) : String :=
  let (_, budget) := Text.Budget.spend ⟨tokens, 0⟩ Digest.preamble
  Digest.preamble ++ String.join ((Digest.fitting budget 0 clusters).map ("\n\n" ++ ·))

/-- A conversation that starts with the digest of clusters. -/
def withContext (clusters : List ClusterDetail) (tokens : Nat) (conversation : List ChatMessage) :
    List ChatMessage :=
  ⟨"system", digest clusters tokens⟩ :: conversation

end CodeGraph
