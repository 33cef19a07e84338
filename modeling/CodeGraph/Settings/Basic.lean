import CodeGraph.Files.Path
import CodeGraph.Retrieval.Cluster
import CodeGraph.Toml.Parser

/-!
# Settings

What a project can choose: where vectors and answers come from, what to index, how to answer queries
and where the snapshot lies. `Settings.parse?` reads them from a TOML document; what it does not
mention keeps its default. `Settings.override` lets variables of the environment win.
-/

namespace CodeGraph

/-- Where vectors come from. -/
structure EmbeddingSettings where
  provider : String := "huggingface"
  url : Option String := none
  token : Option String := none
  model : Option String := none
  dimensions : Nat := 384
  tokensPerText : Nat := 256
  batchSize : Nat := 30
deriving DecidableEq, Inhabited

/-- Where answers of a language model come from. -/
structure ChatSettings where
  provider : String := "openai"
  model : String := "gpt-4o-mini"
  apiKey : Option String := none
  url : Option String := none
  tokensPerRequest : Nat := 8000
deriving DecidableEq, Inhabited

/-- What to index. -/
structure IndexingSettings where
  /-- How the qualified names of platform types start. -/
  excludedNamespaces : List String := ["java.", "javax."]
  /-- Patterns of paths that are left out. -/
  exclude : List String := []
deriving DecidableEq, Inhabited

/-- How to answer queries. -/
structure RetrievalSettings where
  topN : Nat := 10
  indexName : String := "methodEmbeddings"
  relationships : RelationshipPolicy := .omitted
deriving DecidableEq, Inhabited

structure Settings where
  embeddings : EmbeddingSettings := {}
  chat : ChatSettings := {}
  indexing : IndexingSettings := {}
  retrieval : RetrievalSettings := {}
  /-- Where the snapshot lies, relative to the project unless absolute. -/
  snapshot : String := ".thicket/graph.bin"
deriving DecidableEq, Inhabited

namespace Settings

/-! ## Places -/

/-- The file of a project that holds its settings. -/
def fileName : String := "thicket.toml"

/-- The directory of a project that holds what is stored. -/
def dataDirectory (root : String) : String := Path.join root ".thicket"

/-- Where the snapshot of a project lies unless it is chosen. -/
def defaultSnapshot (root : String) : String := Path.join (dataDirectory root) "graph.bin"

/-- Where the snapshot of a project lies. -/
def snapshotPath (s : Settings) (root : String) : String := Path.join root s.snapshot

end Settings

/-! ## From a document -/

/-- A field that keeps its default if it is missing. -/
def fieldOr {α : Type} (otherwise : α) (read? : Toml → Option α) : Option Toml → Option α
  | none => some otherwise
  | some t => read? t

/-- A field that may be missing. -/
def optionalText (t : Option Toml) : Option (Option String) :=
  fieldOr none (fun t => t.toText?.map some) t

def EmbeddingSettings.ofToml? (t : Toml) : Option EmbeddingSettings := do
  let d : EmbeddingSettings := {}
  match (← t.fields? ["provider", "url", "token", "model", "dim", "tokens_per_embedding",
    "batch_size"]) with
  | [provider, url, token, model, dimensions, tokensPerText, batchSize] =>
    return {
      provider := ← fieldOr d.provider Toml.toText? provider
      url := ← optionalText url
      token := ← optionalText token
      model := ← optionalText model
      dimensions := ← fieldOr d.dimensions Toml.toNat? dimensions
      tokensPerText := ← fieldOr d.tokensPerText Toml.toNat? tokensPerText
      batchSize := ← fieldOr d.batchSize Toml.toNat? batchSize }
  | _ => none

def ChatSettings.ofToml? (t : Toml) : Option ChatSettings := do
  let d : ChatSettings := {}
  match (← t.fields? ["provider", "model", "api_key", "url", "tokens_per_request"]) with
  | [provider, model, apiKey, url, tokensPerRequest] =>
    return {
      provider := ← fieldOr d.provider Toml.toText? provider
      model := ← fieldOr d.model Toml.toText? model
      apiKey := ← optionalText apiKey
      url := ← optionalText url
      tokensPerRequest := ← fieldOr d.tokensPerRequest Toml.toNat? tokensPerRequest }
  | _ => none

def IndexingSettings.ofToml? (t : Toml) : Option IndexingSettings := do
  let d : IndexingSettings := {}
  match (← t.fields? ["excluded_namespaces", "exclude"]) with
  | [excludedNamespaces, exclude] =>
    return {
      excludedNamespaces := ← fieldOr d.excludedNamespaces Toml.toTexts? excludedNamespaces
      exclude := ← fieldOr d.exclude Toml.toTexts? exclude }
  | _ => none

def RetrievalSettings.ofToml? (t : Toml) : Option RetrievalSettings := do
  let d : RetrievalSettings := {}
  match (← t.fields? ["top_n", "index_name", "relationships"]) with
  | [topN, indexName, relationships] =>
    return {
      topN := ← fieldOr d.topN Toml.toNat? topN
      indexName := ← fieldOr d.indexName Toml.toText? indexName
      relationships :=
        ← fieldOr d.relationships (Toml.toChoice? RelationshipPolicy.ofName?) relationships }
  | _ => none

/-- Where the snapshot lies. -/
def Settings.snapshotOfToml? (t : Toml) : Option String := do
  match (← t.fields? ["snapshot"]) with
  | [snapshot] => fieldOr ({} : Settings).snapshot Toml.toText? snapshot
  | _ => none

def Settings.ofToml? (t : Toml) : Option Settings := do
  let d : Settings := {}
  match (← t.fields? ["embeddings", "llm", "indexer", "retrieval", "store"]) with
  | [embeddings, chat, indexing, retrieval, store] =>
    return {
      embeddings := ← fieldOr d.embeddings EmbeddingSettings.ofToml? embeddings
      chat := ← fieldOr d.chat ChatSettings.ofToml? chat
      indexing := ← fieldOr d.indexing IndexingSettings.ofToml? indexing
      retrieval := ← fieldOr d.retrieval RetrievalSettings.ofToml? retrieval
      snapshot := ← fieldOr d.snapshot Settings.snapshotOfToml? store }
  | _ => none

/-- The settings of a TOML document. -/
def Settings.parse? (document : String) : Option Settings := (Toml.parse? document).bind ofToml?

end CodeGraph
