import CodeGraph.Chat.Digest
import CodeGraph.Embedding.Job
import CodeGraph.Indexing.Pass
import CodeGraph.Service.Request
import CodeGraph.Settings.Providers
import CodeGraph.Snapshot.Files

/-!
# The service

A service answers requests over one store. Its state is the store and the file tree, where a
snapshot of the store is written after each pass of indexing, after each embedding job that
comes to its end and after each reset. A snapshot that cannot be written leaves the old one and
is no failure of the request.

`answer` gives the response to a request and says whether an embedding job is to follow;
`serve` also runs the job.
-/

namespace CodeGraph

/-- What a service works with. -/
structure Service (m : Type → Type) where
  settings : Settings
  /-- The directory of the project whose snapshot is kept. -/
  root : String
  embedder : Option (Embedder m)
  chat : Option (ChatModel m)
  parse : String → Java.Tree
  /-- The time, as a snapshot shows it. -/
  now : m String

namespace Service

structure State where
  store : Store
  files : FileTree

variable {m : Type → Type}

/-- A service with the providers that its settings name; one that there is none of is left out. -/
def ofSettings [Monad m] (send : Endpoint.Channel m) (settings : Settings) (root : String)
    (parse : String → Java.Tree) (now : m String) : Service m where
  settings
  root
  embedder := (settings.embeddings.embedder send).toOption
  chat := (settings.chat.chatModel send).toOption
  parse
  now

/-- How the service answers queries. -/
def retrieval (v : Service m) : Retrieval m where
  embedder := v.embedder
  indexName := v.settings.retrieval.indexName
  relationships := v.settings.retrieval.relationships

/-- The embedding job that settings ask for. -/
def jobOf (settings : Settings) : EmbeddingJob :=
  .ofSizes settings.retrieval.indexName settings.embeddings.batchSize
    settings.embeddings.tokensPerText

variable [Monad m]

/-- Write a snapshot of the store. -/
def persist (v : Service m) (st : State) : m State := do
  match st.store.saveTo st.files (v.settings.snapshotPath v.root) (← v.now) with
  | .ok files => return { st with files }
  | .error _ => return st

/-! ## Routes -/

def answerQuery (v : Service m) (r : QueryRequest) (st : State) : m Response := do
  let prompt := Text.trimmed r.prompt
  if prompt.isEmpty then return .text 400 "Missing or empty 'prompt'"
  let count := r.topN.getD v.settings.retrieval.topN
  return .document 200 (← v.retrieval.query st.store prompt count).toJson

/-- The conversation of a request, told about the clusters near its query if it has one. -/
def conversation (v : Service m) (r : ChatRequest) (st : State) : m (List ChatMessage) := do
  let query := Text.trimmed (r.query.getD "")
  if query.isEmpty then return r.messages
  let found ← v.retrieval.query st.store query v.settings.retrieval.topN
  return withContext found.chat v.settings.chat.tokensPerRequest r.messages

def answerChat (v : Service m) (r : ChatRequest) (st : State) : m Response := do
  match v.chat with
  | none => return .text 503 "No chat provider configured"
  | some model =>
    match ← model.complete (← v.conversation r st) with
    | .ok reply => return .document 200 (.object [("reply", .text reply)])
    | .error _ => return .text 502 "Chat provider request failed"

/-- Whether a path leads to a directory. -/
def isDirectory (files : FileTree) (path : String) : Bool :=
  match files.resolve [] path with
  | .ok place => (files.find? place).any (·.isDirectory)
  | .error _ => false

def answerIndex (v : Service m) (r : IndexRequest) (st : State) : m (Response × State × Bool) := do
  let root := Text.trimmed r.projectRoot
  if !isDirectory st.files root then
    return (.text 400 "'projectRoot' must be an existing directory", st, false)
  match st.store.indexProject v.settings.indexing v.parse st.files root with
  | .error e => return (.text 500 s!"Indexing failed: {e.message}", st, false)
  | .ok (report, store) =>
    let st ← v.persist { st with store }
    let follows := v.embedder.isSome
    return (.document 202 (.object [("report", report.toJson), ("embedding", .bool follows)]), st,
      follows)

def answerReset (v : Service m) (st : State) : m (Response × State) := do
  match st.store.wipe with
  | .error e => return (.text 500 e.message, st)
  | .ok (_, store) =>
    return (.text 200 "Graph has been reset successfully.", ← v.persist { st with store })

def answerIsEmpty (st : State) : Response :=
  match st.store.counts with
  | .error e => .text 500 e.message
  | .ok counts => .document 200 (.object [("isEmpty", .bool counts.isEmpty)])

def answerHealth (v : Service m) (st : State) : Response :=
  .document 200 (.object [
    ("status", .text "ok"),
    ("version", .text Snapshot.currentVersion),
    ("store", .bool st.store.connected),
    ("embeddings", .bool v.embedder.isSome),
    ("chat", .bool v.chat.isSome)])

/-- Answer a request whose route is known. -/
def answerRoute (v : Service m) (r : Request) (st : State) : Route → m (Response × State × Bool)
  | .query =>
    match r.decode QueryRequest.decoder with
    | .error away => return (away, st, false)
    | .ok q => return (← v.answerQuery q st, st, false)
  | .chat =>
    match r.decode ChatRequest.decoder with
    | .error away => return (away, st, false)
    | .ok q => return (← v.answerChat q st, st, false)
  | .index =>
    match r.decode IndexRequest.decoder with
    | .error away => return (away, st, false)
    | .ok q => v.answerIndex q st
  | .reset => do
    let (response, st) ← v.answerReset st
    return (response, st, false)
  | .isEmpty => return (answerIsEmpty st, st, false)
  | .health => return (v.answerHealth st, st, false)

/-- Answer a request, and say whether an embedding job is to follow. Asking for the options of any
path succeeds, so that pages from elsewhere may send requests. -/
def answer (v : Service m) (r : Request) (st : State) : m (Response × State × Bool) := do
  if r.method = "OPTIONS" then return (.bare 200, st, false)
  match r.route with
  | .error away => return (away, st, false)
  | .ok route =>
    let (response, st, follows) ← v.answerRoute r st route
    return (if r.method = "HEAD" then response.withoutContent else response, st, follows)

/-- Run the embedding job and write a snapshot if it comes to its end. -/
def embed (v : Service m) (embedder : Embedder m) (st : State) : m State := do
  match ← (jobOf v.settings).run embedder st.store with
  | .error _ => return st
  | .ok (_, store) => v.persist { st with store }

/-- Answer a request and do what is to follow. -/
def serve (v : Service m) (r : Request) (st : State) : m (Response × State) := do
  let (response, st, follows) ← v.answer r st
  match v.embedder with
  | some embedder =>
    if follows then return (response, ← v.embed embedder st) else return (response, st)
  | none => return (response, st)

end Service

end CodeGraph
