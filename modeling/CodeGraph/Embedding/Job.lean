import CodeGraph.Embedding.Embedder
import CodeGraph.Store.Basic
import CodeGraph.Text.Tokens

/-!
# The embedding job

The job makes the vector index of the methods anew and then gives every method that carries code a
vector of it, a batch of methods at a time. A batch that the embedder finds too long is sent once
more, cut down; a batch without a vector of the right length for each method is left out.

The job is a machine: `Progress` says what it is about to do, and `step` scans a batch, asks the
embedder or writes one vector. `run` takes steps until it is finished; between two steps other
operations on the store may happen.
-/

namespace CodeGraph

/-- The attribute that holds the vector of a method. -/
def embeddingAttribute : String := "embedding"

/-- The attribute that holds the code of a method. -/
def codeAttribute : String := "code"

/-- What an embedding job did. -/
structure EmbeddingReport where
  methods : Nat := 0
  embedded : Nat := 0
  skippedBatches : Nat := 0
  truncatedBatches : Nat := 0
deriving DecidableEq, Inhabited

def EmbeddingReport.toJson (r : EmbeddingReport) : Json := .object [
  ("methods", .ofNat r.methods),
  ("embedded", .ofNat r.embedded),
  ("skipped_batches", .ofNat r.skippedBatches),
  ("truncated_batches", .ofNat r.truncatedBatches)]

/-- What to embed and how much at a time. -/
structure EmbeddingJob where
  indexName : String
  /-- The number of methods of a batch, at least one. -/
  batchSize : Nat
  /-- The size in tokens to which texts are cut that are too long. -/
  tokensPerText : Nat
  batchSize_pos : 0 < batchSize
deriving DecidableEq

namespace EmbeddingJob

/-- A job whose batches have one method if they were to have none. -/
def ofSizes (indexName : String) (batchSize tokensPerText : Nat) : EmbeddingJob where
  indexName
  batchSize := max 1 batchSize
  tokensPerText
  batchSize_pos := by omega

/-- What is to happen next. -/
inductive Stage
  | scanning
  /-- Ask for the vectors of a batch, for the second time if `cut`. -/
  | asking (batch : List NodeId) (texts : List String) (cut : Bool)
  | writing (pending : List (NodeId × List Single)) (isLast : Bool)
  | finished
deriving DecidableEq, Inhabited

structure Progress where
  stage : Stage := .scanning
  /-- How many methods were scanned. -/
  scanned : Nat := 0
  report : EmbeddingReport := {}
deriving DecidableEq, Inhabited

/-- The code of a method, empty if it is no text. -/
def codeOf (n : ScannedNode) : String :=
  ((n.attributes.get? codeAttribute).bind Value.asText?).getD ""

/-- Make the vector index anew. -/
def prepare (job : EmbeddingJob) (dimensions : Nat) (s : Store) : Except StoreError Store := do
  let (_, s) ← s.dropIndex job.indexName
  let (_, s) ← s.createIndex ⟨job.indexName, .method, embeddingAttribute, dimensions⟩
  return s

/-- Scan the next batch. -/
def scan (job : EmbeddingJob) (p : Progress) (s : Store) : Except StoreError Progress := do
  let batch ← s.scan .method codeAttribute p.scanned (some job.batchSize)
  if batch.isEmpty then return { p with stage := .finished }
  return {
    stage := .asking (batch.map (·.id)) (batch.map codeOf) false
    scanned := p.scanned + batch.length
    report := { p.report with methods := p.report.methods + batch.length } }

/-- Leave a batch out. -/
def skipBatch (p : Progress) : Progress :=
  { p with
    stage := .scanning
    report := { p.report with skippedBatches := p.report.skippedBatches + 1 } }

/-- Take the embedder's answer for a batch. -/
def receive (job : EmbeddingJob) (dimensions : Nat) (p : Progress) (batch : List NodeId)
    (texts : List String) (cut : Bool) : Except EmbedError (List (List Single)) → Progress
  | .ok vectors =>
    if vectors.length == batch.length && vectors.all (·.length == dimensions) then
      { p with stage := .writing (batch.zip vectors) (batch.length < job.batchSize) }
    else skipBatch p
  | .error (.tooLong _ _) =>
    if cut then skipBatch p
    else
      { p with
        stage := .asking batch (texts.map (Text.truncate job.tokensPerText)) true
        report := { p.report with truncatedBatches := p.report.truncatedBatches + 1 } }
  | .error _ => skipBatch p

/-- Write the next vector. -/
def write (p : Progress) (pending : List (NodeId × List Single)) (isLast : Bool) (s : Store) :
    Except StoreError (Progress × Store) :=
  match pending with
  | [] => .ok ({ p with stage := if isLast then .finished else .scanning }, s)
  | (id, v) :: rest => do
    let (_, s) ← s.setAttribute id embeddingAttribute (.vector v)
    return ({ p with
      stage := .writing rest isLast
      report := { p.report with embedded := p.report.embedded + 1 } }, s)

section

variable {m : Type → Type} [Monad m] (job : EmbeddingJob) (embedder : Embedder m)

/-- One step. -/
def step (p : Progress) (s : Store) : m (Except StoreError (Progress × Store)) :=
  match p.stage with
  | .scanning => pure ((job.scan p s).map (·, s))
  | .asking batch texts cut => do
    return .ok (job.receive embedder.dimensions p batch texts cut (← embedder.embedBatch texts), s)
  | .writing pending isLast => pure (write p pending isLast s)
  | .finished => pure (.ok (p, s))

/-- Step until finished, at most `fuel` times. The progress tells whether that was enough. -/
def runFrom : (fuel : Nat) → Progress → Store → m (Except StoreError (Progress × Store))
  | 0, p, s => pure (.ok (p, s))
  | fuel + 1, p, s =>
    if p.stage = .finished then pure (.ok (p, s))
    else do
      match ← step job embedder p s with
      | .error e => return .error e
      | .ok (p, s) => runFrom fuel p s

/-- Run the job on a store. A batch of `n` methods takes at most `n + 4` steps and
the end one more. -/
def run (s : Store) : m (Except StoreError (EmbeddingReport × Store)) :=
  match job.prepare embedder.dimensions s with
  | .error e => pure (.error e)
  | .ok s =>
    (·.map fun (p, s) => (p.report, s)) <$> runFrom job embedder
      (5 * s.state.graph.nodes.size + 1) {} s

end

end EmbeddingJob

end CodeGraph
