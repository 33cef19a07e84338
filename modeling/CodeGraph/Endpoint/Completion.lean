import CodeGraph.Chat.Message
import CodeGraph.Embedding.Embedder
import CodeGraph.Endpoint.Exchange
import CodeGraph.Json.Reading

/-!
# Completion endpoints

An endpoint of this kind embeds texts and completes conversations. It labels every vector with the
position of its text and may list them in any order; `aligned` puts them back in order. Of the
choices that complete a conversation the first counts.
-/

namespace CodeGraph.Endpoint.Completion

open Json

def name : String := "OpenAI"

def embeddingsUrl : String := "https://api.openai.com/v1/embeddings"

def chatUrl : String := "https://api.openai.com/v1/chat/completions"

def defaultEmbeddingModel : String := "text-embedding-3-small"

/-! ## Vectors -/

/-- A vector with the position of its text. -/
structure Labelled where
  position : Nat
  vector : List Single
deriving DecidableEq, Inhabited

def labelled? (w : Written) : Option Labelled := do
  match (← w.fields? ["index", "embedding"]) with
  | [some index, some embedding] =>
    return ⟨← index.toNat?, ← embedding.toList? Written.toSingle?⟩
  | _ => none

/-- The labelled vectors of an answer, as listed. -/
def vectors? (w : Written) : Option (List Labelled) := do
  match (← w.fields? ["data"]) with
  | [some data] => data.toList? labelled?
  | _ => none

/-- The vectors in the order of their positions, those of one position as listed. -/
def aligned (vectors : List Labelled) : List (List Single) :=
  (vectors.mergeSort fun a b => a.position ≤ b.position).map (·.vector)

/-- Whether a rejection says that a text is too long. -/
def saysTooLong (body : String) : Bool :=
  Text.occursIn "maximum context length".toList body.toList ||
    Text.occursIn "context_length_exceeded".toList body.toList

/-- What an answer to a batch of texts says. -/
def interpret : Except String Response → Except EmbedError (List (List Single))
  | .error reason => .error (.unreachable name reason)
  | .ok r =>
    if r.isSuccess then
      match (parse? r.body).bind vectors? with
      | some vectors => .ok (aligned vectors)
      | none => .error (.unreadable name "the body is no list of labelled vectors")
    else if r.status = 400 ∧ saysTooLong r.body then .error (.tooLong name r.body)
    else .error (.refused name r.status r.body)

/-! ## Conversations -/

def message? (w : Written) : Option ChatMessage := do
  match (← w.fields? ["role", "content"]) with
  | [some role, some content] => return ⟨← role.toText?, ← content.toText?⟩
  | _ => none

def choice? (w : Written) : Option ChatMessage := do
  match (← w.fields? ["message"]) with
  | [some message] => message? message
  | _ => none

/-- The messages that an answer offers. -/
def choices? (w : Written) : Option (List ChatMessage) := do
  match (← w.fields? ["choices"]) with
  | [some choices] => choices.toList? choice?
  | _ => none

/-- What an answer to a conversation says. -/
def reply : Except String Response → Except ChatError String
  | .error _ => .error .unreachable
  | .ok r =>
    if r.isSuccess then
      match (parse? r.body).bind choices? with
      | none => .error .unreadable
      | some [] => .error .noChoice
      | some (message :: _) => .ok message.content
    else .error (.refused (Status.display r.status) r.body)

variable {m : Type → Type} [Monad m] (send : Channel m)

/-- The embedder of an endpoint. -/
def embedder (url model token : String) (dimensions : Nat) : Embedder m :=
  .ofBatch name dimensions fun texts =>
    if texts.isEmpty then pure (.ok [])
    else interpret <$>
      send ⟨url, none, some token, .object [("model", .text model), ("input", .ofTexts texts)]⟩

/-- The language model of an endpoint. -/
def chatModel (url model token : String) : ChatModel m where
  name
  complete messages := reply <$> send ⟨url, none, some token, .object [
    ("model", .text model), ("messages", .list (messages.map ChatMessage.toJson))]⟩

end CodeGraph.Endpoint.Completion
