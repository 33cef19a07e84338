import CodeGraph.Endpoint.Completion
import CodeGraph.Endpoint.Inference
import CodeGraph.Settings.Basic

/-!
# Providers

The embedder and the language model that settings name. An endpoint needs its address or a token;
the embedder of word counts needs nothing.
-/

namespace CodeGraph

/-- Why there is no provider. -/
inductive ProviderError
  | notConfigured (what : String)
  | unknownEmbedder (name : String)
  | unknownChatModel (name : String)
deriving DecidableEq, Inhabited

def ProviderError.message : ProviderError → String
  | notConfigured what => s!"{what} is not configured"
  | unknownEmbedder name => s!"Unknown embedding provider: {name}"
  | unknownChatModel name => s!"Unknown chat provider: {name}"

variable {m : Type → Type} [Monad m]

/-- The embedder that the settings name. -/
def EmbeddingSettings.embedder (send : Endpoint.Channel m) (s : EmbeddingSettings) :
    Except ProviderError (Embedder m) :=
  match s.provider with
  | "huggingface" =>
    match s.url with
    | none => .error (.notConfigured "embeddings url")
    | some url => .ok (Endpoint.Inference.embedder send url s.token s.dimensions)
  | "openai" =>
    match s.token with
    | none => .error (.notConfigured "embeddings token")
    | some token => .ok <| Endpoint.Completion.embedder send
        (s.url.getD Endpoint.Completion.embeddingsUrl)
        (s.model.getD Endpoint.Completion.defaultEmbeddingModel) token s.dimensions
  | "local" => .ok (Embedder.ofWords s.dimensions)
  | other => .error (.unknownEmbedder other)

/-- The language model that the settings name. -/
def ChatSettings.chatModel (send : Endpoint.Channel m) (s : ChatSettings) :
    Except ProviderError (ChatModel m) :=
  match s.provider with
  | "openai" =>
    match s.apiKey with
    | none => .error (.notConfigured "llm api key")
    | some key =>
      .ok (Endpoint.Completion.chatModel send (s.url.getD Endpoint.Completion.chatUrl) s.model key)
  | other => .error (.unknownChatModel other)

end CodeGraph
