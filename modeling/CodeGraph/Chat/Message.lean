import CodeGraph.Json.Basic

/-!
# Conversations

A conversation with a language model is a list of messages. A `ChatModel` answers one in a monad.
-/

namespace CodeGraph

/-- One turn of a conversation. -/
structure ChatMessage where
  role : String
  content : String
deriving DecidableEq, Inhabited

def ChatMessage.toJson (message : ChatMessage) : Json :=
  .object [("role", .text message.role), ("content", .text message.content)]

/-- Why a language model did not answer. -/
inductive ChatError
  | unreachable
  | refused (status : String) (body : String)
  | unreadable
  | noChoice
deriving DecidableEq, Inhabited

def ChatError.message : ChatError → String
  | unreachable => "Failed to send request to OpenAI"
  | refused status body => s!"OpenAI API error {status}: {body}"
  | unreadable => "Failed to parse OpenAI response"
  | noChoice => "OpenAI response contained no choices"

/-- A language model that answers conversations. -/
structure ChatModel (m : Type → Type) where
  name : String
  complete : List ChatMessage → m (Except ChatError String)

end CodeGraph
