import CodeGraph.Chat.Message
import CodeGraph.Json.Decoder
import CodeGraph.Service.MediaType

/-!
# Requests and responses

A request names a route by method and path and may carry a JSON document. `Request.route` says which
route it means, or how it is turned away; `Request.decode` likewise for the document.
-/

namespace CodeGraph.Service

structure Request where
  method : String
  /-- The path and what follows it. -/
  target : String
  contentType : Option String := none
  body : String := ""
deriving DecidableEq, Inhabited

/-- What a response carries. -/
inductive Content
  | text (value : String)
  | document (value : Json)
deriving Inhabited

structure Response where
  status : Nat
  content : Content
deriving Inhabited

namespace Response

def text (status : Nat) (message : String) : Response := ⟨status, .text message⟩

def document (status : Nat) (value : Json) : Response := ⟨status, .document value⟩

/-- A response that says no more than its status. -/
def bare (status : Nat) : Response := text status ""

def withoutContent (r : Response) : Response := bare r.status

end Response

/-! ## Routes -/

inductive Route
  | query
  | chat
  | index
  | reset
  | isEmpty
  | health
deriving DecidableEq, Inhabited

namespace Route

def all : List Route := [query, chat, index, reset, isEmpty, health]

def path : Route → String
  | query => "/api/query"
  | chat => "/api/chat"
  | index => "/api/index"
  | reset => "/api/graph/reset"
  | isEmpty => "/api/graph/empty"
  | health => "/api/health"

/-- Whether the route only looks. -/
def onlyLooks : Route → Bool
  | isEmpty | health => true
  | query | chat | index | reset => false

/-- The methods that the route answers. -/
def methods (r : Route) : List String := if r.onlyLooks then ["GET", "HEAD"] else ["POST"]

end Route

/-- The path of a request, without what a question mark or a number sign starts. -/
def Request.path (r : Request) : String :=
  String.ofList (r.target.toList.takeWhile fun c => c != '?' && c != '#')

/-- The route of a request, or the response that turns it away. -/
def Request.route (r : Request) : Except Response Route :=
  match Route.all.find? (·.path == r.path) with
  | none => .error (.bare 404)
  | some route => if route.methods.contains r.method then .ok route else .error (.bare 405)

/-! ## Documents -/

/-- Ask for the clusters near a text. -/
structure QueryRequest where
  prompt : String := ""
  topN : Option Nat := none
deriving DecidableEq, Inhabited

/-- Go on with a conversation, told about the clusters near a text. -/
structure ChatRequest where
  messages : List ChatMessage
  query : Option String
deriving DecidableEq, Inhabited

/-- Index a project. -/
structure IndexRequest where
  projectRoot : String
deriving DecidableEq, Inhabited

open Json Decoder

def QueryRequest.decoder : Decoder QueryRequest :=
  record [
    field "prompt" text fun r prompt => { r with prompt },
    field "topN" (optional nat) fun r topN => { r with topN }] {}

def messageDecoder : Decoder ChatMessage :=
  checked
    (record [
      field "role" text fun (r : Option String × Option String) role => (some role, r.2),
      field "content" text fun r content => (r.1, some content)] (none, none))
    fun (role, content) => return ⟨← role, ← content⟩

def ChatRequest.decoder : Decoder ChatRequest :=
  checked
    (record [
      field "messages" (list messageDecoder)
        fun (r : Option (List ChatMessage) × Option String) messages => (some messages, r.2),
      field "query" (optional text) fun r query => (r.1, query)] (none, none))
    fun (messages, query) => return ⟨← messages, query⟩

def IndexRequest.decoder : Decoder IndexRequest :=
  checked
    (record [field "projectRoot" text fun (_ : Option String) projectRoot => some projectRoot] none)
    fun projectRoot => return ⟨← projectRoot⟩

/-- The document of a request, or the response that turns it away. -/
def Request.decode {α : Type} (r : Request) (d : Decoder α) : Except Response α :=
  if ((r.contentType.bind MediaType.ofText?).any MediaType.isJson) then
    match d.run r.body with
    | .ok a => .ok a
    | .error .malformed => .error (.bare 400)
    | .error .unfit => .error (.bare 422)
  else .error (.bare 415)

end CodeGraph.Service
