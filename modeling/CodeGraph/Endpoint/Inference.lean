import CodeGraph.Embedding.Embedder
import CodeGraph.Endpoint.Exchange
import CodeGraph.Json.Reading

/-!
# Feature extraction endpoints

An inference endpoint takes one text or several as `inputs` and answers with one vector or a list of
vectors. It rejects texts that are too long with status 400 and an error that says so.
-/

namespace CodeGraph.Endpoint.Inference

open Json

def name : String := "HuggingFace"

/-- What the error of an endpoint says about texts that are too long. -/
def tooLongMark : String := "must have less than"

/-- The vectors of an answer; a single empty vector is none. -/
def vectors? (w : Written) : Option (List (List Single)) :=
  match w.toList? Written.toSingle? with
  | some [] => some []
  | some v => some [v]
  | none => w.toList? (Written.toList? Written.toSingle?)

/-- The error text of a rejection, empty if it is missing or the body is no such record. -/
def errorText (body : String) : String :=
  let text? : Option String := do
    match (← (← parse? body).fields? ["error"]) with
    | [some w] => w.toText?
    | _ => none
  text?.getD ""

/-- Why an endpoint gave no vectors. -/
def failure (r : Response) : EmbedError :=
  let text := errorText r.body
  if r.status = 400 ∧ Text.occursIn tooLongMark.toList text.toList then .tooLong name text
  else .refused name r.status r.body

/-- What an answer says. -/
def interpret : Except String Response → Except EmbedError (List (List Single))
  | .error reason => .error (.unreachable name reason)
  | .ok r =>
    if r.isSuccess then
      match (parse? r.body).bind vectors? with
      | some vectors => .ok vectors
      | none => .error (.unreadable name "the body is no list of vectors")
    else .error (failure r)

/-- The vector of a single text: the first one, which may be empty. -/
def single : Except EmbedError (List (List Single)) → Except EmbedError (List Single)
  | .error e => .error e
  | .ok [] => .error (.noVector name)
  | .ok (v :: _) => .ok v

variable {m : Type → Type} [Monad m]

/-- The embedder of an endpoint. -/
def embedder (send : Channel m) (url : String) (token : Option String) (dimensions : Nat) :
    Embedder m :=
  let post (inputs : Json) : m (Except EmbedError (List (List Single))) :=
    interpret <$> send ⟨url, some "application/json", token, .object [("inputs", inputs)]⟩
  { name
    dimensions
    embed := fun text => single <$> post (.text text)
    embedBatch := fun texts => if texts.isEmpty then pure (.ok []) else post (.ofTexts texts) }

end CodeGraph.Endpoint.Inference
