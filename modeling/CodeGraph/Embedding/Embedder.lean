import CodeGraph.Embedding.Words

/-!
# Embedders

An `Embedder` turns texts into vectors of one length, one at a time or in a batch, whose answer is
aligned with the texts. What it does to get them happens in a monad: an endpoint is asked, a script
is read on, or, for `Embedder.ofWords`, nothing at all.
-/

namespace CodeGraph

/-- Why an embedder has no vectors to give. -/
inductive EmbedError
  | unreachable (provider reason : String)
  | refused (provider : String) (status : Nat) (body : String)
  | tooLong (provider reason : String)
  | noVector (provider : String)
  | unreadable (provider reason : String)
deriving DecidableEq, Inhabited

def EmbedError.message : EmbedError → String
  | unreachable provider reason => s!"request to {provider} failed: {reason}"
  | refused provider status body => s!"{provider} returned HTTP {status}: {body}"
  | tooLong provider reason => s!"input rejected by {provider} as too long: {reason}"
  | noVector provider => s!"{provider} returned an empty embedding"
  | unreadable provider reason => s!"unexpected response from {provider}: {reason}"

/-- A source of vectors. -/
structure Embedder (m : Type → Type) where
  name : String
  dimensions : Nat
  embed : String → m (Except EmbedError (List Single))
  embedBatch : List String → m (Except EmbedError (List (List Single)))

namespace Embedder

variable {m : Type → Type} [Monad m]

/-- The vector of one text out of a batch's answer: the last one, which must not be empty. -/
def ofAnswer (name : String) : Except EmbedError (List (List Single)) →
    Except EmbedError (List Single)
  | .error e => .error e
  | .ok vectors =>
    match vectors.getLast? with
    | none | some [] => .error (.noVector name)
    | some v => .ok v

/-- An embedder that asks for a single text as for a batch of one. -/
def ofBatch (name : String) (dimensions : Nat)
    (embedBatch : List String → m (Except EmbedError (List (List Single)))) : Embedder m where
  name
  dimensions
  embed s := ofAnswer name <$> embedBatch [s]
  embedBatch

/-- The embedder that needs no endpoint: vectors of word counts. A single text without words has no
vector, in a batch it has the zero vector. -/
def ofWords (dimensions : Nat) : Embedder m :=
  let dimensions := max 1 dimensions
  { name := "local"
    dimensions
    embed := fun s => pure <|
      if (Embedding.words s.toList).isEmpty then .error (.noVector "local")
      else .ok (Embedding.wordVector dimensions s)
    embedBatch := fun texts => pure (.ok (texts.map (Embedding.wordVector dimensions))) }

end Embedder

end CodeGraph
