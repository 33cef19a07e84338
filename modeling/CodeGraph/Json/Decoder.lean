import CodeGraph.Json.Reading

/-!
# Decoding JSON from left to right

A `Decoder` reads a value of one kind off the start of a document. What it meets first
decides how it fails: something that is no JSON, or JSON of another kind. What follows
the value is not looked at.

A record is an object or the list of its fields in order (`Decoder.record`); a field that an object
repeats does not fit, and a list that goes on after the last field is taken for malformed.
-/

namespace CodeGraph.Json

/-- Why a document was not decoded. -/
inductive DecodeError
  | malformed
  | unfit
deriving DecidableEq, Inhabited

/-- Reads a value and answers what follows it. -/
abbrev Decoder (α : Type) := List Char → Except DecodeError (α × List Char)

namespace Decoder

variable {α σ : Type}

/-- How a value of another kind fails; if it has no parts it is read to its end first. -/
def mismatch (cs : List Char) : DecodeError :=
  match skipSpace cs with
  | '[' :: _ => .unfit
  | '\x7b' :: _ => .unfit
  | cs =>
    match value? (cs.length + 1) cs with
    | none => .malformed
    | some (.text none, _) => .malformed
    | some (.number l, _) => if l.toInt?.isSome || l.toDouble?.isSome then .unfit else .malformed
    | some _ => .unfit

def text : Decoder String := fun cs =>
  match skipSpace cs with
  | '"' :: rest =>
    match quoted? rest with
    | some (some s, rest) => .ok (s, rest)
    | _ => .error .malformed
  | cs => .error (mismatch cs)

/-- A natural number below `2 ^ 64`. -/
def nat : Decoder Nat := fun cs =>
  match number? (skipSpace cs) with
  | some (l, rest) =>
    match l.toNat? with
    | some n => .ok (n, rest)
    | none => .error (mismatch cs)
  | none => .error (mismatch cs)

/-- A value that may be null. -/
def optional (value : Decoder α) : Decoder (Option α) := fun cs =>
  match skipSpace cs with
  | 'n' :: rest =>
    match word? ['u', 'l', 'l'] rest with
    | some rest => .ok (none, rest)
    | none => .error .malformed
  | cs => (value cs).map fun (a, rest) => (some a, rest)

/-- The items of a list up to its closing bracket. -/
def items (item : Decoder α) : (fuel : Nat) → List α → Decoder (List α)
  | 0, _, _ => .error .malformed
  | fuel + 1, before, cs => do
    let (a, rest) ← item cs
    match skipSpace rest with
    | ',' :: rest => items item fuel (before ++ [a]) rest
    | ']' :: rest => return (before ++ [a], rest)
    | _ => throw .malformed

def list (item : Decoder α) : Decoder (List α) := fun cs =>
  match skipSpace cs with
  | '[' :: rest =>
    match skipSpace rest with
    | ']' :: rest => .ok ([], rest)
    | rest => items item (rest.length + 1) [] rest
  | cs => .error (mismatch cs)

/-! ## Records -/

/-- How the field of a name adds to what is known of a record. -/
structure Field (σ : Type) where
  name : String
  decode : σ → Decoder σ

/-- A field of which the value is put into the record. -/
def field (name : String) (value : Decoder α) (set : σ → α → σ) : Field σ :=
  ⟨name, fun s cs => (value cs).map fun (a, rest) => (set s a, rest)⟩

/-- Any value, passed over. -/
def skipped (s : σ) : Decoder σ := fun cs =>
  match value? (cs.length + 1) cs with
  | some (_, rest) => .ok (s, rest)
  | none => .error .malformed

/-- The members of an object up to its closing brace. -/
def members (fields : List (Field σ)) : (fuel : Nat) → (seen : List String) → σ → Decoder σ
  | 0, _, _, _ => .error .malformed
  | fuel + 1, seen, s, cs =>
    match skipSpace cs with
    | '"' :: rest =>
      match quoted? rest with
      | some (some name, rest) => do
        let known := fields.find? (·.name == name)
        if known.isSome && seen.contains name then throw .unfit
        let ':' :: rest := skipSpace rest | throw .malformed
        let (s, rest) ← match known with
          | some f => f.decode s rest
          | none => skipped s rest
        match skipSpace rest with
        | ',' :: rest => members fields fuel (name :: seen) s rest
        | '\x7d' :: rest => return (s, rest)
        | _ => throw .malformed
      | _ => .error .malformed
    | _ => .error .malformed

/-- The items of a list taken for fields, up to its closing bracket. -/
def positions : List (Field σ) → (isFirst : Bool) → σ → Decoder σ
  | fields, isFirst, s, cs =>
    match skipSpace cs with
    | ']' :: rest => .ok (s, rest)
    | rest =>
      match fields, isFirst, rest with
      | [], _, _ => .error .malformed
      | f :: fields, true, rest => do
        let (s, rest) ← f.decode s rest
        positions fields false s rest
      | f :: fields, false, ',' :: rest => do
        let (s, rest) ← f.decode s rest
        positions fields false s rest
      | _ :: _, false, _ => .error .malformed

/-- A record that starts as `s`. -/
def record (fields : List (Field σ)) (s : σ) : Decoder σ := fun cs =>
  match skipSpace cs with
  | '[' :: rest => positions fields true s rest
  | '\x7b' :: rest =>
    match skipSpace rest with
    | '\x7d' :: rest => .ok (s, rest)
    | rest => members fields (rest.length + 1) [] s rest
  | cs => .error (mismatch cs)

/-- Take what is known of a record for a value; if something is missing, the record does not fit. -/
def checked (d : Decoder σ) (finish : σ → Option α) : Decoder α := fun cs => do
  let (s, rest) ← d cs
  match finish s with
  | some a => return (a, rest)
  | none => throw .unfit

/-- Decode the start of a document. -/
def run (d : Decoder α) (document : String) : Except DecodeError α :=
  (d document.toList).map (·.1)

end Decoder

end CodeGraph.Json
