import CodeGraph.Json.Parser

/-!
# Reading documents as values

`Written.toText?` and its kin take a document for a value of one kind. A record is an object, whose
known fields occur at most once and whose unknown fields are passed over, or a list of the fields in
their order, of which only those at the end may be left out (`Written.fields?`).

A number literal gives the number that its leading digits, as many as fit a 64-bit word, make when
they are scaled by one power of ten (`Literal.toDouble?`); beyond the largest double it gives none.
-/

namespace CodeGraph.Json

/-- The leading digits that fit a 64-bit word, and how many were left out. -/
def leadingDigits : (fuel : Nat) → Nat → Nat × Nat
  | 0, n => (n, 0)
  | fuel + 1, n =>
    if n < 0x10000000000000000 then (n, 0)
    else
      let (front, dropped) := leadingDigits fuel (n / 10)
      (front, dropped + 1)

/-- Ten to a power for which there is a double. -/
def powerOfTen (n : Nat) : Double := Double.ofDecimal 1 n

/-- Divide by ten to the power `e`, 308 places at a time. -/
def scaleDown : (fuel : Nat) → Double → (e : Nat) → Double
  | 0, x, _ => x
  | fuel + 1, x, e =>
    if e ≤ 308 then x / powerOfTen e
    else if x = Double.zero then x
    else scaleDown fuel (x / powerOfTen 308) (e - 308)

/-- The magnitude of a number; nothing if it is too large. -/
def magnitude? (digits : Nat) (exponent : Int) : Option Double :=
  let (front, dropped) := leadingDigits (Nat.log2 digits + 1) digits
  match exponent + dropped with
  | .ofNat e =>
    if front = 0 then some .zero
    else if e ≤ 308 then
      let x := Double.ofNat front * powerOfTen e
      if x.isFinite then some x else none
    else none
  -- Four rounds reach zero from any word.
  | .negSucc e => some (scaleDown 4 (Double.ofNat front) (min (e + 1) 1200))

/-- The number of a literal. -/
def Literal.toDouble? (l : Literal) : Option Double :=
  (magnitude? l.digits l.exponent).map fun x => if l.negative then x.negate else x

namespace Written

def toText? : Written → Option String
  | text s => s
  | _ => none

/-- A natural number below `2 ^ 64`, written as an integer. -/
def toNat? : Written → Option Nat
  | number l => l.toNat?
  | _ => none

/-- An integer that fits a word is rounded once, any other number as a double first. -/
def toSingle? : Written → Option Single
  | number l =>
    match l.toInt? with
    | some (.ofNat n) => some (Single.ofWord (UInt64.ofNat n))
    | some (.negSucc n) => some (Single.ofWord (UInt64.ofNat (n + 1))).negate
    | none => l.toDouble?.map Double.toSingle
  | _ => none

/-- A list whose items all are of a kind. -/
def toList? {α : Type} (item? : Written → Option α) : Written → Option (List α)
  | list items => items.mapM item?
  | _ => none

/-- The members of an object under a name, if it has at most one of them. -/
def member? (members : List (Option String × Written)) (name : String) : Option (Option Written) :=
  match members.filter (·.1 == some name) with
  | [] => some none
  | [m] => some (some m.2)
  | _ => none

/-- The fields of a record in the order of their names; a missing field has no document. -/
def fields? (names : List String) : Written → Option (List (Option Written))
  | object members =>
    if members.all (·.1.isSome) then names.mapM (member? members) else none
  | list items =>
    if items.length ≤ names.length then some ((List.range names.length).map (items[·]?)) else none
  | _ => none

end Written

end CodeGraph.Json
