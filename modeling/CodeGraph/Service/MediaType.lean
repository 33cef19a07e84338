import CodeGraph.Text.Character

/-!
# Media types

A media type is a type and a subtype, which may end in a suffix that names a wider format, and after
them parameters, of which only the form matters here.
-/

namespace CodeGraph.Service

/-- A media type in lower case without its parameters. -/
structure MediaType where
  type : String
  subtype : String
  suffix : Option String
deriving DecidableEq, Inhabited

namespace MediaType

/-- The characters of which types, names and plain values are made. -/
def isToken (c : Char) : Bool :=
  Text.isAsciiLetter c || Text.isAsciiDigit c || "!#$%&'*+-.^_|~".toList.contains c || c.toNat == 96

/-- The characters that may stand between quotes. -/
def isQuotable (c : Char) : Bool := 32 ≤ c.toNat && c.toNat != 127

/-- Where the reading of parameters stands. -/
inductive Reading
  | beforeName | name | beforeValue | value | openingQuote | quoted | closed
deriving DecidableEq, Inhabited

/-- What follows a character; nothing if it may not stand there. -/
def Reading.next : Reading → Char → Option Reading
  | beforeName, c => if c = ' ' then some beforeName else if isToken c then some name else none
  | name, c => if c = '=' then some beforeValue else if isToken c then some name else none
  | beforeValue, c => if c = '"' then some openingQuote else if isToken c then some value else none
  | value, c => if c = ';' then some beforeName else if isToken c then some value else none
  | openingQuote, c => if isQuotable c then some quoted else none
  | quoted, c => if c = '"' then some closed else if isQuotable c then some quoted else none
  | closed, c => if c = ';' then some beforeName else if c = ' ' then some closed else none

/-- Whether parameters may end here. -/
def Reading.mayEnd : Reading → Bool
  | beforeName | beforeValue | value | closed => true
  | name | openingQuote | quoted => false

/-- Whether parameters are well formed from here on. -/
def paramsFrom (r : Reading) : List Char → Bool
  | [] => r.mayEnd
  | c :: cs =>
    match r.next c with
    | some r => paramsFrom r cs
    | none => false

/-- The part before the last plus sign and the part after it; a plus sign at the
start does not count. -/
def splitSuffix (subtype : List Char) : List Char × Option (List Char) :=
  let suffix := (subtype.reverse.takeWhile (· != '+')).reverse
  let front := subtype.take (subtype.length - suffix.length - 1)
  if front.isEmpty || suffix.length == subtype.length then (subtype, none) else (front, some suffix)

/-- The media type that a text names. -/
def ofText? (text : String) : Option MediaType :=
  let cs := text.toList
  let type := cs.takeWhile isToken
  match cs.dropWhile isToken with
  | '/' :: rest =>
    let whole := rest.takeWhile isToken
    let wellFormed := match rest.dropWhile isToken with
      | [] => true
      | ';' :: params => !whole.isEmpty && paramsFrom .beforeName params
      | _ => false
    if type.isEmpty || !wellFormed then none
    else
      let (subtype, suffix) := splitSuffix whole
      let lower (cs : List Char) := String.ofList (cs.flatMap Text.lowercase)
      some ⟨lower type, lower subtype, suffix.map lower⟩
  | _ => none

/-- Whether documents of this type are JSON. -/
def isJson (m : MediaType) : Bool :=
  m.type == "application" && (m.subtype == "json" || m.suffix == some "json")

end MediaType

end CodeGraph.Service
