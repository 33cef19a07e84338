import CodeGraph.Numeric.Shortest

/-!
# JSON documents

`Json` is a document to be written: members stand in the order in which they are listed, and a
number that is not finite has no JSON form (`Json.ofDouble` gives `null` for it). `compact` writes
without blanks, `pretty` with a line per item and two blanks per level.
-/

namespace CodeGraph

/-- A JSON document. -/
inductive Json
  | null
  | bool (value : Bool)
  | int (value : Int)
  | real (value : Double)
  | text (value : String)
  | list (items : List Json)
  | object (members : List (String × Json))
deriving Inhabited

namespace Json

def ofDouble (x : Double) : Json := if x.isFinite then .real x else .null

def ofNat (n : Nat) : Json := .int n

def ofOption {α : Type} (f : α → Json) : Option α → Json
  | none => .null
  | some a => f a

def ofTexts (texts : List String) : Json := .list (texts.map .text)

/-- One hexadecimal digit in lower case. -/
def hexDigit (n : Nat) : Char := Nat.digitChar (n % 16)

/-- How a character stands inside a quoted text. -/
def escape (c : Char) : List Char :=
  match c with
  | '"' => ['\\', '"']
  | '\\' => ['\\', '\\']
  | '\n' => ['\\', 'n']
  | '\r' => ['\\', 'r']
  | '\t' => ['\\', 't']
  | c =>
    if c.toNat = 8 then ['\\', 'b']
    else if c.toNat = 12 then ['\\', 'f']
    else if c.toNat < 32 then ['\\', 'u', '0', '0', hexDigit (c.toNat / 16), hexDigit c.toNat]
    else [c]

def quote (s : String) : String := String.ofList (['"'] ++ s.toList.flatMap escape ++ ['"'])

/-- The text of a document that has no parts. -/
def scalar : Json → String
  | null => "null"
  | bool true => "true"
  | bool false => "false"
  | int i => toString i
  | real x => x.render
  | text s => quote s
  | list _ | object _ => ""

mutual

/-- The text without blanks. -/
def compact : Json → String
  | list items => "[" ++ compactItems items ++ "]"
  | object members => "\x7b" ++ compactMembers members ++ "\x7d"
  | j => scalar j

def compactItems : List Json → String
  | [] => ""
  | [j] => compact j
  | j :: rest => compact j ++ "," ++ compactItems rest

def compactMembers : List (String × Json) → String
  | [] => ""
  | [(k, j)] => quote k ++ ":" ++ compact j
  | (k, j) :: rest => quote k ++ ":" ++ compact j ++ "," ++ compactMembers rest

end

/-- A new line indented by a number of levels. -/
def newline (depth : Nat) : String := String.ofList ('\n' :: List.replicate (2 * depth) ' ')

mutual

/-- The text at a depth, every item on a line of its own. -/
def prettyAt (depth : Nat) : Json → String
  | list [] => "[]"
  | list (j :: rest) => "[" ++ prettyItems (depth + 1) (j :: rest) ++ newline depth ++ "]"
  | object [] => "\x7b\x7d"
  | object (m :: rest) => "\x7b" ++ prettyMembers (depth + 1) (m :: rest) ++ newline depth ++ "\x7d"
  | j => scalar j

def prettyItems (depth : Nat) : List Json → String
  | [] => ""
  | [j] => newline depth ++ prettyAt depth j
  | j :: rest => newline depth ++ prettyAt depth j ++ "," ++ prettyItems depth rest

def prettyMembers (depth : Nat) : List (String × Json) → String
  | [] => ""
  | [(k, j)] => newline depth ++ quote k ++ ": " ++ prettyAt depth j
  | (k, j) :: rest =>
    newline depth ++ quote k ++ ": " ++ prettyAt depth j ++ "," ++ prettyMembers depth rest

end

/-- The text with every item on a line of its own. -/
def pretty (j : Json) : String := prettyAt 0 j

end Json

end CodeGraph
