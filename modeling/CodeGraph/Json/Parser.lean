import CodeGraph.Json.Basic

/-!
# Reading JSON

`Json.parse?` reads one whole document into its `Written` form, which keeps what a reader may still
have to judge: numbers as literals, members in source order with repetitions, and texts that name
half of a surrogate pair (such a text has no characters, hence `none`).
-/

namespace CodeGraph.Json

/-- A number literal: `digits * 10 ^ exponent`, negated or not; `integral` if it shows neither a
fraction nor an exponent. -/
structure Literal where
  negative : Bool
  digits : Nat
  exponent : Int
  integral : Bool
deriving DecidableEq, Inhabited

/-- The integer of a literal that fits a 64-bit word, signed if negative. Minus zero
is no integer. -/
def Literal.toInt? (l : Literal) : Option Int :=
  if !l.integral then none
  else if l.negative then
    if 0 < l.digits && l.digits ≤ 0x8000000000000000 then some (-(l.digits : Int)) else none
  else if l.digits < 0x10000000000000000 then some l.digits
  else none

/-- The natural number of a literal that fits a 64-bit word. -/
def Literal.toNat? (l : Literal) : Option Nat :=
  match l.toInt? with
  | some (.ofNat n) => some n
  | _ => none

/-- A document as written. -/
inductive Written
  | null
  | bool (value : Bool)
  | number (literal : Literal)
  | text (value : Option String)
  | list (items : List Written)
  | object (members : List (Option String × Written))
deriving Inhabited

/-! ## Lexemes -/

def isSpace (c : Char) : Bool := c == ' ' || c == '\n' || c == '\t' || c == '\r'

def skipSpace (cs : List Char) : List Char := cs.dropWhile isSpace

def hexValue? (c : Char) : Option Nat :=
  if '0' ≤ c && c ≤ '9' then some (c.toNat - 48)
  else if 'a' ≤ c && c ≤ 'f' then some (c.toNat - 87)
  else if 'A' ≤ c && c ≤ 'F' then some (c.toNat - 55)
  else none

/-- The number of four hexadecimal digits. -/
def hexFour? : List Char → Option (Nat × List Char)
  | a :: b :: c :: d :: rest => do
    let a ← hexValue? a
    let b ← hexValue? b
    let c ← hexValue? c
    let d ← hexValue? d
    return (((a * 16 + b) * 16 + c) * 16 + d, rest)
  | _ => none

/-- One 16-bit unit or character of a quoted text. -/
inductive Piece
  | char (c : Char)
  | unit (u : Nat)

/-- The character of a one-letter escape. -/
def shortEscape? (c : Char) : Option Char :=
  match c with
  | '"' => some '"'
  | '\\' => some '\\'
  | '/' => some '/'
  | 'b' => some (Char.ofNat 8)
  | 'f' => some (Char.ofNat 12)
  | 'n' => some '\n'
  | 'r' => some '\r'
  | 't' => some '\t'
  | _ => none

/-- The pieces of a quoted text up to its closing quote. -/
def pieces? : (fuel : Nat) → List Piece → List Char → Option (List Piece × List Char)
  | 0, _, _ => none
  | _ + 1, _, [] => none
  | _ + 1, acc, '"' :: rest => some (acc.reverse, rest)
  | fuel + 1, acc, '\\' :: 'u' :: rest =>
    match hexFour? rest with
    | none => none
    | some (u, rest) => pieces? fuel (.unit u :: acc) rest
  | fuel + 1, acc, '\\' :: c :: rest =>
    match shortEscape? c with
    | none => none
    | some e => pieces? fuel (.char e :: acc) rest
  | fuel + 1, acc, c :: rest => if c.toNat < 32 then none else pieces? fuel (.char c :: acc) rest

def isHighSurrogate (u : Nat) : Bool := 0xd800 ≤ u && u < 0xdc00

def isLowSurrogate (u : Nat) : Bool := 0xdc00 ≤ u && u < 0xe000

/-- The characters of the pieces, pairs of surrogates joined; nothing if one stands alone. -/
def join? : List Piece → Option (List Char)
  | [] => some []
  | .char c :: rest => (c :: ·) <$> join? rest
  | .unit u :: .unit v :: rest =>
    if isHighSurrogate u then
      if isLowSurrogate v then
        (Char.ofNat (0x10000 + (u - 0xd800) * 1024 + (v - 0xdc00)) :: ·) <$> join? rest
      else none
    else if isLowSurrogate u then none
    else (Char.ofNat u :: ·) <$> join? (.unit v :: rest)
  | .unit u :: rest =>
    if isHighSurrogate u || isLowSurrogate u then none else (Char.ofNat u :: ·) <$> join? rest

/-- A quoted text after its opening quote. -/
def quoted? (cs : List Char) : Option (Option String × List Char) := do
  let (ps, rest) ← pieces? (cs.length + 1) [] cs
  return (String.ofList <$> join? ps, rest)

def isDigit (c : Char) : Bool := '0' ≤ c && c ≤ '9'

/-- The natural number that digits spell. -/
def ofDigits (ds : List Char) : Nat := ds.foldl (fun n c => n * 10 + (c.toNat - 48)) 0

/-- A number literal: no digit before a leading zero, and a digit on each side of a point. -/
def number? (cs : List Char) : Option (Literal × List Char) := do
  let (negative, cs) := match cs with
    | '-' :: rest => (true, rest)
    | _ => (false, cs)
  let whole := cs.takeWhile isDigit
  let cs := cs.dropWhile isDigit
  if whole.isEmpty || (whole.head? == some '0' && 1 < whole.length) then failure
  let (fraction, cs) := match cs with
    | '.' :: rest => (some (rest.takeWhile isDigit), rest.dropWhile isDigit)
    | _ => (none, cs)
  if fraction == some [] then failure
  let (power, cs) ← match cs with
    | c :: rest =>
      if c == 'e' || c == 'E' then do
        let (negated, rest) := match rest with
          | '-' :: rest => (true, rest)
          | '+' :: rest => (false, rest)
          | _ => (false, rest)
        let ds := rest.takeWhile isDigit
        if ds.isEmpty then failure
        let n : Int := ofDigits ds
        pure (some (if negated then -n else n), rest.dropWhile isDigit)
      else pure (none, cs)
    | [] => pure (none, cs)
  let places := fraction.getD []
  return (⟨negative, ofDigits (whole ++ places), power.getD 0 - places.length,
    fraction.isNone && power.isNone⟩, cs)

/-! ## Documents -/

/-- Read a given word. -/
def word? : List Char → List Char → Option (List Char)
  | [], cs => some cs
  | _ :: _, [] => none
  | w :: ws, c :: cs => if w = c then word? ws cs else none

mutual

/-- One value, blanks before it skipped. -/
def value? : (fuel : Nat) → List Char → Option (Written × List Char)
  | 0, _ => none
  | fuel + 1, cs =>
    match skipSpace cs with
    | 'n' :: rest => (word? ['u', 'l', 'l'] rest).map (Written.null, ·)
    | 't' :: rest => (word? ['r', 'u', 'e'] rest).map (Written.bool true, ·)
    | 'f' :: rest => (word? ['a', 'l', 's', 'e'] rest).map (Written.bool false, ·)
    | '"' :: rest => (quoted? rest).map fun (s, rest) => (Written.text s, rest)
    | '[' :: rest =>
      match skipSpace rest with
      | ']' :: rest => some (.list [], rest)
      | rest => (items? fuel [] rest).map fun (items, rest) => (Written.list items, rest)
    | '\x7b' :: rest =>
      match skipSpace rest with
      | '\x7d' :: rest => some (.object [], rest)
      | rest => (members? fuel [] rest).map fun (members, rest) => (Written.object members, rest)
    | rest => (number? rest).map fun (l, rest) => (Written.number l, rest)

/-- The items of a list up to its closing bracket. -/
def items? : (fuel : Nat) → List Written → List Char → Option (List Written × List Char)
  | 0, _, _ => none
  | fuel + 1, acc, cs =>
    match value? fuel cs with
    | none => none
    | some (v, rest) =>
      match skipSpace rest with
      | ',' :: rest => items? fuel (v :: acc) rest
      | ']' :: rest => some ((v :: acc).reverse, rest)
      | _ => none

/-- The members of an object up to its closing brace. -/
def members? : (fuel : Nat) → List (Option String × Written) → List Char →
    Option (List (Option String × Written) × List Char)
  | 0, _, _ => none
  | fuel + 1, acc, cs =>
    match skipSpace cs with
    | '"' :: rest =>
      match quoted? rest with
      | none => none
      | some (key, rest) =>
        match skipSpace rest with
        | ':' :: rest =>
          match value? fuel rest with
          | none => none
          | some (v, rest) =>
            match skipSpace rest with
            | ',' :: rest => members? fuel ((key, v) :: acc) rest
            | '\x7d' :: rest => some (((key, v) :: acc).reverse, rest)
            | _ => none
        | _ => none
    | _ => none

end

/-- Read one whole document. -/
def parse? (s : String) : Option Written := do
  let cs := s.toList
  let (v, rest) ← value? (cs.length + 1) cs
  if (skipSpace rest).isEmpty then some v else none

end CodeGraph.Json
