import CodeGraph.Json.Parser
import CodeGraph.Numeric.Floating
import CodeGraph.Text.Character

/-!
# TOML lexemes

Readers of the parts of a TOML document that have no structure: blanks and comments, strings in four
spellings, keys, numbers and moments. Each answers with the rest of the input, or with nothing.
-/

namespace CodeGraph.Toml

open Text (isAsciiDigit isAsciiLetter)

def isSpace (c : Char) : Bool := c == ' ' || c == '\t'

def skipSpaces (cs : List Char) : List Char := cs.dropWhile isSpace

/-- Characters that may stand in a comment or string as they are. -/
def isPlain (c : Char) : Bool := c == '\t' || (32 ≤ c.toNat && c.toNat != 127)

/-- Read the end of a line. -/
def newline? : List Char → Option (List Char)
  | '\n' :: rest => some rest
  | '\r' :: '\n' :: rest => some rest
  | _ => none

/-- Skip a comment. -/
def skipComment : List Char → List Char
  | '#' :: rest => rest.dropWhile isPlain
  | cs => cs

/-- Read what may follow a statement: blanks, a comment and the end of the line or of the input. -/
def lineEnd? (cs : List Char) : Option (List Char) :=
  match skipComment (skipSpaces cs) with
  | [] => some []
  | rest => newline? rest

/-- Skip blanks and line ends. -/
def skipLines : (fuel : Nat) → List Char → List Char
  | 0, cs => cs
  | fuel + 1, cs =>
    let cs := skipSpaces cs
    match newline? cs with
    | some rest => skipLines fuel rest
    | none => cs

/-- Skip blanks, line ends and comments that end with their line. -/
def skipTrivia : (fuel : Nat) → List Char → List Char
  | 0, cs => cs
  | fuel + 1, cs =>
    let cs := skipSpaces cs
    match newline? (skipComment cs) with
    | some rest => skipTrivia fuel rest
    | none => cs

/-! ## Strings -/

/-- The character of so many hexadecimal digits. -/
def hexChar? (width : Nat) (cs : List Char) : Option (Char × List Char) := do
  let digits ← (cs.take width).mapM Json.hexValue?
  if digits.length < width then none
  let n := digits.foldl (fun n d => n * 16 + d) 0
  if n < 0x110000 ∧ ¬(0xd800 ≤ n ∧ n < 0xe000) then return (Char.ofNat n, cs.drop width) else none

/-- The character of an escape after its backslash. -/
def escape? : List Char → Option (Char × List Char)
  | 'b' :: rest => some (Char.ofNat 8, rest)
  | 'f' :: rest => some (Char.ofNat 12, rest)
  | 'n' :: rest => some ('\n', rest)
  | 'r' :: rest => some ('\r', rest)
  | 't' :: rest => some ('\t', rest)
  | '\\' :: rest => some ('\\', rest)
  | '"' :: rest => some ('"', rest)
  | 'u' :: rest => hexChar? 4 rest
  | 'U' :: rest => hexChar? 8 rest
  | _ => none

/-- The rest of a string on one line, after its opening quote. -/
def basicBody? : (fuel : Nat) → (acc : List Char) → List Char → Option (List Char × List Char)
  | 0, _, _ => none
  | _ + 1, _, [] => none
  | _ + 1, acc, '"' :: rest => some (acc.reverse, rest)
  | fuel + 1, acc, '\\' :: rest =>
    match escape? rest with
    | some (c, rest) => basicBody? fuel (c :: acc) rest
    | none => none
  | fuel + 1, acc, c :: rest => if isPlain c then basicBody? fuel (c :: acc) rest else none

/-- How a run of quotes in a string of several lines goes on: fewer than three are part of it, of
more the last three end it, and at most two stand before those. -/
def closing? (quote : Char) (cs : List Char) : Option (Nat × List Char) :=
  let count := (cs.takeWhile (· == quote)).length
  if count < 3 then none else some (min 2 (count - 3), cs.drop (3 + min 2 (count - 3)))

/-- The rest of a string of several lines, after its opening quotes. -/
def longBasicBody? : (fuel : Nat) → (acc : List Char) → List Char → Option (List Char × List Char)
  | 0, _, _ => none
  | _ + 1, _, [] => none
  | fuel + 1, acc, '"' :: rest =>
    match closing? '"' ('"' :: rest) with
    | some (inner, rest) => some (acc.reverse ++ List.replicate inner '"', rest)
    | none => longBasicBody? fuel ('"' :: acc) rest
  | fuel + 1, acc, '\\' :: rest =>
    match newline? (skipSpaces rest) with
    | some next => longBasicBody? fuel acc (skipLines (next.length + 1) next)
    | none =>
      match escape? rest with
      | some (c, rest) => longBasicBody? fuel (c :: acc) rest
      | none => none
  | fuel + 1, acc, c :: rest =>
    match newline? (c :: rest) with
    | some rest => longBasicBody? fuel ('\n' :: acc) rest
    | none => if isPlain c then longBasicBody? fuel (c :: acc) rest else none

/-- The rest of a string of several lines without escapes, after its opening quotes. -/
def longLiteralBody? : (fuel : Nat) → (acc : List Char) → List Char →
    Option (List Char × List Char)
  | 0, _, _ => none
  | _ + 1, _, [] => none
  | fuel + 1, acc, c :: rest =>
    if c = '\'' then
      match closing? c (c :: rest) with
      | some (inner, rest) => some (acc.reverse ++ List.replicate inner c, rest)
      | none => longLiteralBody? fuel (c :: acc) rest
    else
      match newline? (c :: rest) with
      | some rest => longLiteralBody? fuel ('\n' :: acc) rest
      | none => if isPlain c then longLiteralBody? fuel (c :: acc) rest else none

/-- A string without escapes on one line, after its opening quote. -/
def literalBody? (cs : List Char) : Option (List Char × List Char) :=
  let inside (c : Char) : Bool := isPlain c && c != '\''
  match cs.dropWhile inside with
  | '\'' :: rest => some (cs.takeWhile inside, rest)
  | _ => none

/-- A line end right after the opening quotes is no part of a string. -/
def afterOpening (cs : List Char) : List Char := (newline? cs).getD cs

/-- A string of any spelling. -/
def string? : List Char → Option (String × List Char)
  | '"' :: '"' :: '"' :: rest =>
    (longBasicBody? (rest.length + 1) [] (afterOpening rest)).map fun (s, r) => (String.ofList s, r)
  | '"' :: rest => (basicBody? (rest.length + 1) [] rest).map fun (s, r) => (String.ofList s, r)
  | '\'' :: '\'' :: '\'' :: rest =>
    (longLiteralBody? (rest.length + 1) [] (afterOpening rest)).map fun (s, r) =>
      (String.ofList s, r)
  | '\'' :: rest => (literalBody? rest).map fun (s, r) => (String.ofList s, r)
  | _ => none

/-! ## Keys -/

def isBareKey (c : Char) : Bool := isAsciiLetter c || isAsciiDigit c || c == '_' || c == '-'

/-- One part of a key. -/
def simpleKey? : List Char → Option (String × List Char)
  | '"' :: rest => (basicBody? (rest.length + 1) [] rest).map fun (s, r) => (String.ofList s, r)
  | '\'' :: rest => (literalBody? rest).map fun (s, r) => (String.ofList s, r)
  | cs =>
    let name := cs.takeWhile isBareKey
    if name.isEmpty then none else some (String.ofList name, cs.dropWhile isBareKey)

/-- A dotted key: the parts before the last one, and the last one. Blanks may stand around parts. -/
def dottedKey? : (fuel : Nat) → List Char → Option ((List String × String) × List Char)
  | 0, _ => none
  | fuel + 1, cs => do
    let (name, rest) ← simpleKey? (skipSpaces cs)
    match skipSpaces rest with
    | '.' :: rest =>
      let ((path, last), rest) ← dottedKey? fuel rest
      return ((name :: path, last), rest)
    | rest => return (([], name), rest)

/-- How many parts a key and how many levels a value has at most, and one more. -/
def nestingLimit : Nat := 80

/-- A dotted key of at most 79 parts. -/
def key? (cs : List Char) : Option ((List String × String) × List Char) :=
  dottedKey? (nestingLimit - 1) cs

/-! ## Numbers -/

/-- A run of digits, single underscores between them left out. -/
def digitRun? (isDigit : Char → Bool) : List Char → Option (List Char × List Char)
  | [] => none
  | c :: rest =>
    if !isDigit c then none
    else
      match rest with
      | '_' :: after => (digitRun? isDigit after).map fun (ds, r) => (c :: ds, r)
      | d :: after =>
        if isDigit d then (digitRun? isDigit (d :: after)).map fun (ds, r) => (c :: ds, r)
        else some ([c], d :: after)
      | [] => some ([c], [])

/-- The digits of a decimal integer: a run that does not start with zero, or a zero alone. -/
def decimalRun? (cs : List Char) : Option (List Char × List Char) :=
  match cs with
  | '0' :: rest => some (['0'], rest)
  | _ => digitRun? isAsciiDigit cs

/-- The sign of a number: whether it is negative. -/
def sign : List Char → Bool × List Char
  | '+' :: rest => (false, rest)
  | '-' :: rest => (true, rest)
  | cs => (false, cs)

/-- An integer in another base after its mark. -/
def based? (base : Nat) (cs : List Char) : Option (Int × List Char) := do
  let isDigit (c : Char) : Bool := (Json.hexValue? c).any (· < base)
  let (digits, rest) ← digitRun? isDigit cs
  let n := digits.foldl (fun n c => n * base + (Json.hexValue? c).getD 0) 0
  if n < 0x8000000000000000 then return (n, rest) else none

/-- A decimal integer that fits a signed 64-bit word. -/
def decimal? (cs : List Char) : Option (Int × List Char) := do
  let (negative, cs) := sign cs
  let (digits, rest) ← decimalRun? cs
  let n := Json.ofDigits digits
  if negative then
    if n ≤ 0x8000000000000000 then return (-(n : Int), rest) else none
  else if n < 0x8000000000000000 then return (n, rest) else none

def integer? : List Char → Option (Int × List Char)
  | '0' :: 'x' :: rest => based? 16 rest
  | '0' :: 'o' :: rest => based? 8 rest
  | '0' :: 'b' :: rest => based? 2 rest
  | cs => decimal? cs

/-- Whether `digits * 10 ^ exponent` is beyond every double. -/
def overflows (digits : Nat) (exponent : Int) : Bool :=
  let limit := Nat.pow 2 1024 - Nat.pow 2 970
  match exponent with
  | .ofNat e => digits != 0 && (400 < e || limit ≤ digits * Nat.pow 10 e)
  | .negSucc e => limit ≤ digits && limit * Nat.pow 10 (e + 1) ≤ digits

/-- The digits after a decimal point. -/
def fraction? : List Char → Option (List Char × List Char)
  | '.' :: rest => digitRun? isAsciiDigit rest
  | _ => none

/-- The power of ten of a number. -/
def exponent? : List Char → Option (Int × List Char)
  | c :: rest =>
    if c == 'e' || c == 'E' then
      let (negative, rest) := sign rest
      (digitRun? isAsciiDigit rest).map fun (ds, r) =>
        (if negative then -(Json.ofDigits ds : Int) else Json.ofDigits ds, r)
    else none
  | [] => none

/-- Read a floating-point number: with a fraction, an exponent or both. Only a negative one may be
beyond every double. -/
def float? (cs : List Char) : Option (List Char) := do
  let (negative, cs) := sign cs
  match cs with
  | 'i' :: 'n' :: 'f' :: rest => return rest
  | 'n' :: 'a' :: 'n' :: rest => return rest
  | _ =>
    let (whole, cs) ← decimalRun? cs
    let (places, power, rest) ← match fraction? cs with
      | some (places, after) =>
        match exponent? after with
        | some (power, rest) => some (places, power, rest)
        | none => some (places, 0, after)
      | none => (exponent? cs).map fun (power, rest) => ([], power, rest)
    if !negative && overflows (Json.ofDigits (whole ++ places)) (power - places.length) then none
    return rest

/-! ## Moments -/

/-- A number of exactly so many digits within bounds. -/
def bounded? (width low high : Nat) (cs : List Char) : Option (Nat × List Char) :=
  let digits := cs.take width
  let n := Json.ofDigits digits
  if digits.length = width ∧ digits.all isAsciiDigit ∧ low ≤ n ∧ n ≤ high then
    some (n, cs.drop width)
  else none

def char? (c : Char) : List Char → Option (List Char)
  | d :: rest => if c = d then some rest else none
  | [] => none

def daysIn (year month : Nat) : Nat :=
  if month = 2 then
    if year % 4 = 0 ∧ (year % 100 ≠ 0 ∨ year % 400 = 0) then 29 else 28
  else if month = 4 ∨ month = 6 ∨ month = 9 ∨ month = 11 then 30
  else 31

def date? (cs : List Char) : Option (List Char) := do
  let (year, cs) ← bounded? 4 0 9999 cs
  let (month, cs) ← bounded? 2 1 12 (← char? '-' cs)
  let (_, cs) ← bounded? 2 1 (daysIn year month) (← char? '-' cs)
  return cs

/-- The fraction of a second, if there is one. -/
def skipSecondFraction : List Char → List Char
  | '.' :: rest =>
    if (rest.head?).any isAsciiDigit then rest.dropWhile isAsciiDigit else '.' :: rest
  | cs => cs

def time? (cs : List Char) : Option (List Char) := do
  let (_, cs) ← bounded? 2 0 23 cs
  let (_, cs) ← bounded? 2 0 59 (← char? ':' cs)
  let (_, cs) ← bounded? 2 0 60 (← char? ':' cs)
  return skipSecondFraction cs

/-- The distance from universal time, if it is given. -/
def skipOffset : List Char → List Char
  | [] => []
  | c :: rest =>
    if c == 'Z' || c == 'z' then rest
    else if c == '+' || c == '-' then
      let distance? : Option (List Char) := do
        let (_, cs) ← bounded? 2 0 23 rest
        let (_, cs) ← bounded? 2 0 59 (← char? ':' cs)
        return cs
      distance?.getD (c :: rest)
    else c :: rest

/-- A date, a time of day or both. -/
def moment? (cs : List Char) : Option (List Char) :=
  match date? cs with
  | none => time? cs
  | some (c :: rest) =>
    if c == 'T' || c == 't' || c == ' ' then
      match time? rest with
      | some rest => some (skipOffset rest)
      | none => some (c :: rest)
    else some (c :: rest)
  | some [] => some []

end CodeGraph.Toml
