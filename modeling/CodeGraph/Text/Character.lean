import CodeGraph.Text.LetterTables

/-!
# Character classes

Blank, alphanumeric, lower-case and upper-case characters and the lower-case form of a character,
for all of Unicode. Inside the first 128 characters each class is a range of letters or digits;
beyond them a table decides.
-/

namespace CodeGraph.Text

/-- White space: the characters that trimming removes and that separate words of a list. -/
def isBlank (c : Char) : Bool :=
  let n := c.toNat
  (9 ≤ n && n ≤ 13) || n == 32 || n == 0x85 || n == 0xa0 || n == 0x1680 ||
    (0x2000 ≤ n && n ≤ 0x200a) || n == 0x2028 || n == 0x2029 || n == 0x202f || n == 0x205f ||
    n == 0x3000

def isAsciiDigit (c : Char) : Bool := '0' ≤ c && c ≤ '9'

def isAsciiLower (c : Char) : Bool := 'a' ≤ c && c ≤ 'z'

def isAsciiUpper (c : Char) : Bool := 'A' ≤ c && c ≤ 'Z'

def isAsciiLetter (c : Char) : Bool := isAsciiLower c || isAsciiUpper c

def isAscii (c : Char) : Bool := c.toNat < 128

/-- Whether a run given by first, last and distance holds `n`. -/
def inRun (n : Nat) (first last distance : Nat) : Bool :=
  first ≤ n && n ≤ last && (n - first) % distance == 0

/-- Letters and numbers. -/
def isAlphanumeric (c : Char) : Bool :=
  if isAscii c then isAsciiLetter c || isAsciiDigit c
  else alphanumericRanges.any fun (lo, hi) => lo ≤ c.toNat && c.toNat ≤ hi

def isLowercase (c : Char) : Bool :=
  if isAscii c then isAsciiLower c
  else lowercaseRuns.any fun (first, last, distance) => inRun c.toNat first last distance

def isUppercase (c : Char) : Bool :=
  if isAscii c then isAsciiUpper c
  else uppercaseRuns.any fun (first, last, distance) => inRun c.toNat first last distance

/-- The lower-case form, which is one character but for the dotted capital I. -/
def lowercase (c : Char) : List Char :=
  if isAscii c then [if isAsciiUpper c then Char.ofNat (c.toNat + 32) else c]
  else if c.toNat == 0x130 then ['i', Char.ofNat 0x307]
  else
    match loweringRuns.find? fun (first, last, distance, _) =>
      inRun c.toNat first last distance with
    | some (_, _, _, shift) => [Char.ofNat (c.toNat + shift).toNat]
    | none => [c]

/-! ## Trimming -/

/-- The characters without blank ones at the start. -/
def trimStart (cs : List Char) : List Char := cs.dropWhile isBlank

/-- The characters without blank ones at the end. -/
def trimEnd (cs : List Char) : List Char := (cs.reverse.dropWhile isBlank).reverse

/-- The characters without blank ones at either end. -/
def trim (cs : List Char) : List Char := trimEnd (trimStart cs)

/-- `trim` on texts. -/
def trimmed (s : String) : String := String.ofList (trim s.toList)

/-- The text without its blank characters. -/
def withoutBlanks (s : String) : String := String.ofList (s.toList.filter fun c => !isBlank c)

/-! ## Pieces -/

/-- The pieces between occurrences of a separator; always at least one. -/
def splitAll (sep : Char) : List Char → List (List Char)
  | [] => [[]]
  | c :: cs =>
    if c = sep then [] :: splitAll sep cs
    else
      match splitAll sep cs with
      | [] => [[c]]
      | piece :: pieces => (c :: piece) :: pieces

/-- `splitAll` on texts. -/
def split (sep : Char) (s : String) : List String := (splitAll sep s.toList).map String.ofList

/-- The lines of a text: pieces ended by a line feed, a carriage return before it left out. A text
that ends in a line feed has no empty last line, and the last line keeps its carriage return. -/
def lines (cs : List Char) : List (List Char) :=
  let pieces := splitAll '\n' cs
  let ended := pieces.dropLast.map fun l => if l.getLast? = some '\r' then l.dropLast else l
  match pieces.getLast? with
  | some (c :: l) => ended ++ [c :: l]
  | _ => ended

/-- The number of bytes of a text in UTF-8. -/
def utf8Length : List Char → Nat
  | [] => 0
  | c :: cs => c.utf8Size + utf8Length cs

/-- Whether `part` occurs in `whole`. -/
def occursIn (part : List Char) : List Char → Bool
  | [] => part.isEmpty
  | c :: cs => part.isPrefixOf (c :: cs) || occursIn part cs

end CodeGraph.Text
