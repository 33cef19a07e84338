import CodeGraph.Text.Character

/-!
# Common indentation

`dedent` takes the smallest indentation of the lines after the first off each of them, and trailing
blanks off every line. Indentation is measured in bytes and blank lines do not count; a line that
cannot be cut there, because a character would be split, loses all of its indentation.
-/

namespace CodeGraph.Text

/-- The bytes of leading blanks. -/
def indentation (line : List Char) : Nat := utf8Length (line.takeWhile isBlank)

def isBlankLine (line : List Char) : Bool := line.all isBlank

/-- The rest of a line after a number of bytes, if a character starts or the line ends there. -/
def dropBytes? : Nat → List Char → Option (List Char)
  | 0, cs => some cs
  | _ + 1, [] => none
  | n + 1, c :: cs => if c.utf8Size ≤ n + 1 then dropBytes? (n + 1 - c.utf8Size) cs else none

/-- The smallest indentation among the lines that are not blank. -/
def commonIndentation (lines : List (List Char)) : Nat :=
  (((lines.filter (!isBlankLine ·)).map indentation).min?).getD 0

/-- Take an indentation off a line. -/
def cutIndentation (n : Nat) (line : List Char) : List Char :=
  (dropBytes? n line).getD (trimStart line)

/-- Join lines with line feeds. -/
def joinLines : List (List Char) → List Char
  | [] => []
  | [l] => l
  | l :: ls => l ++ '\n' :: joinLines ls

/-- Take the common indentation of all lines but the first and all trailing blanks off a text. -/
def dedentLines (text : List Char) : List Char :=
  match lines text with
  | [] => []
  | first :: rest =>
    let n := commonIndentation rest
    joinLines (trimEnd first :: rest.map fun l => trimEnd (cutIndentation n l))

/-- `dedentLines` on texts. -/
def dedent (s : String) : String := String.ofList (dedentLines s.toList)

end CodeGraph.Text
