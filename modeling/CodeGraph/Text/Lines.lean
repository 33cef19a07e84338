/-!
# Lines of bytes

A file of bytes is cut behind each newline; its lines are read as far as they are UTF-8.
-/

namespace CodeGraph.Text

/-- The lines of a file with their ends. -/
def rawLines : List UInt8 → List (List UInt8)
  | [] => []
  | b :: bs =>
    if b = 10 then [b] :: rawLines bs
    else
      match rawLines bs with
      | [] => [[b]]
      | line :: lines => (b :: line) :: lines

/-- The text that bytes encode in UTF-8. -/
def decode? (bytes : List UInt8) : Option String := String.fromUTF8? ⟨bytes.toArray⟩

/-- The bytes of a text in UTF-8. -/
def encode (s : String) : List UInt8 := s.toUTF8.toList

/-- The lines of a file with their ends, up to the first that is no UTF-8. -/
def decodedLines (bytes : List UInt8) : List (List Char) :=
  (((rawLines bytes).map decode?).takeWhile (·.isSome)).filterMap (·.map String.toList)

/-- The line without its end. -/
def withoutLineEnd (line : List Char) : List Char :=
  match line.reverse with
  | '\n' :: '\r' :: rest => rest.reverse
  | '\n' :: rest => rest.reverse
  | _ => line

end CodeGraph.Text
