import CodeGraph.Text.Character

/-!
# Paths

Paths are texts whose components are separated by slashes. Empty components and a dot count only at
the very start, so `a//b` and `a/./b` have the components of `a/b`.
-/

namespace CodeGraph.Path

/-- Whether a path starts at the root of the file system. -/
def isAbsolute (path : String) : Bool := path.toList.head? == some '/'

/-- The start of a path that is no component to be taken off: the root, or a leading dot. -/
def anchor : List Char → List Char
  | '/' :: _ => ['/']
  | ['.'] => ['.']
  | '.' :: '/' :: _ => ['.']
  | _ => []

/-- A reversed path without the empty and dot components it starts with. -/
def trimReversed : (fuel : Nat) → List Char → List Char
  | 0, cs => cs
  | fuel + 1, cs =>
    let piece := cs.takeWhile (· != '/')
    if cs.isEmpty then []
    else if piece.isEmpty || piece == ['.'] then
      trimReversed fuel ((cs.dropWhile (· != '/')).drop 1)
    else cs

/-- The components after the anchor, reversed and trimmed. -/
def reversedBody (path : List Char) : List Char :=
  trimReversed (path.length + 1) (path.drop (anchor path).length).reverse

/-- The path without its last component; nothing for the root and the empty path. -/
def parent? (path : String) : Option String :=
  let cs := path.toList
  match reversedBody cs with
  | [] => if anchor cs == ['.'] then some "" else none
  | body =>
    let rest := (body.dropWhile (· != '/')).drop 1
    some (String.ofList (anchor cs ++ (trimReversed (rest.length + 1) rest).reverse))

/-- The last component, if it is a name. -/
def fileName? (path : String) : Option String :=
  match (reversedBody path.toList).takeWhile (· != '/') with
  | [] => none
  | piece => if piece == ['.', '.'] then none else some (String.ofList piece.reverse)

/-- What follows the last dot of the file name; nothing if the name starts with its only dot. -/
def extension? (path : String) : Option String := do
  let name ← fileName? path
  let reversed := name.toList.reverse
  let ending := reversed.takeWhile (· != '.')
  let stem := (reversed.dropWhile (· != '.')).drop 1
  if stem.isEmpty then none else some (String.ofList ending.reverse)

/-- Whether a path names a Java source. -/
def isJavaSource (path : String) : Bool := extension? path == some "java"

/-- A path relative to another one; an absolute path stands alone. -/
def join (base relative : String) : String :=
  if isAbsolute relative || base.isEmpty then relative
  else if base.toList.getLast? == some '/' then base ++ relative
  else base ++ "/" ++ relative

/-- The pieces of a path between slashes. -/
def pieces (path : String) : List String := (Text.splitAll '/' path.toList).map String.ofList

/-- The names of a path: its pieces that are neither empty nor a dot. -/
def names (path : String) : List String := (pieces path).filter fun p => p != "" && p != "."

/-- The one spelling of all paths with the same components. -/
def normal (path : String) : String :=
  let body := "/".intercalate (names path)
  match anchor path.toList with
  | '/' :: _ => "/" ++ body
  | '.' :: _ => if body.isEmpty then "." else "./" ++ body
  | _ => body

/-- The place of an absolute path: its names, each pair of dots taking off the name before it. -/
def place (path : String) : List String :=
  (names path).foldl (fun here name => if name = ".." then here.dropLast else here ++ [name]) []

/-- The absolute path of names. -/
def ofNames (names : List String) : String := "/" ++ "/".intercalate names

/-- Whether an absolute path lies at or below another one. -/
def isWithin (path root : String) : Bool := (names root).isPrefixOf (names path)

end CodeGraph.Path
