import CodeGraph.Data.Dict
import CodeGraph.Files.Path

/-!
# File trees

A `FileTree` is a file with its bytes or a directory with what it contains, in name order. A place
in it is the list of the names on the way there. Putting something at a place creates the
directories on the way; it fails if a file is in the way, and a `FileError` says how.

`resolve` follows a written path through a tree, where dots mean the same and the outer directory.
-/

namespace CodeGraph

inductive FileTree
  | file (bytes : List UInt8)
  | directory (children : List (String × FileTree))
deriving Inhabited

/-- Why nothing can be read or put at a path. -/
inductive FileError
  | missing
  | occupied
  | notDirectory
  | isDirectory
deriving DecidableEq, Inhabited

/-- The words of the operating system. -/
def FileError.message : FileError → String
  | missing => "No such file or directory (os error 2)"
  | occupied => "File exists (os error 17)"
  | notDirectory => "Not a directory (os error 20)"
  | isDirectory => "Is a directory (os error 21)"

namespace FileTree

def isDirectory : FileTree → Bool
  | directory _ => true
  | file _ => false

def bytes? : FileTree → Option (List UInt8)
  | file bytes => some bytes
  | directory _ => none

def children : FileTree → List (String × FileTree)
  | directory cs => cs
  | file _ => []

/-- The child of a name. -/
def child? (t : FileTree) (name : String) : Option FileTree :=
  (t.children.find? (·.1 == name)).map (·.2)

/-- The tree without files. -/
def empty : FileTree := directory []

/-! ## Places -/

/-- What is at a place. -/
def find? (t : FileTree) : List String → Option FileTree
  | [] => some t
  | name :: rest =>
    match t.child? name with
    | some c => c.find? rest
    | none => none

/-- The bytes of the file at a place. -/
def read? (t : FileTree) (place : List String) : Option (List UInt8) := (t.find? place).bind bytes?

/-- Put something in place of a tree. A directory stays if another is put there. -/
def replace : (old new : FileTree) → Except FileError FileTree
  | file _, file bytes => .ok (file bytes)
  | directory cs, directory _ => .ok (directory cs)
  | file _, directory _ => .error .occupied
  | directory _, file _ => .error .isDirectory

/-- Put something at a place. -/
def put (t new : FileTree) : List String → Except FileError FileTree
  | [] => replace t new
  | name :: rest =>
    match t with
    | file _ => .error .notDirectory
    | directory cs =>
      let inside :=
        match (directory cs).child? name with
        | some c => c.put new rest
        | none => if rest.isEmpty then .ok new else empty.put new rest
      inside.map fun c => directory (Dict.insertEntry name c cs)

/-- Write a file. -/
def write (t : FileTree) (place : List String) (bytes : List UInt8) :
    Except FileError FileTree := do
  let t ← t.put empty place.dropLast
  t.put (file bytes) place

/-- Remove what is at a place. -/
def remove (t : FileTree) : List String → FileTree
  | [] => t
  | [name] =>
    match t with
    | file bytes => file bytes
    | directory cs => directory (cs.filter (·.1 != name))
  | name :: rest =>
    match t, t.child? name with
    | directory cs, some c => directory (Dict.insertEntry name (c.remove rest) cs)
    | t, _ => t

/-! ## Paths -/

/-- Follow the pieces of a path from a place whose names are given from the innermost on. Every
place on the way must exist, and a piece behind a place needs a directory there. -/
def follow (t : FileTree) (here : List String) : List String → Except FileError (List String)
  | [] => .ok here.reverse
  | piece :: rest =>
    if !((t.find? here.reverse).any isDirectory) then .error .notDirectory
    else if piece = "" ∨ piece = "." then t.follow here rest
    else if piece = ".." then t.follow here.tail rest
    else if (t.find? (here.reverse ++ [piece])).isSome then t.follow (piece :: here) rest
    else .error .missing

/-- The place of a path that exists; a relative path starts at `here`. -/
def resolve (t : FileTree) (here : List String) (path : String) : Except FileError (List String) :=
  if path.isEmpty then .error .missing
  else t.follow (if Path.isAbsolute path then [] else here.reverse) (Path.pieces path)

end FileTree

end CodeGraph
