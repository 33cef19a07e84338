import CodeGraph.Files.FileTree
import CodeGraph.Files.IgnoreRules

/-!
# Walks

A walk lists what lies below a directory, itself included, in pre-order and by name: what is hidden,
ignored or excluded is passed over with all below it. The rules of the directories above count as
well. `walk` keeps the directories and the Java sources.
-/

namespace CodeGraph

/-- What a walk has found, in its order, as absolute paths. -/
structure SourceWalk where
  directories : List String
  files : List String
deriving DecidableEq, Inhabited

/-- Patterns of paths that are left out. -/
abbrev Exclusion := List Glob

namespace Exclusion

/-- Read patterns; the first that is malformed counts. -/
def ofTexts (patterns : List String) : Except GlobError Exclusion :=
  patterns.mapM (Glob.ofText {})

/-- Whether a path relative to the root of the walk is left out. -/
def excludes (e : Exclusion) (path : String) : Bool := e.any (·.accepts path)

end Exclusion

namespace FileTree

/-- The rules that a directory holds. -/
def rules (t : FileTree) : IgnoreRules :=
  let file (place : List String) : IgnoreFile := ((t.read? place).map IgnoreFile.ofBytes).getD []
  ⟨file [".ignore"], file [".gitignore"], file [".git", "info", "exclude"]⟩

/-- The rules of the directories on the way to a place, the innermost first. -/
def rulesAbove (t : FileTree) : List String → List IgnoreRules
  | [] => []
  | name :: rest => ((t.child? name).getD empty).rulesAbove rest ++ [t.rules]

/-- Something that a walk has come to. -/
structure Visit where
  place : List String
  isDirectory : Bool

/-- Where a walk stands. -/
structure WalkState where
  exclusion : Exclusion
  /-- How many names the root of the walk has. -/
  depth : Nat
  /-- The rules of the directories around, the innermost first. -/
  rules : List IgnoreRules
  /-- The names on the way, the innermost first. -/
  names : List String

/-- Whether a child is passed over. -/
def WalkState.skips (w : WalkState) (name : String) (isDirectory : Bool) : Bool :=
  let names := name :: w.names
  IgnoreRules.passOver w.rules names isDirectory ||
    w.exclusion.excludes ("/".intercalate (names.take (names.length - w.depth)).reverse)

mutual

/-- All that a walk comes to from here on. -/
def visits (w : WalkState) : FileTree → List Visit
  | file _ => [⟨w.names.reverse, false⟩]
  | directory cs =>
    ⟨w.names.reverse, true⟩ ::
      visitsBelow { w with rules := (directory cs).rules :: w.rules } cs

def visitsBelow (w : WalkState) : List (String × FileTree) → List Visit
  | [] => []
  | (name, t) :: rest =>
    (if w.skips name t.isDirectory then [] else visits { w with names := name :: w.names } t) ++
      visitsBelow w rest

end

/-- The directories and sources from a place on. -/
def walk (t : FileTree) (root : List String) (exclusion : Exclusion) : SourceWalk :=
  let found :=
    ((t.find? root).map (visits ⟨exclusion, root.length, t.rulesAbove root, root.reverse⟩)).getD []
  { directories := (found.filter (·.isDirectory)).map fun v => Path.ofNames v.place
    files :=
      ((found.filter (!·.isDirectory)).map fun v => Path.ofNames v.place).filter Path.isJavaSource }

end FileTree

end CodeGraph
