import CodeGraph.Files.Glob
import CodeGraph.Text.Character
import CodeGraph.Text.Lines

/-!
# Ignore rules

A directory may hold files whose lines say which paths below it are to be ignored, or kept although
an earlier line ignores them. `IgnoreFile.verdict?` is what the last line that speaks of a path
says. Of the directories around a path the innermost that says something decides, for each kind of
file on its own (`verdict?`).
-/

namespace CodeGraph

/-- What is to be done with a path. -/
inductive Verdict
  | ignored
  | kept
deriving DecidableEq, Inhabited

/-- One line that says something. -/
structure IgnoreLine where
  glob : Glob
  verdict : Verdict
  /-- Whether it speaks of directories alone. -/
  directoriesOnly : Bool

/-- The lines of a file that say something. -/
abbrev IgnoreFile := List IgnoreLine

namespace IgnoreLine

open Text

/-- The line without blanks at its end, unless a backslash keeps the last one. -/
def trimmedLine (line : List Char) : List Char :=
  match line.reverse with
  | ' ' :: '\\' :: _ => line
  | _ => trimEnd line

/-- The line without the slash that confines it to directories, and whether it had one. -/
def splitDirectory (line : List Char) : List Char × Bool :=
  match line.reverse with
  | '/' :: '\\' :: rest => (rest.reverse, true)
  | '/' :: rest => (rest.reverse, true)
  | _ => (line, false)

/-- The glob of a line over paths relative to its directory: without a slash it matches at any
depth, and two stars at the end match only what lies inside. -/
def globText (line : List Char) (anchored : Bool) : List Char :=
  let start := if anchored || line.contains '/' || line == ['*', '*'] then [] else ['*', '*', '/']
  let pattern := start ++ line
  if ['*', '*', '/'].isPrefixOf pattern.reverse then pattern ++ ['/', '*'] else pattern

/-- The line of a pattern whose mark and first slash are taken off. -/
def ofPattern? (verdict : Verdict) (anchored : Bool) (line : List Char) : Option IgnoreLine :=
  let (line, directoriesOnly) := splitDirectory line
  match Glob.ofText ⟨true, true⟩ (String.ofList (globText line anchored)) with
  | .ok glob => some ⟨glob, verdict, directoriesOnly⟩
  | .error _ => none

/-- Take off the slash that ties a pattern to its directory. -/
def ofAnchored? (verdict : Verdict) : List Char → Option IgnoreLine
  | '/' :: rest => ofPattern? verdict true rest
  | line => ofPattern? verdict false line

/-- What a line says: nothing if it is blank, a comment or malformed. -/
def ofText? (line : List Char) : Option IgnoreLine :=
  if line.head? = some '#' then none
  else
    match trimmedLine line with
    | [] => none
    | '\\' :: '!' :: rest => ofPattern? .ignored false ('!' :: rest)
    | '\\' :: '#' :: rest => ofPattern? .ignored false ('#' :: rest)
    | '!' :: rest => ofAnchored? .kept rest
    | line => ofAnchored? .ignored line

/-- Whether a line speaks of a path relative to its directory. -/
def speaksOf (l : IgnoreLine) (path : String) (isDirectory : Bool) : Bool :=
  (isDirectory || !l.directoriesOnly) && l.glob.accepts path

end IgnoreLine

namespace IgnoreFile

/-- The first line of a file without byte order marks. -/
def withoutMarks : List (List Char) → List (List Char)
  | [] => []
  | line :: rest => line.dropWhile (·.toNat == 0xfeff) :: rest

/-- The lines of a file. -/
def ofBytes (bytes : List UInt8) : IgnoreFile :=
  (withoutMarks ((Text.decodedLines bytes).map Text.withoutLineEnd)).filterMap IgnoreLine.ofText?

/-- What a file says of a path relative to its directory. -/
def verdict? (f : IgnoreFile) (path : String) (isDirectory : Bool) : Option Verdict :=
  ((f.filter (·.speaksOf path isDirectory)).getLast?).map (·.verdict)

end IgnoreFile

/-- The rules of one directory; those that come first weigh more. -/
structure IgnoreRules where
  own : IgnoreFile := []
  versioned : IgnoreFile := []
  unversioned : IgnoreFile := []

namespace IgnoreRules

/-- What one kind of file says of a path, the innermost directory first. A path is given by its
names from the innermost on, and the rules likewise. -/
def verdictOf? (kind : IgnoreRules → IgnoreFile) (names : List String) (isDirectory : Bool)
    (rules : List IgnoreRules) : Option Verdict :=
  rules.zipIdx.findSome? fun (r, depth) =>
    (kind r).verdict? ("/".intercalate (names.take (depth + 1)).reverse) isDirectory

/-- What the rules of the directories around a path say of it. -/
def verdict? (rules : List IgnoreRules) (names : List String) (isDirectory : Bool) :
    Option Verdict :=
  (verdictOf? own names isDirectory rules).or <|
    (verdictOf? versioned names isDirectory rules).or
      (verdictOf? unversioned names isDirectory rules)

/-- Whether a name is hidden. -/
def isHidden (name : String) : Bool := name.toList.head? == some '.'

/-- Whether a path is to be passed over: it is ignored, or it is hidden and nothing keeps it. -/
def passOver (rules : List IgnoreRules) (names : List String) (isDirectory : Bool) : Bool :=
  match verdict? rules names isDirectory with
  | some .ignored => true
  | some .kept => false
  | none => (names.head?).any isHidden

end IgnoreRules

end CodeGraph
