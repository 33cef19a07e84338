import CodeGraph.Java.Index
import CodeGraph.Java.Platform

/-!
# Resolving type names

A simple type name is looked up in the enclosing types and what they inherit, innermost first, then
among the imports, the package, the packages imported whole and `java.lang`. What a type inherits is
its *hierarchy*: the type and its supertypes, breadth first. The names in an `extends` clause are
resolved by the same rules, so the rules are stated over the answer to "what is the hierarchy of
this type?" (`ancestors`), given in any monad:

* `hierarchyWithin` answers that question by the rules themselves, as deep as it is told to nest,
  and has no answer when a question leads deeper than that;
* `ProjectIndex.hierarchy` nests once more than the project has types. A chain of that many
  questions asks one of them twice, so a missing answer means that the question leads back to
  itself; then the type stands alone.
-/

namespace CodeGraph.Java

namespace Naming

variable {m : Type → Type} [Monad m] (index : ProjectIndex) (ancestors : String → m (List String))

/-- The member type of a name, found in the hierarchy of its owner. -/
def memberType (owner simple : String) : m (Option String) := do
  let types ← ancestors owner
  return (types.map fun t => t ++ "." ++ simple).find? index.contains

/-- A simple name as an enclosing type or a member of one; enclosing types come innermost first. -/
def inEnclosing (simple : String) : List String → m (Option String)
  | [] => return none
  | outer :: rest =>
    if (index.get? outer).any (·.name == simple) then return some outer
    else do
      match ← memberType index ancestors outer simple with
      | some found => return some found
      | none => inEnclosing simple rest

/-- The last segment of a dotted name. -/
def lastSegment (name : String) : String := ((Text.split '.' name).getLast?).getD ""

/-- A simple name as an import, a type of the package, a type of a package imported whole or a type
of `java.lang`. -/
def inFile (simple : String) (file : FileScope) : Option String :=
  (file.imports.find? (lastSegment · == simple)).or <|
  (if index.contains (file.qualify simple) then some (file.qualify simple) else none).or <|
  (file.onDemand.findSome? fun package =>
    let candidate := package ++ "." ++ simple
    if index.contains candidate || Platform.holds package simple then some candidate
      else none).or <|
  if Platform.lang.contains simple then some ("java.lang." ++ simple) else none

/-- The qualified name of a simple name. -/
def resolveSimple (simple : String) (scope : TypeScope) : m (Option String) := do
  match ← inEnclosing index ancestors simple scope.enclosing.reverse with
  | some found => return some found
  | none => return inFile index simple scope.file

/-- Follow member names from a type; a name that is no member is taken as written. -/
def nestedPath (base : String) : List String → m String
  | [] => return base
  | segment :: rest => do
    let found ← memberType index ancestors base segment
    nestedPath (found.getD (base ++ "." ++ segment)) rest

/-- Try the project type with the longest name that `segments` starts with, of at most `count`
segments. -/
def resolveByLongest (segments : List String) : (count : Nat) → m (Option String)
  | 0 => return none
  | count + 1 =>
    let front := ".".intercalate (segments.take (count + 1))
    if index.contains front then
      return some (← nestedPath index ancestors front (segments.drop (count + 1)))
    else resolveByLongest segments count

/-- A dotted name that does not start with a visible type: a project type, a member path from one,
or a type outside the project if it starts like a package. -/
def resolveQualified (name : String) : m (Option String) := do
  if index.contains name then return some name
  let segments := Text.split '.' name
  match ← resolveByLongest index ancestors segments (segments.length - 1) with
  | some found => return some found
  | none =>
    if ((segments.head?.bind (·.toList.head?)).any Text.isLowercase) then return some name
    else return none

/-- The qualified name of a possibly dotted type name. -/
def resolveName (name : String) (scope : TypeScope) : m (Option String) :=
  match Text.split '.' name with
  | [] => return none
  | head :: rest => do
    match ← resolveSimple index ancestors head scope with
    | some base => return some (← nestedPath index ancestors base rest)
    | none => if rest.isEmpty then return none else resolveQualified index ancestors name

mutual

/-- The type that a written type stands for. -/
def resolveType (scope : TypeScope) : WrittenType → m (Except Unresolved ResolvedType)
  | .primitive p => return .ok (.primitive p)
  | .array element n => return (← resolveType scope element).map (ResolvedType.arrays n)
  | .named name args => do
    if args.isEmpty && scope.typeVars.contains name then return .ok (.typeVariable name)
    match ← resolveName index ancestors name scope with
    | none => return .error ⟨(WrittenType.named name args).written, .unknownType⟩
    | some qualified => return (← resolveTypes scope args).map (ResolvedType.reference qualified)
  | .wildcard => return .ok .wildcard
  | .bounded b type => return (← resolveType scope type).map (ResolvedType.bounded b)

/-- Several types; the first failure counts. -/
def resolveTypes (scope : TypeScope) : List WrittenType → m (Except Unresolved (List ResolvedType))
  | [] => return .ok []
  | t :: ts => do
    match ← resolveType scope t with
    | .error e => return .error e
    | .ok r => return (← resolveTypes scope ts).map (r :: ·)

end

/-- The class types among several header types. -/
def resolveHeader (scope : TypeScope) : List WrittenType → m (List String)
  | [] => return []
  | t :: ts => do
    let resolved ← resolveType index ancestors scope t
    let rest ← resolveHeader scope ts
    return match resolved with
      | .ok (.reference qualified _) => qualified :: rest
      | _ => rest

/-- The class types that a project type names as its direct supertypes. -/
def supertypes (qualified : String) : m (List String) :=
  match index.get? qualified with
  | none => return []
  | some decl =>
    resolveHeader index ancestors (index.headerScope qualified)
      (decl.superclass.toList ++ decl.interfaces)

/-! ## Hierarchies -/

/-- The names not seen yet, each once, and all that is seen after them. -/
def fresh (seen : List String) : List String → List String × List String
  | [] => ([], seen)
  | name :: rest =>
    if seen.contains name then fresh seen rest
    else
      let (new, seen) := fresh (name :: seen) rest
      (name :: new, seen)

/-- The supertypes of several types, one after another. -/
def parents : List String → m (List String)
  | [] => return []
  | t :: ts => do
    let first ← supertypes index ancestors t
    return first ++ (← parents ts)

/-- A level of a hierarchy and what is above it, at most `fuel` levels further. -/
def levels : (fuel : Nat) → (seen frontier : List String) → m (List String)
  | _, _, [] => return []
  | 0, _, frontier => return frontier
  | fuel + 1, seen, frontier => do
    let above ← parents index ancestors frontier
    let (new, seen) := fresh seen above
    return frontier ++ (← levels fuel seen new)

end Naming

namespace ProjectIndex

open Naming

/-- The hierarchy of a type, where answering may nest at most `depth` questions of that kind. -/
def hierarchyWithin (index : ProjectIndex) : (depth : Nat) → String → Option (List String)
  | 0, _ => none
  | depth + 1, owner =>
    levels index (index.hierarchyWithin depth) index.typeCount [owner] [owner]

/-- The hierarchy of a type, or nothing if asking for it leads back to the same question. -/
def hierarchy? (index : ProjectIndex) (owner : String) : Option (List String) :=
  index.hierarchyWithin (index.typeCount + 1) owner

/-- The type and its supertypes, breadth first. Only types of the project have supertypes. -/
def hierarchy (index : ProjectIndex) (owner : String) : List String :=
  (index.hierarchy? owner).getD [owner]

/-- Hierarchies as the answer to every question of the rules. -/
def ancestors (index : ProjectIndex) (owner : String) : Id (List String) := index.hierarchy owner

/-- The member type of a name, inherited ones included. -/
def memberType (index : ProjectIndex) (owner simple : String) : Option String :=
  Id.run (Naming.memberType index index.ancestors owner simple)

/-- The qualified name of a possibly dotted type name. -/
def resolveName (index : ProjectIndex) (name : String) (scope : TypeScope) : Option String :=
  Id.run (Naming.resolveName index index.ancestors name scope)

/-- The type that a written type stands for. -/
def resolveType (index : ProjectIndex) (type : WrittenType) (scope : TypeScope) :
    Except Unresolved ResolvedType :=
  Id.run (Naming.resolveType index index.ancestors scope type)

/-- The direct supertypes of a type that are class types. -/
def supertypes (index : ProjectIndex) (qualified : String) : List String :=
  Id.run (Naming.supertypes index index.ancestors qualified)

/-- The class that a type extends. -/
def superclass? (index : ProjectIndex) (qualified : String) : Option String := do
  let decl ← index.get? qualified
  let type ← decl.superclass
  match index.resolveType type (index.headerScope qualified) with
  | .ok resolved => resolved.qualified?
  | .error _ => none

end ProjectIndex

end CodeGraph.Java
