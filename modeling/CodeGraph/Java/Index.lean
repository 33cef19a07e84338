import CodeGraph.Data.Dict
import CodeGraph.Files.Path
import CodeGraph.Java.Declaration
import CodeGraph.Java.ResolvedType

/-!
# The project index

A `ProjectIndex` holds every type that the files of a project declare, by qualified name, and the
scope of every file. Of two declarations of one name the first counts, of two files at one path the
later; spellings of a path that have the same components are one path.

Files may be collected side by side. Which declaration of a name comes first, if several files have
one, is then a matter of chance: `BuiltFrom` holds of all indexes that may come of it, and `build`
is the one that comes of collecting file after file.
-/

namespace CodeGraph.Java

/-- A parsed source file. -/
structure SourceFile where
  path : String
  root : Tree
deriving Inhabited

/-- The types and file scopes of a project, the latter by normal paths. -/
structure ProjectIndex where
  types : Dict TypeDecl
  files : Dict FileScope

/-- Where a type name is looked up: the file, the enclosing types with the outermost first, and the
type variables. -/
structure TypeScope where
  file : FileScope
  enclosing : List String
  typeVars : List String
deriving Inhabited

/-- One thing that collecting a file does to the index: add a declaration, or the
scope of the file. -/
inductive Collecting
  | type (decl : TypeDecl)
  | scope (path : String) (scope : FileScope)

/-- What collecting a file does, one thing after another. -/
def SourceFile.collecting (file : SourceFile) : List Collecting :=
  let (scope, decls) := collectFile file.path file.root
  decls.map .type ++ [.scope file.path scope]

/-- The steps of several lists in one row, those of each list in their order. -/
inductive Interleaving {α : Type} : List (List α) → List α → Prop
  | done {lists : List (List α)} (h : ∀ l ∈ lists, l = []) : Interleaving lists []
  | step {before after : List (List α)} {a : α} {l steps : List α}
      (h : Interleaving (before ++ l :: after) steps) :
      Interleaving (before ++ (a :: l) :: after) (a :: steps)

namespace ProjectIndex

def empty : ProjectIndex := ⟨Dict.empty, Dict.empty⟩

/-- Add a declaration unless its name is taken. -/
def addType (types : Dict TypeDecl) (decl : TypeDecl) : Dict TypeDecl :=
  if (types.get? decl.qualified).isSome then types else types.insert decl.qualified decl

/-- Do one thing of collecting a file. -/
def collect (index : ProjectIndex) : Collecting → ProjectIndex
  | .type decl => { index with types := addType index.types decl }
  | .scope path scope => { index with files := index.files.insert (Path.normal path) scope }

/-- The files may lead to this index when they are collected side by side. -/
def BuiltFrom (files : List SourceFile) (index : ProjectIndex) : Prop :=
  ∃ steps, Interleaving (files.map SourceFile.collecting) steps ∧ index = steps.foldl collect empty

/-- Add the declarations of a file. -/
def addFile (index : ProjectIndex) (file : SourceFile) : ProjectIndex :=
  let (scope, decls) := collectFile file.path file.root
  ⟨decls.foldl addType index.types, index.files.insert (Path.normal file.path) scope⟩

/-- The index of a list of files, collected one after another. -/
def build (files : List SourceFile) : ProjectIndex := files.foldl addFile empty

def get? (index : ProjectIndex) (qualified : String) : Option TypeDecl := index.types.get? qualified

def contains (index : ProjectIndex) (qualified : String) : Bool := (index.get? qualified).isSome

def fileScope? (index : ProjectIndex) (path : String) : Option FileScope :=
  index.files.get? (Path.normal path)

def typeCount (index : ProjectIndex) : Nat := index.types.size

/-- A type and the types around it, innermost first. -/
def outward (index : ProjectIndex) : (fuel : Nat) → String → List TypeDecl
  | 0, _ => []
  | fuel + 1, qualified =>
    match index.get? qualified with
    | none => []
    | some decl =>
      decl :: match decl.outer with
        | none => []
        | some outer => index.outward fuel outer

/-- A type and the types around it, outermost first. -/
def chain (index : ProjectIndex) (qualified : String) : List TypeDecl :=
  (index.outward (index.typeCount + 1) qualified).reverse

/-- The scope that a chain of declarations opens, the innermost `hidden` types not counted as
enclosing. -/
def scopeOf (index : ProjectIndex) (chain : List TypeDecl) (hidden : Nat) : TypeScope where
  file := (chain.head?.bind fun decl => index.fileScope? decl.file).getD {}
  enclosing := (chain.take (chain.length - hidden)).map (·.qualified)
  typeVars := chain.flatMap (·.typeParams)

/-- The scope inside the body of a type. -/
def memberScope (index : ProjectIndex) (qualified : String) : TypeScope :=
  index.scopeOf (index.chain qualified) 0

/-- The scope of the `extends` and `implements` clauses of a type, where its members are not visible
but its type parameters are. -/
def headerScope (index : ProjectIndex) (qualified : String) : TypeScope :=
  index.scopeOf (index.chain qualified) 1

end ProjectIndex

/-- The scope with further type variables. -/
def TypeScope.withTypeVars (scope : TypeScope) (vars : List String) : TypeScope :=
  { scope with typeVars := scope.typeVars ++ vars }

end CodeGraph.Java
