/-!
# The schema of a code graph

A node is a code entity of one of seven labels, a relationship is of one of thirteen kinds, and each
label names the attribute that carries the natural key of its nodes. Names are injective, so
`Label.ofName?` and `Relation.ofName?` read back exactly what `name` writes.
-/

namespace CodeGraph

/-- What kind of code entity a node stands for. Constructors are methods too. -/
inductive Label
  | directory | file | package | importName | classType | field | method
deriving DecidableEq, Inhabited

namespace Label

/-- Every label, in the order of their tags. -/
def all : List Label := [directory, file, package, importName, classType, field, method]

def name : Label → String
  | directory => "Directory"
  | file => "File"
  | package => "Package"
  | importName => "Import"
  | classType => "Class"
  | field => "Field"
  | method => "Method"

/-- The attribute that holds the natural key of a node. -/
def keyAttribute : Label → String
  | directory | file => "path"
  | field => "qualified_name"
  | package | importName | classType | method => "name"

def ofName? (text : String) : Option Label := all.find? (·.name == text)

theorem mem_all (l : Label) : l ∈ all := by cases l <;> decide

theorem ofName?_name (l : Label) : ofName? l.name = some l := by cases l <;> decide

end Label

/-- How one code entity relates to another. -/
inductive Relation
  | hasDir | hasFile
  | hasClass | hasImport | inPackage
  | hasMethod | hasConstructor | hasField | hasType
  | extends | implements
  | callsMethod | usesClass
deriving DecidableEq, Inhabited

namespace Relation

/-- Every kind of relationship, in the order of their tags. -/
def all : List Relation :=
  [hasDir, hasFile, hasClass, hasImport, inPackage, hasMethod, hasConstructor, hasField, hasType,
    .extends, implements, callsMethod, usesClass]

def name : Relation → String
  | hasDir => "HAS_DIR"
  | hasFile => "HAS_FILE"
  | hasClass => "HAS_CLASS"
  | hasImport => "HAS_IMPORT"
  | inPackage => "IN_PACKAGE"
  | hasMethod => "HAS_METHOD"
  | hasConstructor => "HAS_CONSTRUCTOR"
  | hasField => "HAS_FIELD"
  | hasType => "HAS_TYPE"
  | .extends => "EXTENDS"
  | implements => "IMPLEMENTS"
  | callsMethod => "CALLS_METHOD"
  | usesClass => "USES_CLASS"

def ofName? (text : String) : Option Relation := all.find? (·.name == text)

theorem mem_all (r : Relation) : r ∈ all := by cases r <;> decide

theorem ofName?_name (r : Relation) : ofName? r.name = some r := by cases r <;> decide

end Relation

/-- The identity of a node: its label and the text of its key attribute. -/
structure NodeKey where
  label : Label
  key : String
deriving DecidableEq, Inhabited

namespace NodeKey

/-- Fields are keyed by their owner, so equal names in different classes stay apart. -/
def ofField (owner name : String) : NodeKey := ⟨.field, owner ++ "." ++ name⟩

/-- The key as messages show it. -/
def display (k : NodeKey) : String := k.label.name ++ "(" ++ k.key ++ ")"

end NodeKey

end CodeGraph
