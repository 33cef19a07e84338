import CodeGraph.Java.WrittenType

/-!
# Declarations

What one source file declares: its package and imports (`FileScope`) and its types with their fields
and methods (`TypeDecl`), read off the syntax tree by `collectFile`. A member type is listed before
the type that holds it.

A component of a record is a field and an accessor method, a constant of an enum is a field of the
enum's own type.
-/

namespace CodeGraph.Java

/-- What kind of declaration introduces a type. -/
inductive TypeKind
  | classKind | interfaceKind | enumKind | recordKind
deriving DecidableEq, Inhabited

namespace TypeKind

def name : TypeKind → String
  | classKind => "class"
  | interfaceKind => "interface"
  | enumKind => "enum"
  | recordKind => "record"

def ofTreeKind? : String → Option TypeKind
  | "class_declaration" => some classKind
  | "interface_declaration" => some interfaceKind
  | "enum_declaration" => some enumKind
  | "record_declaration" => some recordKind
  | _ => none

end TypeKind

structure FieldDecl where
  name : String
  type : WrittenType
deriving Inhabited

/-- A parameter. The type of one that takes any number of arguments is the type of each. -/
structure ParamDecl where
  name : String
  type : WrittenType
  varargs : Bool
deriving Inhabited

/-- The type of the parameter as a variable, as text. -/
def ParamDecl.written (p : ParamDecl) : String :=
  if p.varargs then p.type.written ++ "[]" else p.type.written

/-- A method, or a constructor, which has no return type. -/
structure MethodDecl where
  name : String
  params : List ParamDecl
  returnType : Option WrittenType
  typeParams : List String
  isConstructor : Bool
deriving Inhabited

/-- Whether the last parameter takes any number of arguments. -/
def MethodDecl.isVariadic (m : MethodDecl) : Bool := m.params.getLast?.any (·.varargs)

/-- Whether a call with `arity` arguments can bind to the declaration. -/
def MethodDecl.accepts (m : MethodDecl) (arity : Nat) : Bool :=
  if m.isVariadic then m.params.length ≤ arity + 1 else arity == m.params.length

structure TypeDecl where
  qualified : String
  name : String
  kind : TypeKind
  file : String
  outer : Option String
  /-- Simple names of the member types. -/
  nested : List String
  typeParams : List String
  superclass : Option WrittenType
  /-- The implemented interfaces, or the extended ones of an interface. -/
  interfaces : List WrittenType
  fields : List FieldDecl
  methods : List MethodDecl
deriving Inhabited

/-- Package and imports of one file. -/
structure FileScope where
  package : Option String := none
  /-- Types imported by name. -/
  imports : List String := []
  /-- Packages imported whole. -/
  onDemand : List String := []
deriving DecidableEq, Inhabited

/-- The qualified name of a top-level type of the file. -/
def FileScope.qualify (scope : FileScope) (simple : String) : String :=
  match scope.package with
  | some package => package ++ "." ++ simple
  | none => simple

/-! ## Parts of a declaration -/

/-- The dotted name in a package or import declaration, blanks left out. -/
def qualifiedName? (t : Tree) : Option String :=
  (t.named.find? fun c => c.kind == "identifier" || c.kind == "scoped_identifier").map
    fun c => Text.withoutBlanks c.text

/-- The names of declared type parameters. -/
def typeParameters (t : Tree) : List String :=
  match t.child? "type_parameters" with
  | none => []
  | some list => (list.named.filter (·.kind == "type_parameter")).filterMap fun p =>
      ((p.childOfKind? "type_identifier").or (p.childOfKind? "identifier")).map (·.text)

/-- The types listed in an `extends` or `implements` clause. -/
def clauseTypes (clause : Tree) : List Tree :=
  match clause.childOfKind? "type_list" with
  | some list => list.named
  | none => clause.named

/-- The clause that names the interfaces of a declaration. -/
def interfacesClause? (t : Tree) (kind : TypeKind) : Option Tree :=
  match kind with
  | .interfaceKind => t.childOfKind? "extends_interfaces"
  | _ => t.child? "interfaces"

/-- The type in the `extends` clause of a class. -/
def superclassTree? (t : Tree) : Option Tree :=
  (t.child? "superclass").bind fun clause => (clauseTypes clause).head?

/-- The trees of the types that a declaration names as interfaces. -/
def interfaceTrees (t : Tree) (kind : TypeKind) : List Tree :=
  ((interfacesClause? t kind).map clauseTypes).getD []

/-- The members of a type body; those after the constants of an enum stand one level deeper. -/
def bodyMembers (body : Tree) : List Tree :=
  body.named.flatMap fun c => if c.kind = "enum_body_declarations" then c.named else [c]

@[grind →] theorem size_lt_of_mem_bodyMembers {t c : Tree} (h : c ∈ bodyMembers t) :
    c.size < t.size := by
  obtain ⟨d, hd, hc⟩ := List.mem_flatMap.1 h
  have := Tree.size_lt_of_mem_named hd
  split at hc
  · have := Tree.size_lt_of_mem_named hc; omega
  · simp at hc; subst hc; exact this

/-- One field per declarator, array levels after the name included. -/
def fieldDecls (t : Tree) : List FieldDecl :=
  match (t.child? "type").bind WrittenType.ofTree? with
  | none => []
  | some type => (t.childrenOf "declarator").filterMap fun d => do
      let name ← d.child? "name"
      return ⟨name.text, type.withDimensions (countDimensions (d.child? "dimensions"))⟩

/-- The parameters among the children of a parameter list. -/
def parameterTrees (t : Tree) : List Tree :=
  match t.child? "parameters" with
  | none => []
  | some list =>
    list.named.filter fun p => p.kind == "formal_parameter" || p.kind == "spread_parameter"

def paramDecl? (t : Tree) : Option ParamDecl := do
  if t.kind = "spread_parameter" then
    let type ← t.named.findSome? WrittenType.ofTree?
    let declarator ← t.childOfKind? "variable_declarator"
    let name ← declarator.child? "name"
    return ⟨name.text, type, true⟩
  else
    let type ← WrittenType.ofTree? (← t.child? "type")
    let name ← t.child? "name"
    return ⟨name.text, type.withDimensions (countDimensions (t.child? "dimensions")), false⟩

/-- A method or constructor; nothing if a parameter cannot be read. -/
def methodDecl? (t : Tree) : Option MethodDecl := do
  let isConstructor ←
    if t.kind = "method_declaration" then some false
    else if t.kind = "constructor_declaration" then some true
    else none
  let name ← t.child? "name"
  let params ← (parameterTrees t).mapM paramDecl?
  return {
    name := name.text
    params
    returnType := if isConstructor then none else (t.child? "type").bind WrittenType.ofTree?
    typeParams := typeParameters t
    isConstructor }

/-- A component of a record as its accessor. -/
def accessor (p : ParamDecl) : MethodDecl := ⟨p.name, [], some p.type, [], false⟩

/-- The components of a record that can be read. -/
def recordComponents (t : Tree) (kind : TypeKind) : List ParamDecl :=
  if kind = .recordKind then (parameterTrees t).filterMap paramDecl? else []

/-- The fields that a member of a type body declares. -/
def memberFields (qualified : String) (member : Tree) : List FieldDecl :=
  match member.kind with
  | "enum_constant" =>
    match member.child? "name" with
    | some name => [⟨name.text, .simple qualified⟩]
    | none => []
  | "field_declaration" | "constant_declaration" => fieldDecls member
  | _ => []

/-- Whether a tree declares a type. -/
def declaresType (t : Tree) : Bool := (TypeKind.ofTreeKind? t.kind).isSome

/-- The name of a type inside a package or type, or at the top if that has no name. -/
def joinName (qualifier name : String) : String :=
  if qualifier.isEmpty then name else qualifier ++ "." ++ name

/-! ## Types and files -/

/-- The types that a declaration introduces, members first. -/
def collectType (file qualifier : String) (outer : Option String) (t : Tree) : List TypeDecl :=
  match TypeKind.ofTreeKind? t.kind, t.child? "name" with
  | some kind, some nameTree =>
    let name := nameTree.text
    let qualified := joinName qualifier name
    let components := recordComponents t kind
    let decl : TypeDecl := {
      qualified, name, kind, file, outer
      nested := []
      typeParams := typeParameters t
      superclass := (superclassTree? t).bind WrittenType.ofTree?
      interfaces := (interfaceTrees t kind).filterMap WrittenType.ofTree?
      fields := components.map fun p => ⟨p.name, p.type⟩
      methods := components.map accessor }
    match _h : t.child? "body" with
    | none => [decl]
    | some body =>
      let members := bodyMembers body
      let nested := members.filter declaresType
      let inner := members.attach.flatMap fun ⟨m, _⟩ =>
        if declaresType m then collectType file qualified (some qualified) m else []
      inner ++ [{ decl with
        nested := nested.filterMap fun m => (m.child? "name").map (·.text)
        fields := decl.fields ++ members.flatMap (memberFields qualified)
        methods := decl.methods ++ members.filterMap methodDecl? }]
  | _, _ => []
termination_by t.size
decreasing_by grind

/-- Take in one top-level child of a file. -/
def collectChild (file : String) (acc : FileScope × List TypeDecl) (c : Tree) :
    FileScope × List TypeDecl :=
  let (scope, decls) := acc
  match c.kind with
  | "package_declaration" => ({ scope with package := qualifiedName? c }, decls)
  | "import_declaration" =>
    if c.hasToken "static" then acc
    else
      match qualifiedName? c with
      | none => acc
      | some name =>
        if (c.childOfKind? "asterisk").isSome then
          ({ scope with onDemand := scope.onDemand ++ [name] }, decls)
        else ({ scope with imports := scope.imports ++ [name] }, decls)
  | _ => (scope, decls ++ collectType file (scope.package.getD "") none c)

/-- Package, imports and types of one file. -/
def collectFile (file : String) (root : Tree) : FileScope × List TypeDecl :=
  root.named.foldl (collectChild file) ({}, [])

end CodeGraph.Java
