import CodeGraph.Java.Naming

/-!
# Members

Fields and methods of project types, inherited ones included: the first type of the hierarchy that
declares a field counts, and of methods with the same written parameter types the most derived one.
A method is identified by its `signature`, which is made of resolved parameter types.
-/

namespace CodeGraph.Java

/-- A method together with the type that declares it. -/
structure Member where
  owner : TypeDecl
  method : MethodDecl
deriving Inhabited

namespace ProjectIndex

variable (index : ProjectIndex)

/-- The type of something declared in the body of a type, under further type variables. -/
def resolveInMember (declaring : String) (type : WrittenType) (typeParams : List String) :
    Except Unresolved ResolvedType :=
  index.resolveType type ((index.memberScope declaring).withTypeVars typeParams)

/-- A parameter as a signature shows it. -/
def describeParam (declaring : String) (typeParams : List String) (p : ParamDecl) :
    Except Unresolved String := do
  let resolved ← index.resolveInMember declaring p.type typeParams
  return if p.varargs then resolved.describe ++ "..." else resolved.describe

/-- The qualified signature of a method or constructor. -/
def signature (declaring : String) (method : MethodDecl) : Except Unresolved String := do
  let params ← method.params.mapM (index.describeParam declaring method.typeParams)
  return declaring ++ "." ++ method.name ++ "(" ++ ", ".intercalate params ++ ")"

/-- The field of a name, with the type that declares it. -/
def findField? (owner name : String) : Option (TypeDecl × FieldDecl) :=
  (index.hierarchy owner).findSome? fun type => do
    let decl ← index.get? type
    let field ← decl.fields.find? (·.name == name)
    return (decl, field)

/-- The type of a declared field. -/
def fieldType (decl : TypeDecl) (field : FieldDecl) : Except Unresolved ResolvedType :=
  index.resolveType field.type (index.memberScope decl.qualified)

/-- The methods of a type that a call by name with `arity` arguments may mean. -/
def callable (name : String) (arity : Nat) (type : String) : List Member :=
  match index.get? type with
  | none => []
  | some decl =>
    (decl.methods.filter fun m => !m.isConstructor && m.name == name && m.accepts arity).map
      (⟨decl, ·⟩)

/-- Leave out a method whose written parameter types were seen before. -/
def dropOverridden (seen : List (List String)) : List Member → List Member
  | [] => []
  | c :: rest =>
    let key := c.method.params.map ParamDecl.written
    if seen.contains key then dropOverridden seen rest
    else c :: dropOverridden (key :: seen) rest

/-- What a call by name on a type may mean, most derived first. -/
def candidates (owner name : String) (arity : Nat) : List Member :=
  dropOverridden [] ((index.hierarchy owner).flatMap (index.callable name arity))

/-- The type of a call, the receiver's type arguments put for the type parameters of its class. -/
def returnType (member : Member) (receiver : Option ResolvedType) :
    Except Unresolved ResolvedType :=
  match member.method.returnType with
  | none => .error ⟨member.method.name, .noReturnType⟩
  | some written => do
    let type ← index.resolveInMember member.owner.qualified written member.method.typeParams
    return match receiver with
      | some (.reference qualified args) =>
        if qualified = member.owner.qualified ∧ args.length = member.owner.typeParams.length ∧
            !args.isEmpty then type.substitute member.owner.typeParams args
        else type
      | _ => type

end ProjectIndex

end CodeGraph.Java
