import CodeGraph.Java.Context
import CodeGraph.Java.Overload

/-!
# Types of expressions

`typeOf` gives the static type of an expression in a context, `resolveInvocation` the method that a
call binds to. The receiver of a call is a value, or a type when its text is no value but names one.

The recursion is over syntax trees: each function asks about smaller trees, or passes the same tree
on to a function that does.
-/

namespace CodeGraph.Java

/-- What stands before the dot of a field access or call. -/
inductive Receiver
  | value (type : ResolvedType)
  | typeName (qualified : String)
deriving Inhabited

/-- The method a call binds to, with the type of its receiver if that is a value. -/
structure Binding where
  member : Member
  receiver : Option ResolvedType
deriving Inhabited

namespace ProjectIndex

variable (index : ProjectIndex) (ctx : Context)

/-- The type of the first enclosing class's field of a name, innermost class first. -/
def fieldTypeIn (name : String) : List String → Except Unresolved ResolvedType
  | [] => .error ⟨name, .notVariable⟩
  | type :: rest =>
    match index.findField? type name with
    | some (decl, field) => index.fieldType decl field
    | none => fieldTypeIn name rest

/-- The type of a local variable, a parameter or a visible field. -/
def variableType (name : String) : Except Unresolved ResolvedType :=
  match ctx.local? name with
  | some l =>
    match l.type with
    | some type => .ok type
    | none => .error ⟨name, .notInferred⟩
  | none => index.fieldTypeIn name ctx.classes.reverse

/-- The expression as a symbol without a type. -/
def noType {α : Type} (t : Tree) : Except Unresolved α := .error ⟨t.text, .unknownExpression⟩

/-- The type that a tree writes. -/
def writtenTypeOf (expr : Tree) : Option Tree → Except Unresolved ResolvedType
  | none => noType expr
  | some t =>
    match WrittenType.ofTree? t with
    | none => noType expr
    | some type => index.resolveType type ctx.scope

/-- The numeric type to which an operand is promoted, with its rank. -/
def promoted? : ResolvedType → Option (Nat × String)
  | .primitive p => (numericRank? p).map (·, p)
  | .reference q _ => (unboxed? q).bind fun p => (numericRank? p).map (·, p)
  | _ => none

/-- The operators whose result is a truth value. -/
def comparisons : List String := ["==", "!=", "<", ">", "<=", ">=", "&&", "||"]

/-- The type of a binary operation that is no comparison. -/
def arithmeticType (expr : Tree) (operator : String) (left right : ResolvedType) :
    Except Unresolved ResolvedType :=
  if operator = "+" ∧ (left = .string ∨ right = .string) then .ok .string
  else
    match promoted? left, promoted? right with
    | some a, some b =>
      let (rank, name) := if b.1 ≤ a.1 then a else b
      .ok (.primitive (if rank < 3 then "int" else name))
    | _, _ => if left = .boolean then .ok left else noType expr

/-- Whether the text of a literal ends in one of two letters. -/
def endsIn (t : Tree) (small capital : Char) : Bool :=
  match t.text.toList.getLast? with
  | some c => c == small || c == capital
  | none => false

/-- The type of an expression that has no parts. -/
def literalType? (t : Tree) : Option ResolvedType :=
  match t.kind with
  | "string_literal" | "text_block" => some .string
  | "decimal_integer_literal" | "hex_integer_literal" | "octal_integer_literal"
  | "binary_integer_literal" => some (.primitive (if endsIn t 'l' 'L' then "long" else "int"))
  | "decimal_floating_point_literal" | "hex_floating_point_literal" =>
    some (.primitive (if endsIn t 'f' 'F' then "float" else "double"))
  | "true" | "false" | "instanceof_expression" => some .boolean
  | "character_literal" => some (.primitive "char")
  | "null_literal" => some .nullType
  | "class_literal" => some (.ofClass "java.lang.Class")
  | _ => none

/-- The types on which a call is looked up, with the receiver if it is a value. -/
def ownersOf (call : Tree) : Option Receiver → Except Unresolved (List String × Option ResolvedType)
  | none => .ok (ctx.classes.reverse, none)
  | some (.value (.reference qualified args)) =>
    .ok ([qualified], some (.reference qualified args))
  | some (.value type) => .error ⟨call.text, .noMethodsOn type.describe⟩
  | some (.typeName qualified) => .ok ([qualified], none)

/-- The candidates on the first of several types that has any. -/
def firstCandidates (name : String) (arity : Nat) (owners : List String) : Option (List Member) :=
  owners.findSome? fun owner =>
    let cs := index.candidates owner name arity
    if cs.isEmpty then none else some cs

/-- The method among the candidates; argument types matter only if there are several. -/
def choose (call : Tree) (candidates : List Member) (args : List (Option ResolvedType)) :
    Except Unresolved Member :=
  match candidates with
  | [only] => .ok only
  | several => (index.select several args).mapError fun cause => ⟨call.text, cause⟩

/-- Why a call on these types binds to nothing. -/
def noCandidates (owners : List String) : Cause :=
  if owners.any index.contains then .noApplicableMethod else .outsideProject owners

mutual

/-- The static type of an expression. -/
def typeOf (t : Tree) : Except Unresolved ResolvedType :=
  match literalType? t with
  | some type => .ok type
  | none =>
    match t.kind with
    | "identifier" => index.variableType ctx t.text
    | "this" =>
      match ctx.currentClass? with
      | some qualified => .ok (.ofClass qualified)
      | none => noType t
    | "parenthesized_expression" | "update_expression" =>
      match _h : t.first? with
      | none => noType t
      | some inner => typeOf inner
    | "cast_expression" | "object_creation_expression" =>
      index.writtenTypeOf ctx t (t.child? "type")
    | "array_creation_expression" =>
      let dims := (t.named.filter (·.kind == "dimensions_expr")).length +
        countDimensions (t.childOfKind? "dimensions")
      (index.writtenTypeOf ctx t (t.child? "type")).map (ResolvedType.arrays dims)
    | "array_access" =>
      match _h : t.child? "array" with
      | none => noType t
      | some array =>
        match typeOf array with
        | .ok (.array element) => .ok element
        | .ok _ => noType t
        | .error e => .error e
    | "field_access" => fieldAccessType t
    | "method_invocation" =>
      match resolveInvocation t with
      | .ok binding => index.returnType binding.member binding.receiver
      | .error e => .error e
    | "assignment_expression" =>
      match _h : t.child? "left" with
      | none => noType t
      | some left => typeOf left
    | "ternary_expression" =>
      match _h : t.child? "consequence" with
      | none => noType t
      | some branch => typeOf branch
    | "unary_expression" =>
      match t.child? "operator" with
      | none => noType t
      | some operator =>
        if operator.text = "!" then .ok .boolean
        else
          match _h : t.child? "operand" with
          | none => noType t
          | some operand => typeOf operand
    | "binary_expression" =>
      match t.child? "operator" with
      | none => noType t
      | some operator =>
        if comparisons.contains operator.text then .ok .boolean
        else
          match _h : t.child? "left" with
          | none => noType t
          | some leftTree =>
            match typeOf leftTree with
            | .error e => .error e
            | .ok left =>
              match _k : t.child? "right" with
              | none => noType t
              | some rightTree =>
                match typeOf rightTree with
                | .error e => .error e
                | .ok right => arithmeticType t operator.text left right
    | _ => noType t
termination_by 3 * t.size + 1
decreasing_by all_goals grind

/-- The type of a field access. -/
def fieldAccessType (t : Tree) : Except Unresolved ResolvedType :=
  match _h : t.child? "object", t.child? "field" with
  | some object, some field =>
    let ofOwner (owner : String) : Except Unresolved ResolvedType :=
      match index.findField? owner field.text with
      | some (decl, f) => index.fieldType decl f
      | none => .error ⟨t.text, .unknownField⟩
    match receiver object with
    | .error e => .error e
    | .ok (.typeName owner) => ofOwner owner
    | .ok (.value type) =>
      match type with
      | .reference owner _ => ofOwner owner
      | .array _ => if field.text = "length" then .ok .int else .error ⟨t.text, .unknownField⟩
      | _ => .error ⟨t.text, .unknownField⟩
  | _, _ => .error ⟨t.text, .unknownField⟩
termination_by 3 * t.size
decreasing_by all_goals grind

/-- What a tree before a dot stands for. -/
def receiver (object : Tree) : Except Unresolved Receiver :=
  match object.kind with
  | "identifier" | "field_access" | "scoped_identifier" =>
    match typeOf object with
    | .ok type => .ok (.value type)
    | .error e =>
      match index.resolveName (Text.withoutBlanks object.text) ctx.scope with
      | some qualified => .ok (.typeName qualified)
      | none => .error e
  | "super" =>
    match ctx.currentClass?.bind index.superclass? with
    | some parent => .ok (.value (.ofClass parent))
    | none => .error ⟨"super", .unknownSuperclass⟩
  | _ => (typeOf object).map .value
termination_by 3 * object.size + 2
decreasing_by all_goals grind

/-- The method a call binds to. -/
def resolveInvocation (call : Tree) : Except Unresolved Binding :=
  match call.child? "name" with
  | none => .error ⟨call.text, .namelessCall⟩
  | some name =>
    let before : Except Unresolved (Option Receiver) :=
      match _h : call.child? "object" with
      | none => .ok none
      | some object => (receiver object).map some
    match before.bind (ownersOf ctx call) with
    | .error e => .error e
    | .ok (owners, receiverType) =>
      let args : List Tree := (call.child? "arguments").elim [] Tree.named
      match index.firstCandidates name.text args.length owners with
      | none => .error ⟨call.text, index.noCandidates owners⟩
      | some candidates =>
        let types :=
          if candidates.length = 1 then []
          else
            match _h : call.child? "arguments" with
            | none => []
            | some list => list.named.attach.map fun ⟨arg, _⟩ => (typeOf arg).toOption
        (index.choose call candidates types).map fun member => ⟨member, receiverType⟩
termination_by 3 * call.size
decreasing_by all_goals grind

end

/-- The qualified signature of the method a call binds to. -/
def resolveCall (call : Tree) : Except Unresolved String := do
  let binding ← index.resolveInvocation ctx call
  index.signature binding.member.owner.qualified binding.member.method

end ProjectIndex

end CodeGraph.Java
