import CodeGraph.Java.Member

/-!
# Choosing an overload

Each argument is graded by how well its type fits the parameter's (`fit`): 3 for the same type, 2
for a widening, 1 for a conversion or a supertype, 0 where a supertype outside the project may
decide. A type that is not known fits anything with grade 1. The candidate with the greatest
total wins, provided that no other has it; doubled totals leave room for one point in favour of a
fixed number of parameters.
-/

namespace CodeGraph.Java

/-- The primitive type in a box. -/
def unboxed? : String → Option String
  | "java.lang.Boolean" => some "boolean"
  | "java.lang.Byte" => some "byte"
  | "java.lang.Character" => some "char"
  | "java.lang.Short" => some "short"
  | "java.lang.Integer" => some "int"
  | "java.lang.Long" => some "long"
  | "java.lang.Float" => some "float"
  | "java.lang.Double" => some "double"
  | _ => none

/-- The box of a primitive type. -/
def boxed? : String → Option String
  | "boolean" => some "java.lang.Boolean"
  | "byte" => some "java.lang.Byte"
  | "char" => some "java.lang.Character"
  | "short" => some "java.lang.Short"
  | "int" => some "java.lang.Integer"
  | "long" => some "java.lang.Long"
  | "float" => some "java.lang.Float"
  | "double" => some "java.lang.Double"
  | _ => none

/-- The place of a numeric type in the order of widening. -/
def numericRank? : String → Option Nat
  | "byte" => some 1
  | "short" => some 2
  | "char" => some 2
  | "int" => some 3
  | "long" => some 4
  | "float" => some 5
  | "double" => some 6
  | _ => none

/-- Whether a primitive type converts to another without a cast. -/
def widens (source target : String) : Bool :=
  source == target ||
    match numericRank? source, numericRank? target with
    | some a, some b => a < b && target != "char" && !(source == "char" && target == "short")
    | _, _ => false

namespace ProjectIndex

/-- How well a class type fits another one. -/
def fitClass (index : ProjectIndex) (arg param : String) : Option Nat :=
  if arg = param then some 2
  else if param = ResolvedType.object then some 1
  else if index.contains arg then
    let types := index.hierarchy arg
    if types.contains param then some 1
    else if types.any (!index.contains ·) then some 0
    else none
  else some 0

/-- How well an argument type fits a parameter type; nothing if it does not. -/
def fit (index : ProjectIndex) : (arg param : ResolvedType) → Option Nat
  | arg, param =>
    if arg = param then some 3
    else
      match arg, param with
      | _, .typeVariable _ => some 1
      | .nullType, .primitive _ => none
      | .nullType, _ => some 1
      | .primitive a, .primitive b => if widens a b then some 2 else none
      | .primitive a, .reference q _ =>
        if boxed? a = some q ∨ q = ResolvedType.object then some 1 else none
      | .reference q _, .primitive b => if (unboxed? q).any (widens · b) then some 1 else none
      | .reference a _, .reference b _ => index.fitClass a b
      | .array a, .array b => index.fit a b
      | .array _, .reference q _ => if q = ResolvedType.object then some 1 else none
      | _, _ => none
termination_by arg _ => sizeOf arg

/-- How well an argument fits a parameter where either type may be unknown. -/
def compatibility (index : ProjectIndex) (arg param : Option ResolvedType) : Option Nat :=
  match arg, param with
  | some arg, some param => index.fit arg param
  | _, _ => some 1

def isArray : Option ResolvedType → Bool
  | some (.array _) => true
  | _ => false

/-- How many parameters take exactly one argument. -/
def fixedCount (m : MethodDecl) : Nat :=
  if m.isVariadic then m.params.length - 1 else m.params.length

/-- The grade of the argument at a position. An array may stand for all arguments of a variadic
parameter. -/
def argumentGrade (index : ProjectIndex) (c : Member) (position : Nat) (arg : Option ResolvedType) :
    Option Nat := do
  let param ← c.method.params[min position (c.method.params.length - 1)]?
  let type := (index.resolveInMember c.owner.qualified param.type c.method.typeParams).toOption
  if fixedCount c.method ≤ position && isArray arg then
    index.compatibility arg (type.map .array)
  else index.compatibility arg type

/-- The grades of the arguments from a position on, added up. -/
def totalGrade (index : ProjectIndex) (c : Member) :
    (position : Nat) → List (Option ResolvedType) → Option Nat
  | _, [] => some 0
  | position, arg :: rest => do
    let grade ← index.argumentGrade c position arg
    let others ← index.totalGrade c (position + 1) rest
    return grade + others

/-- The score of an applicable candidate; nothing if it is not applicable. -/
def score? (index : ProjectIndex) (args : List (Option ResolvedType)) (c : Member) :
    Option Nat := do
  let total ← index.totalGrade c 0 args
  return total * 2 + if fixedCount c.method = c.method.params.length then 1 else 0

/-- The one candidate with the greatest score. -/
def select (index : ProjectIndex) (candidates : List Member) (args : List (Option ResolvedType)) :
    Except Cause Member :=
  let scored := candidates.filterMap fun c => (index.score? args c).map (·, c)
  let best := (scored.map (·.1)).max?
  match scored.filter fun s => some s.1 == best with
  | [] => .error .noOverload
  | [(_, c)] => .ok c
  | _ => .error .ambiguousOverload

end ProjectIndex

end CodeGraph.Java
