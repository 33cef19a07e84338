import CodeGraph.Java.WrittenType

/-!
# Resolved types

A `ResolvedType` is a Java type whose class names are qualified. `describe` gives the text that
signatures and messages use. `Unresolved` says which symbol could not be resolved and why.
-/

namespace CodeGraph.Java

/-- A type without unresolved names. -/
inductive ResolvedType
  | primitive (name : String)
  | reference (qualified : String) (args : List ResolvedType)
  | array (element : ResolvedType)
  | typeVariable (name : String)
  | wildcard
  | bounded (bound : Bound) (type : ResolvedType)
  /-- The type of the `null` literal. -/
  | nullType
deriving Inhabited

namespace ResolvedType

/-- A class type without type arguments. -/
def ofClass (qualified : String) : ResolvedType := reference qualified []

def object : String := "java.lang.Object"

def string : ResolvedType := ofClass "java.lang.String"

def boolean : ResolvedType := primitive "boolean"

def int : ResolvedType := primitive "int"

/-- The qualified name of a class type, type arguments left out. -/
def qualified? : ResolvedType → Option String
  | reference q _ => some q
  | _ => none

mutual

/-- The text of a type. -/
def describe : ResolvedType → String
  | primitive p => p
  | reference q [] => q
  | reference q (a :: args) => q ++ "<" ++ ", ".intercalate (describes (a :: args)) ++ ">"
  | array e => e.describe ++ "[]"
  | typeVariable v => v
  | wildcard => "?"
  | bounded b t => "? " ++ b.keyword ++ " " ++ t.describe
  | nullType => "null"

/-- The texts of several types. -/
def describes : List ResolvedType → List String
  | [] => []
  | t :: ts => t.describe :: describes ts

end

mutual

/-- Whether two types are the same. -/
def same : ResolvedType → ResolvedType → Bool
  | primitive p, primitive q => p == q
  | reference q as, reference r bs => q == r && sames as bs
  | array e, array f => same e f
  | typeVariable v, typeVariable w => v == w
  | wildcard, wildcard => true
  | bounded b t, bounded c u => b == c && same t u
  | nullType, nullType => true
  | _, _ => false

/-- Whether two lists of types are the same. -/
def sames : List ResolvedType → List ResolvedType → Bool
  | [], [] => true
  | a :: as, b :: bs => same a b && sames as bs
  | _, _ => false

end

mutual

theorem same_iff (a b : ResolvedType) : same a b = true ↔ a = b := by
  cases a <;> cases b <;> simp only [same, Bool.and_eq_true, beq_iff_eq, reduceCtorEq, iff_self,
    Bool.false_eq_true, primitive.injEq, reference.injEq, array.injEq, typeVariable.injEq,
    bounded.injEq]
  case reference.reference q as r bs => rw [sames_iff as bs]
  case array.array e f => exact same_iff e f
  case bounded.bounded b t c u => rw [same_iff t u]

theorem sames_iff (as bs : List ResolvedType) : sames as bs = true ↔ as = bs := by
  cases as <;> cases bs <;> simp only [sames, Bool.and_eq_true, reduceCtorEq, iff_self,
    Bool.false_eq_true, List.cons.injEq]
  case cons.cons a as b bs => rw [same_iff a b, sames_iff as bs]

end

instance : DecidableEq ResolvedType := fun a b => decidable_of_iff _ (same_iff a b)

mutual

/-- Replace type variables: the one at a position in `vars` by the argument at that position. -/
def substitute (vars : List String) (args : List ResolvedType) : ResolvedType → ResolvedType
  | typeVariable v =>
    match vars.findIdx? (· == v) with
    | some i => args[i]?.getD (typeVariable v)
    | none => typeVariable v
  | reference q inner => reference q (substitutes vars args inner)
  | array e => array (e.substitute vars args)
  | other => other

/-- Replace type variables in several types. -/
def substitutes (vars : List String) (args : List ResolvedType) :
    List ResolvedType → List ResolvedType
  | [] => []
  | t :: ts => t.substitute vars args :: substitutes vars args ts

end

/-- The type of the items that a loop over a value of this type sees. -/
def elementType? : ResolvedType → Option ResolvedType
  | array e => some e
  | reference _ [bounded .extends t] => some t
  | reference _ [bounded .super _] => none
  | reference _ [wildcard] => none
  | reference _ [t] => some t
  | _ => none

/-- The type with a number of array levels around it. -/
def arrays : (levels : Nat) → ResolvedType → ResolvedType
  | 0, t => t
  | levels + 1, t => array (arrays levels t)

end ResolvedType

/-- Why a symbol has no meaning. -/
inductive Cause
  | unknownType
  | notInferred
  | notVariable
  | unknownExpression
  | unknownField
  | unknownSuperclass
  | namelessCall
  | noMethodsOn (type : String)
  | noApplicableMethod
  | outsideProject (types : List String)
  | noOverload
  | ambiguousOverload
  | noReturnType
  | notType
  | malformedDeclaration
deriving DecidableEq, Inhabited

def Cause.message : Cause → String
  | unknownType => "unknown type"
  | notInferred => "variable type could not be inferred"
  | notVariable => "not a variable in scope"
  | unknownExpression => "expression type unknown"
  | unknownField => "field type unknown"
  | unknownSuperclass => "superclass unknown"
  | namelessCall => "call without a name"
  | noMethodsOn type => s!"receiver of type {type} has no declared methods"
  | noApplicableMethod => "no applicable method in the project"
  | outsideProject types => "receiver type " ++ ", ".intercalate types ++ " is outside the project"
  | noOverload => "no overload accepts the argument types"
  | ambiguousOverload => "ambiguous overload"
  | noReturnType => "no return type"
  | notType => "not a type"
  | malformedDeclaration => "malformed declaration"

/-- A symbol that could not be resolved. -/
structure Unresolved where
  symbol : String
  cause : Cause
deriving DecidableEq, Inhabited

def Unresolved.message (u : Unresolved) : String :=
  s!"cannot resolve `{u.symbol}`: {u.cause.message}"

end CodeGraph.Java
