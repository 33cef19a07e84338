import CodeGraph.Java.Tree

/-!
# Types as written

A `WrittenType` is a Java type before any name in it is resolved. `ofTree?` reads it from the syntax
tree, `written` gives its text with single blanks after commas, whatever the source had.
-/

namespace CodeGraph.Java

/-- The two ways to bound a wildcard. -/
inductive Bound
  | extends | super
deriving DecidableEq, Inhabited

def Bound.keyword : Bound → String
  | .extends => "extends"
  | .super => "super"

/-- A type as it stands in the source. -/
inductive WrittenType
  | primitive (name : String)
  /-- A possibly dotted name with the type arguments of its last segment. -/
  | named (name : String) (args : List WrittenType)
  | array (element : WrittenType) (dimensions : Nat)
  | wildcard
  | bounded (bound : Bound) (type : WrittenType)
deriving Inhabited

/-- The number of opening brackets in a tree, if there is one. -/
def countDimensions (t : Option Tree) : Nat :=
  match t with
  | none => 0
  | some t => t.text.toList.count '['

namespace WrittenType

/-- A name without type arguments. -/
def simple (name : String) : WrittenType := named name []

/-- The type with more array levels. -/
def withDimensions (type : WrittenType) (dims : Nat) : WrittenType :=
  if dims = 0 then type
  else
    match type with
    | array element n => array element (n + dims)
    | other => array other dims

/-- Whether a local variable of this type takes the type of its initial value. -/
def isInferred : WrittenType → Bool
  | named name args => name == "var" && args.isEmpty
  | _ => false

mutual

/-- The text of the type. -/
def written : WrittenType → String
  | primitive p => p
  | named name [] => name
  | named name (a :: args) => name ++ "<" ++ ", ".intercalate (writtens (a :: args)) ++ ">"
  | array element n => element.written ++ String.join (List.replicate n "[]")
  | wildcard => "?"
  | bounded b type => "? " ++ b.keyword ++ " " ++ type.written

/-- The texts of several types. -/
def writtens : List WrittenType → List String
  | [] => []
  | t :: ts => t.written :: writtens ts

end

/-! ## From syntax trees -/

def isMarker (t : Tree) : Bool := t.kind == "annotation" || t.kind == "marker_annotation"

/-- The dotted name of a type, type arguments left out. -/
def scopedName (t : Tree) : String :=
  if t.kind = "scoped_type_identifier" ∨ t.kind = "generic_type" then
    ".".intercalate <| t.named.attach.filterMap fun ⟨c, _⟩ =>
      if c.kind = "type_identifier" ∨ c.kind = "scoped_type_identifier" ∨
        c.kind = "generic_type" then
        some (scopedName c)
      else none
  else t.text
termination_by t.size
decreasing_by grind

/-- The last child that is no annotation. -/
def lastPlain? (t : Tree) : Option Tree := t.named.reverse.find? (!isMarker ·)

@[grind →] theorem size_lt_of_lastPlain? {t c : Tree} (h : lastPlain? t = some c) :
    c.size < t.size :=
  Tree.size_lt_of_mem_named (List.mem_reverse.1 (List.mem_of_find?_eq_some h))

/-- The type that a tree stands for, if it stands for one. -/
def ofTree? (t : Tree) : Option WrittenType :=
  match t.kind with
  | "integral_type" | "floating_point_type" | "boolean_type" | "void_type" =>
    some (primitive t.text)
  | "type_identifier" | "scoped_type_identifier" => some (simple (scopedName t))
  | "generic_type" =>
    match t.named.find? fun c =>
      c.kind == "type_identifier" || c.kind == "scoped_type_identifier" with
    | none => none
    | some base =>
      match _h : t.childOfKind? "type_arguments" with
      | none => some (simple (scopedName base))
      | some list =>
        some (named (scopedName base) (list.named.attach.filterMap fun ⟨c, _⟩ => ofTree? c))
  | "array_type" =>
    match _h : t.child? "element" with
    | none => none
    | some e =>
      (ofTree? e).map (·.withDimensions (max 1 (countDimensions (t.child? "dimensions"))))
  | "annotated_type" =>
    match _h : lastPlain? t with
    | none => none
    | some c => ofTree? c
  | "wildcard" =>
    match _h : lastPlain? t with
    | none => some wildcard
    | some c =>
      match ofTree? c with
      | none => some wildcard
      | some type => some (bounded (if t.hasToken "super" then .super else .extends) type)
  | _ => none
termination_by t.size
decreasing_by all_goals grind

end WrittenType

end CodeGraph.Java
