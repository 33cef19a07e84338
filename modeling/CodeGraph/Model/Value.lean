import CodeGraph.Data.Dict
import CodeGraph.Numeric.Floating

/-!
# Attribute values

Nodes and relationships carry attributes: named values in name order. A value is null, a truth
value, a 64-bit integer, a floating-point number, a text or a vector of single-width numbers.
-/

namespace CodeGraph

/-- The value of one attribute. -/
inductive Value
  | null
  | bool (value : Bool)
  | int (value : Int64)
  | float (value : Double)
  | text (value : String)
  | vector (value : List Single)
deriving DecidableEq, Inhabited

namespace Value

def isNull : Value → Bool
  | null => true
  | _ => false

def asText? : Value → Option String
  | text s => some s
  | _ => none

def asInt? : Value → Option Int64
  | int i => some i
  | _ => none

def asVector? : Value → Option (List Single)
  | vector v => some v
  | _ => none

end Value

/-- The attributes of a node or relationship, in name order. -/
abbrev Attributes := Dict Value

end CodeGraph
