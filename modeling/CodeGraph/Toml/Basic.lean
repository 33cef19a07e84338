/-!
# TOML values

A `Toml` value as a document gives it. Tables remember how they came about, because that decides
what may still be added to them. Floating-point numbers and moments are recognised, but no setting
holds one, so which number or moment it is does not matter.
-/

namespace CodeGraph

/-- How a table came about. -/
inductive TableKind
  /-- Written between braces. -/
  | inline
  /-- Named by a header, or the document itself. -/
  | written
  /-- Passed through by a header. -/
  | implied
  /-- Passed through by a dotted key. -/
  | dotted
deriving DecidableEq, Inhabited

inductive Toml
  | text (value : String)
  | int (value : Int)
  | float
  | bool (value : Bool)
  | moment
  | list (items : List Toml)
  | table (kind : TableKind) (entries : List (String × Toml))
  /-- Tables that headers in double brackets add one by one. -/
  | tables (items : List (List (String × Toml)))
deriving Inhabited

namespace Toml

/-- The entries of a table. -/
abbrev Entries := List (String × Toml)

def lookUp? (entries : Entries) (key : String) : Option Toml :=
  (entries.find? (·.1 == key)).map (·.2)

/-- Put a value in the place of the one under a key. -/
def replace (key : String) (value : Toml) (entries : Entries) : Entries :=
  entries.map fun e => if e.1 == key then (key, value) else e

/-! ## Reading -/

def toText? : Toml → Option String
  | text s => some s
  | _ => none

def toNat? : Toml → Option Nat
  | int (.ofNat n) => some n
  | _ => none

/-- A list of texts. -/
def toTexts? : Toml → Option (List String)
  | list items => items.mapM toText?
  | _ => none

/-- The fields of a record in the order of their names: entries of a table, unknown ones passed
over, or the items of a list. A moment is a record that has none of them. -/
def fields? (names : List String) : Toml → Option (List (Option Toml))
  | table _ entries => some (names.map (lookUp? entries))
  | moment => some (names.map fun _ => none)
  | list items => some ((List.range names.length).map (items[·]?))
  | tables items => some ((List.range names.length).map fun i => (items[i]?).map (table .written))
  | _ => none

/-- Whether a value is a list or table without contents. -/
def isEmptyCollection : Toml → Bool
  | list items => items.isEmpty
  | table _ entries => entries.isEmpty
  | tables items => items.isEmpty
  | _ => false

/-- A name out of a fixed choice: a text, or a table that binds the name alone and to nothing. -/
def toChoice? {α : Type} (ofName? : String → Option α) : Toml → Option α
  | text s => ofName? s
  | table _ [(name, value)] => if value.isEmptyCollection then ofName? name else none
  | _ => none

end Toml

end CodeGraph
