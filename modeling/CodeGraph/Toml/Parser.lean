import CodeGraph.Toml.Basic
import CodeGraph.Toml.Lexeme

/-!
# Reading TOML documents

A document is a list of `Statement`s: pairs and headers. `Toml.parse?` reads them and puts each pair
into the table that the last header names. No value is given twice and no table is written twice; a
dotted key adds only to tables that dotted keys have made.
-/

namespace CodeGraph.Toml

/-! ## Adding to tables -/

/-- Change the table at the end of a path, making the tables on the way. A dotted key stays out of
tables that were written. -/
def descend (dotted : Bool) (change : TableKind → Entries → Option Entries) :
    List String → TableKind → Entries → Option Entries
  | [], kind, entries => change kind entries
  | key :: path, _, entries =>
    match lookUp? entries key with
    | none => do
      let kind := if dotted then TableKind.dotted else TableKind.implied
      return entries ++ [(key, .table kind (← descend dotted change path kind []))]
    | some (.table kind inner) =>
      if kind = .inline ∨ (dotted ∧ kind = .written) then none
      else do return replace key (.table kind (← descend dotted change path kind inner)) entries
    | some (.tables items) =>
      match items.getLast? with
      | none => none
      | some last => do
        let last ← descend dotted change path .written last
        return replace key (.tables (items.dropLast ++ [last])) entries
    | some _ => none

/-- Add a pair under a dotted key. -/
def addPair (path : List String) (key : String) (value : Toml) (kind : TableKind)
    (entries : Entries) : Option Entries :=
  let add (found : TableKind) (entries : Entries) : Option Entries :=
    if (!path.isEmpty && found != .dotted) || (lookUp? entries key).isSome then none
    else some (entries ++ [(key, value)])
  descend true add path kind entries

/-- Start the table that a header names. -/
def startTable (key : String) (entries : Entries) : Option Entries :=
  match lookUp? entries key with
  | none => some (entries ++ [(key, .table .written [])])
  | some (.table .implied inner) => some (replace key (.table .written inner) entries)
  | some _ => none

/-- Start a further table of those that a header in double brackets names. -/
def startItem (key : String) (entries : Entries) : Option Entries :=
  match lookUp? entries key with
  | none => some (entries ++ [(key, .tables [[]])])
  | some (.tables items) => some (replace key (.tables (items ++ [[]])) entries)
  | some _ => none

/-! ## Values -/

mutual

/-- One value; `depth` is how many levels of lists and tables it may have. -/
def value? : (fuel depth : Nat) → List Char → Option (Toml × List Char)
  | 0, _, _ => none
  | fuel + 1, depth, cs =>
    match cs with
    | [] => none
    | '[' :: rest =>
      if depth = 0 then none
      else (items? fuel (depth - 1) [] rest).map fun (items, rest) => (.list items, rest)
    | '\x7b' :: rest =>
      if depth = 0 then none
      else
        match skipSpaces rest with
        | '\x7d' :: rest => some (.table .inline [], rest)
        | rest => (pairs? fuel (depth - 1) [] rest).map fun (es, rest) => (.table .inline es, rest)
    | 't' :: 'r' :: 'u' :: 'e' :: rest => some (.bool true, rest)
    | 'f' :: 'a' :: 'l' :: 's' :: 'e' :: rest => some (.bool false, rest)
    | c :: rest =>
      if c == '"' || c == '\'' then (string? (c :: rest)).map fun (s, rest) => (.text s, rest)
      else
        match moment? (c :: rest) with
        | some rest => some (.moment, rest)
        | none =>
          match float? (c :: rest) with
          | some rest => some (.float, rest)
          | none => (integer? (c :: rest)).map fun (i, rest) => (.int i, rest)

/-- The items of a list up to its closing bracket. -/
def items? : (fuel depth : Nat) → List Toml → List Char → Option (List Toml × List Char)
  | 0, _, _, _ => none
  | fuel + 1, depth, acc, cs =>
    match skipTrivia (cs.length + 1) cs with
    | ']' :: rest => some (acc.reverse, rest)
    | cs =>
      match value? fuel depth cs with
      | none => none
      | some (v, rest) =>
        match skipTrivia (rest.length + 1) rest with
        | ',' :: rest => items? fuel depth (v :: acc) rest
        | ']' :: rest => some ((v :: acc).reverse, rest)
        | _ => none

/-- The pairs of an inline table up to its closing brace. -/
def pairs? : (fuel depth : Nat) → Entries → List Char → Option (Entries × List Char)
  | 0, _, _, _ => none
  | fuel + 1, depth, acc, cs =>
    match key? cs with
    | some ((path, key), '=' :: rest) =>
      match value? fuel depth (skipSpaces rest) with
      | none => none
      | some (v, rest) =>
        match addPair path key v .inline acc, skipSpaces rest with
        | some acc, ',' :: rest => pairs? fuel depth acc rest
        | some acc, '\x7d' :: rest => some (acc, rest)
        | _, _ => none
    | _ => none

end

/-! ## Documents -/

/-- One line of a document that says something. -/
inductive Statement
  | pair (path : List String) (key : String) (value : Toml)
  | header (path : List String) (key : String)
  | itemHeader (path : List String) (key : String)
deriving Inhabited

/-- The statement at the front of the input. -/
def statement? : List Char → Option (Statement × List Char)
  | '[' :: '[' :: rest => do
    match (← key? rest) with
    | ((path, key), ']' :: ']' :: rest) => return (.itemHeader path key, rest)
    | _ => none
  | '[' :: rest => do
    match (← key? rest) with
    | ((path, key), ']' :: rest) => return (.header path key, rest)
    | _ => none
  | cs => do
    match (← key? cs) with
    | ((path, key), '=' :: rest) =>
      let (v, rest) ← value? (rest.length + 1) (nestingLimit - 1) (skipSpaces rest)
      return (.pair path key v, rest)
    | _ => none

/-- The statements of a document. -/
def statements? : (fuel : Nat) → List Char → Option (List Statement)
  | 0, _ => none
  | fuel + 1, cs =>
    match skipTrivia (cs.length + 1) cs with
    | [] => some []
    | '#' :: rest => if (rest.dropWhile isPlain).isEmpty then some [] else none
    | cs => do
      let (s, rest) ← statement? cs
      return s :: (← statements? fuel (← lineEnd? rest))

/-- A document in the making: its entries and where pairs go. -/
structure Draft where
  entries : Entries := []
  current : List String := []

/-- Take in a statement. -/
def Draft.add (d : Draft) : Statement → Option Draft
  | .pair path key value => do
    let entries ← descend false (addPair path key value) d.current .written d.entries
    return { d with entries }
  | .header path key => do
    return ⟨← descend false (fun _ => startTable key) path .written d.entries, path ++ [key]⟩
  | .itemHeader path key => do
    return ⟨← descend false (fun _ => startItem key) path .written d.entries, path ++ [key]⟩

/-- Read one whole document. -/
def parse? (s : String) : Option Toml := do
  let cs := match s.toList with
    | '\ufeff' :: rest => rest
    | cs => cs
  let statements ← statements? (cs.length + 1) cs
  let d ← statements.foldlM Draft.add {}
  return .table .written d.entries

end CodeGraph.Toml
