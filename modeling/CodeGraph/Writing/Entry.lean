import CodeGraph.Store.Basic

/-!
# Entries of the code graph

An `Entry` says one thing about the code: a directory contains a file, a class extends another, a
method calls a method. It is a sequence of `Upsert`s that is given up at the first one that fails.
Classes and methods known only by reference are upserted without attributes, so that an entry made
for the declaration, earlier or later, meets them in the same node.

`Entry.record` runs an entry on a store and counts how many upserts succeeded and how many failed.
-/

namespace CodeGraph

/-- One match-or-create write. -/
inductive Upsert
  | node (key : NodeKey) (given : Attributes)
  | edge (start target : NodeKey) (relation : Relation)
deriving DecidableEq, Inhabited

/-- Upserts of which each is tried only if those before it succeeded. -/
abbrev Entry := List Upsert

/-- What a declared method adds to its node. -/
structure MethodDetail where
  simpleName : String
  file : String
  startLine : Nat
  endLine : Nat
  code : String
deriving DecidableEq, Inhabited

/-- What a declared field adds to its node. -/
structure FieldDetail where
  name : String
  typeName : String
  initialValue : String
deriving DecidableEq, Inhabited

/-- How many writes succeeded and failed. -/
structure WriteStats where
  succeeded : Nat := 0
  failed : Nat := 0
deriving DecidableEq, Inhabited

namespace Entry

/-- A node without attributes of its own. -/
def stub (label : Label) (key : String) : Upsert := .node ⟨label, key⟩ Dict.empty

/-! ## Files -/

def directory (path : String) : Entry := [stub .directory path]

def subdirectory (parent child : String) : Entry :=
  directory parent ++ directory child ++ [.edge ⟨.directory, parent⟩ ⟨.directory, child⟩ .hasDir]

def file (path : String) : Entry := [.node ⟨.file, path⟩ (Dict.ofList [("type", .text "java")])]

def fileIn (directory path : String) : Entry :=
  Entry.directory directory ++ file path ++ [.edge ⟨.directory, directory⟩ ⟨.file, path⟩ .hasFile]

def packageOf (file package : String) : Entry :=
  [stub .package package, .edge ⟨.file, file⟩ ⟨.package, package⟩ .inPackage]

def importOf (file name : String) : Entry :=
  [stub .importName name, .edge ⟨.file, file⟩ ⟨.importName, name⟩ .hasImport]

/-! ## Classes -/

/-- A declared class with its kind of declaration. -/
def classType (qualified kind : String) : Entry :=
  [.node ⟨.classType, qualified⟩ (Dict.ofList [("kind", .text kind)])]

/-- A class known only by reference. -/
def classStub (qualified : String) : Entry := [stub .classType qualified]

def classIn (file qualified : String) : Entry :=
  [.edge ⟨.file, file⟩ ⟨.classType, qualified⟩ .hasClass]

def nestedClass (outer inner : String) : Entry :=
  [.edge ⟨.classType, outer⟩ ⟨.classType, inner⟩ .hasClass]

def classExtends (qualified parent : String) : Entry :=
  classStub parent ++ [.edge ⟨.classType, qualified⟩ ⟨.classType, parent⟩ .extends]

def classImplements (qualified interface : String) : Entry :=
  classStub interface ++ [.edge ⟨.classType, qualified⟩ ⟨.classType, interface⟩ .implements]

/-! ## Members -/

/-- A declared method or constructor. -/
def method (signature : String) (detail : MethodDetail) : Entry :=
  [.node ⟨.method, signature⟩ (Dict.ofList [
    ("simple_name", .text detail.simpleName),
    ("file", .text detail.file),
    ("start_line", .int (Int64.ofNat detail.startLine)),
    ("end_line", .int (Int64.ofNat detail.endLine)),
    ("code", .text detail.code)])]

/-- A method known only as the target of a call. -/
def methodStub (signature : String) : Entry := [stub .method signature]

def methodOf (qualified signature : String) : Entry :=
  [.edge ⟨.classType, qualified⟩ ⟨.method, signature⟩ .hasMethod]

def constructorOf (qualified signature : String) : Entry :=
  [.edge ⟨.classType, qualified⟩ ⟨.method, signature⟩ .hasConstructor]

def fieldOf (qualified : String) (field : FieldDetail) : Entry :=
  let key := NodeKey.ofField qualified field.name
  [.node key (Dict.ofList [
      ("name", .text field.name),
      ("type", .text field.typeName),
      ("initialValue", .text field.initialValue)]),
    .edge ⟨.classType, qualified⟩ key .hasField]

/-- A field together with the project class that types it. -/
def typedFieldOf (qualified : String) (field : FieldDetail) (fieldType : String) : Entry :=
  fieldOf qualified field ++ classStub fieldType ++
    [.edge (NodeKey.ofField qualified field.name) ⟨.classType, fieldType⟩ .hasType]

/-! ## Method bodies -/

def call (caller callee : String) : Entry :=
  methodStub callee ++ [.edge ⟨.method, caller⟩ ⟨.method, callee⟩ .callsMethod]

def use (method qualified : String) : Entry :=
  classStub qualified ++ [.edge ⟨.method, method⟩ ⟨.classType, qualified⟩ .usesClass]

end Entry

/-! ## Running -/

namespace WriteStats

def succeed (w : WriteStats) : WriteStats := { w with succeeded := w.succeeded + 1 }

def fail (w : WriteStats) : WriteStats := { w with failed := w.failed + 1 }

/-- A one-line summary for diagnostics. -/
def summary (w : WriteStats) : String :=
  s!"GraphWriter \x7b stats: WriteStats \x7b succeeded: {w.succeeded}, failed: {w.failed} \x7d \x7d"

end WriteStats

/-- A store and the count of what was written to it. -/
structure Ledger where
  store : Store
  stats : WriteStats
deriving DecidableEq, Inhabited

/-- The store after an upsert, if it succeeds. -/
def Upsert.apply? (u : Upsert) (s : Store) : Option Store :=
  match u with
  | .node key given => (s.mergeNode key given).toOption.map (·.2)
  | .edge start target relation => (s.mergeEdge start target relation).toOption.map (·.2)

/-- Run an entry; answers whether all of it succeeded. -/
def Entry.record : Entry → Ledger → Bool × Ledger
  | [], l => (true, l)
  | u :: rest, l =>
    match u.apply? l.store with
    | some store => Entry.record rest ⟨store, l.stats.succeed⟩
    | none => (false, { l with stats := l.stats.fail })

end CodeGraph
