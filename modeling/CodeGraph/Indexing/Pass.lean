import CodeGraph.Files.Walk
import CodeGraph.Java.Extraction
import CodeGraph.Settings.Basic

/-!
# Indexing passes

A pass over a project walks its directory, reads and parses the sources, makes the index of their
types and writes everything into the store: first the directories, then file after file. A source
that is no UTF-8 is reported and left out. `indexWalk` is the pass over what a walk has found,
`indexProject` the pass over a directory.

How a source becomes a syntax tree is a parameter.
-/

namespace CodeGraph

open Java

/-- What a pass found and wrote. -/
structure IndexReport where
  root : String
  directories : Nat := 0
  files : Nat := 0
  parseFailures : List String := []
  types : Nat := 0
  classes : Nat := 0
  methods : Nat := 0
  fields : Nat := 0
  calls : Nat := 0
  uses : Nat := 0
  unresolved : Nat := 0
  writes : WriteStats := {}
deriving DecidableEq, Inhabited

namespace IndexReport

/-- Add what one file reports. -/
def absorb (r : IndexReport) (f : FileReport) : IndexReport :=
  { r with
    files := r.files + 1
    classes := r.classes + f.classes
    methods := r.methods + f.methods
    fields := r.fields + f.fields
    calls := r.calls + f.calls
    uses := r.uses + f.uses
    unresolved := r.unresolved + f.unresolved.length }

def toJson (r : IndexReport) : Json := .object [
  ("root", .text r.root),
  ("directories", .ofNat r.directories),
  ("files", .ofNat r.files),
  ("parse_failures", .ofTexts r.parseFailures),
  ("types", .ofNat r.types),
  ("classes", .ofNat r.classes),
  ("methods", .ofNat r.methods),
  ("fields", .ofNat r.fields),
  ("calls", .ofNat r.calls),
  ("uses", .ofNat r.uses),
  ("unresolved", .ofNat r.unresolved),
  ("writes", .object [
    ("succeeded", .ofNat r.writes.succeeded),
    ("failed", .ofNat r.writes.failed)])]

end IndexReport

/-- Why there was no pass. -/
inductive IndexError
  | root (path : String) (cause : FileError)
  | pattern (cause : GlobError)
  | store (cause : StoreError)
deriving DecidableEq, Inhabited

def IndexError.message : IndexError → String
  | root path cause => s!"failed to read {path}: {cause.message}"
  | pattern cause => s!"invalid exclude pattern: {cause.message}"
  | store cause => cause.message

/-- What went wrong, and what lies behind it. -/
def IndexError.messages (e : IndexError) : List String :=
  match e with
  | root _ cause => [e.message, cause.message]
  | pattern cause => [e.message, cause.message]
  | store _ => [e.message]

namespace Indexing

/-- The entry for a directory that a walk of a root has found. -/
def directoryEntry (root path : String) : Entry :=
  match Path.parent? path with
  | some parent =>
    if path ≠ root ∧ Path.isWithin parent root then Entry.subdirectory parent path
    else Entry.directory path
  | none => Entry.directory path

/-- Write the directories. -/
def recordDirectories (root : String) (directories : List String) (l : Ledger) : Ledger :=
  directories.foldl (fun l path => ((directoryEntry root path).record l).2) l

/-- Write the sources, each with what it says about the code. -/
def recordSources (index : ProjectIndex) (filter : NamespaceFilter) :
    List SourceFile → IndexReport × Ledger → IndexReport × Ledger
  | [], acc => acc
  | file :: rest, (report, l) =>
    match processFile index filter file l with
    | some (l, r) => recordSources index filter rest (report.absorb r, l)
    | none => recordSources index filter rest (report, l)

end Indexing

open Indexing

/-- The pass over what a walk of a root has found. -/
def Store.indexWalk (s : Store) (filter : NamespaceFilter) (parse : String → Tree)
    (read? : String → Option String) (root : String) (walk : SourceWalk) : IndexReport × Store :=
  let l := recordDirectories root walk.directories ⟨s, {}⟩
  let sources := walk.files.filterMap fun path => (read? path).map fun text => ⟨path, parse text⟩
  let index := ProjectIndex.build sources
  let report : IndexReport := {
    root
    directories := walk.directories.length
    parseFailures := walk.files.filter fun path => (read? path).isNone
    types := index.typeCount }
  let (report, l) := recordSources index filter sources (report, l)
  ({ report with writes := l.stats }, l.store)

/-- The pass over the directory that a path leads to. -/
def Store.indexProject (s : Store) (settings : IndexingSettings) (parse : String → Tree)
    (files : FileTree) (path : String) : Except IndexError (IndexReport × Store) := do
  let root ← (files.resolve [] path).mapError (.root path)
  s.probe.mapError .store
  let exclusion ← (Exclusion.ofTexts settings.exclude).mapError .pattern
  let read? (path : String) := (files.read? (Path.names path)).bind Text.decode?
  return s.indexWalk ⟨settings.excludedNamespaces⟩ parse read? (Path.ofNames root)
    (files.walk root exclusion)

end CodeGraph
