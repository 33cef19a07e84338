import CodeGraph.Command.Arguments
import CodeGraph.Service.Handling

/-!
# Running commands

A command works on the project at a root: its settings and the store that its snapshot holds. What
it prints and the files it leaves are its `Outcome`; a `Failure` tells its story from the outside
in, and what was printed and saved before it remains.
-/

namespace CodeGraph

/-- What a command finds around it. -/
structure Surroundings (m : Type → Type) where
  /-- The place where relative paths start. -/
  here : List String
  environment : Environment
  parse : String → Java.Tree
  send : Endpoint.Channel m
  now : m String

namespace Command

/-- Why a command gave up, from the outside in. -/
structure Failure where
  message : String
  causes : List String := []
deriving DecidableEq, Inhabited

namespace Failure

/-- A message as a cause: indented and, if there are several, numbered. -/
def causeLine (number : Option Nat) (message : String) : String :=
  let (start, indent) := match number with
    | some n => (s!"    {n}: ", "       ")
    | none => ("    ", "    ")
  "\n" ++ start ++ ("\n" ++ indent).intercalate
    ((Text.splitAll '\n' message.toList).map String.ofList)

/-- The text of a failure. -/
def report (f : Failure) : String :=
  "Error: " ++ f.message ++
    match f.causes with
    | [] => ""
    | [cause] => "\n\nCaused by:" ++ causeLine none cause
    | causes =>
      "\n\nCaused by:" ++ String.join (causes.zipIdx.map fun (cause, n) => causeLine (some n) cause)

/-- The failure of a step, with what lies behind it. -/
def ofChain : List String → Failure
  | [] => ⟨"", []⟩
  | message :: causes => ⟨message, causes⟩

end Failure

/-- What has been printed so far and the files as they are. -/
structure Progress where
  output : String := ""
  files : FileTree

/-- A step of a command: it may fail, and its progress remains. -/
abbrev Action (m : Type → Type) := ExceptT Failure (StateT Progress m)

/-- An open project. -/
structure Project where
  place : List String
  settings : Settings
  store : Store

namespace Project

def root (p : Project) : String := Path.ofNames p.place

def snapshotPath (p : Project) : String := p.settings.snapshotPath p.root

end Project

variable {m : Type → Type} [Monad m]

/-- Print a line. -/
def printLine (s : String) : Action m Unit :=
  modify fun p => { p with output := p.output ++ s ++ "\n" }

def printDocument (j : Json) : Action m Unit := printLine j.pretty

/-- Take a result, or fail with what describes its error. -/
def orFail {ε α : Type} (describe : ε → Failure) : Except ε α → Action m α
  | .ok a => return a
  | .error e => throw (describe e)

/-- Open the project at a path. -/
def openProject (w : Surroundings m) (path : String) : Action m Project := do
  let files := (← get).files
  let place ← orFail (fun (e : FileError) => ⟨s!"Project root {path} does not exist", [e.message]⟩)
    (files.resolve w.here path)
  let settings := Settings.load (files.read? (place ++ [Settings.fileName]))
    (files.read? (place ++ [".env"])) w.environment
  let snapshot := settings.snapshotPath (Path.ofNames place)
  let store ← orFail (fun (e : SnapshotError) =>
      ⟨s!"Failed to load graph from {snapshot}", e.messages⟩)
    (Store.openFrom files snapshot)
  return ⟨place, settings, store⟩

/-- Save the store of a project. -/
def saveProject (w : Surroundings m) (p : Project) : Action m Unit := do
  let path := p.snapshotPath
  let files ← orFail (fun (e : SnapshotError) => ⟨s!"Failed to save graph to {path}", e.messages⟩)
    (p.store.saveTo (← get).files path (← (w.now : m String)))
  modify ({ · with files })

/-- Embed the methods of a project. -/
def embedProject (w : Surroundings m) (p : Project) : Action m Project := do
  let embedder ← orFail (fun (e : ProviderError) => ⟨"Embeddings are not configured", [e.message]⟩)
    (p.settings.embeddings.embedder w.send)
  let result ← ((Service.jobOf p.settings).run embedder p.store : m _)
  let (report, store) ← orFail (fun (e : StoreError) => ⟨e.message, []⟩) result
  printDocument report.toJson
  return { p with store }

/-- How many nodes and relationships there are, and how many nodes of each label, by name. -/
def statistics (s : Store) : Except StoreError Json := do
  let counts ← s.counts
  let labels ← Label.all.mapM fun l => do
    return (l.name, Json.ofNat (← s.scan l l.keyAttribute 0 none).length)
  return .object [
    ("labels", .object (Dict.ofList labels).toList),
    ("nodes", .ofNat counts.nodes),
    ("relationships", .ofNat counts.relationships)]

/-- What a command does with an open project. -/
def act (w : Surroundings m) (p : Project) : Command → Action m Unit
  | .index andEmbed => do
    let (report, store) ← orFail (fun (e : IndexError) => Failure.ofChain e.messages)
      (p.store.indexProject p.settings.indexing w.parse (← get).files p.root)
    let p := { p with store }
    saveProject w p
    printDocument report.toJson
    if andEmbed then
      let p ← embedProject w p
      saveProject w p
  | .embed => do
    let p ← embedProject w p
    saveProject w p
  | .query text topN => do
    let retrieval : Retrieval m := {
      embedder := (p.settings.embeddings.embedder w.send).toOption
      indexName := p.settings.retrieval.indexName
      relationships := p.settings.retrieval.relationships }
    let result ← (retrieval.query p.store text (topN.getD p.settings.retrieval.topN) : m _)
    printDocument result.toJson
  | .reset => do
    let (_, store) ← orFail (fun (e : StoreError) => ⟨e.message, []⟩) p.store.wipe
    saveProject w { p with store }
  | .stats => do
    printDocument (← orFail (fun (e : StoreError) => ⟨e.message, []⟩) (statistics p.store))
  | .serve host port => throw ⟨s!"Cannot listen on {host}:{port}", []⟩

/-- What running the program comes to. -/
structure Outcome where
  exitCode : Nat
  output : String := ""
  errors : String := ""
  files : FileTree

/-- Do what an invocation asks for. -/
def perform (w : Surroundings m) (files : FileTree) (i : Invocation) : m Outcome := do
  match ← (do act w (← openProject w i.root) i.command : Action m Unit).run.run { files } with
  | (.ok (), p) => return ⟨0, p.output, "", p.files⟩
  | (.error f, p) => return ⟨1, p.output, f.report, p.files⟩

/-- Run the program with arguments. -/
def run (w : Surroundings m) (files : FileTree) (arguments : List String) : m Outcome :=
  match parse arguments with
  | .error e => return ⟨2, "", e.message, files⟩
  | .ok (.showHelp text) => return ⟨0, text, "", files⟩
  | .ok (.invoke i) => perform w files i

end Command

end CodeGraph
