import CodeGraph.Command.Run
import Std.Time.Format

/-!
# The program

Reads the files around the project, runs the command that the arguments name and leaves what it
prints and writes. The syntax tree of a source is read from the file beside it whose name goes on
with `.tree`: a line for each node, in pre-order, with its depth, kind, field, start and end between
tabs, a tilde before the kind of a token. Endpoints are out of reach from here.
-/

namespace CodeGraph.Command

open Java

/-- The node of a line. -/
def rowOfLine? (line : List Char) : Option Tree.Row :=
  match (Text.splitAll '\t' line).map String.ofList with
  | [depth, kind, field, start, stop] => do
    let depth ← Environment.toNat? depth
    let start ← Environment.toNat? start
    let stop ← Environment.toNat? stop
    match kind.toList with
    | '~' :: token => return ⟨depth, String.ofList token, false, field, start, stop⟩
    | _ => return ⟨depth, kind, true, field, start, stop⟩
  | _ => none

/-- The tree of a source without content. -/
def emptyTree : Tree := .mk "program" true "" "" 1 1 []

/-- The syntax trees of the sources among files, by their texts. -/
def parserOf (files : List (List String × List UInt8)) : String → Tree :=
  let byPath (path : String) := (files.find? fun f => Path.ofNames f.1 == path).map (·.2)
  let known := files.filterMap fun (place, bytes) => do
    let path := Path.ofNames place
    if !Path.isJavaSource path then none
    let source ← Text.decode? bytes
    let rows ← (Text.decodedLines (← byPath (path ++ ".tree"))).mapM fun l =>
      rowOfLine? (Text.withoutLineEnd l)
    return (source, ← Tree.ofRows? source rows)
  fun source => ((known.find? (·.1 == source)).map (·.2)).getD emptyTree

/-- The variables that settings look at. -/
def variableNames : List String := ["THICKET_EMBEDDINGS_URL", "THICKET_EMBEDDINGS_TOKEN",
  "THICKET_EMBEDDINGS_DIM", "THICKET_LLM_MODEL", "OPENAI_API_KEY"]

/-! ## The disk -/

/-- What is on the disk at a path. -/
partial def readTree (path : String) : IO FileTree := do
  let p ← IO.FS.realPath path
  if ← p.isDir then
    let names := (← p.readDir).toList.map (·.fileName)
    let children ← names.mapM fun name => return (name, ← readTree (Path.join path name))
    return .directory (children.foldl (fun cs (name, t) => Dict.insertEntry name t cs) [])
  else return .file (← IO.FS.readBinFile p).toList

/-- Put something at a place unless something else is in the way. -/
def put (t new : FileTree) (place : List String) : FileTree := ((t.put new place).toOption).getD t

/-- Take in the file at a path, if there is one. -/
def addFile (t : FileTree) (place : List String) : IO FileTree := do
  try
    let bytes ← IO.FS.readBinFile (Path.ofNames place)
    return put t (.file bytes.toList) place
  catch _ => return t

/-- The files that hold ignore rules. -/
def ruleFiles : List (List String) := [[".ignore"], [".gitignore"], [".git", "info", "exclude"]]

/-- The place of a directory on the disk, if there is one. -/
def directory? (path : String) : IO (Option (List String)) := do
  try
    let p ← IO.FS.realPath path
    return if ← p.isDir then some (Path.names p.toString) else none
  catch _ => return none

/-- Take in a project with the rules above it and its snapshot. -/
def addProject (t : FileTree) (env : Environment) (place : List String) : IO FileTree := do
  let mut t := put t (← readTree (Path.ofNames place)) place
  for depth in List.range place.length do
    for file in ruleFiles do
      t ← addFile t (place.take depth ++ file)
  let settings :=
    Settings.load (t.read? (place ++ [Settings.fileName])) (t.read? (place ++ [".env"])) env
  addFile t (Path.place (settings.snapshotPath (Path.ofNames place)))

mutual

/-- All files with their places. -/
def filesOf (here : List String) : FileTree → List (List String × List UInt8)
  | .file bytes => [(here, bytes)]
  | .directory cs => filesBelow here cs

def filesBelow (here : List String) : List (String × FileTree) → List (List String × List UInt8)
  | [] => []
  | (name, t) :: rest => filesOf (here ++ [name]) t ++ filesBelow here rest

end

/-- Write the files that have changed. -/
def writeChanges (old new : FileTree) : IO Unit := do
  for (place, bytes) in filesOf [] new do
    if old.read? place != some bytes then
      IO.FS.createDirAll (Path.ofNames place.dropLast)
      IO.FS.writeBinFile (Path.ofNames place) ⟨bytes.toArray⟩

end CodeGraph.Command

open CodeGraph CodeGraph.Command

/-- Run the program on the disk. -/
def main (arguments : List String) : IO UInt32 := do
  let here := Path.names (← IO.currentDir).toString
  let bindings ← variableNames.filterMapM fun name => return (← IO.getEnv name).map (name, ·)
  let environment : Environment := Dict.ofList bindings
  let mut files := FileTree.empty
  if let .ok (.invoke invocation) := parse arguments then
    if let some place ← directory? invocation.root then
      files ← addProject files environment place
  files := put files .empty here
  let surroundings : Surroundings IO := {
    here
    environment
    parse := parserOf (filesOf [] files)
    send := fun r => return .error s!"no connection to {r.url}"
    now := return toString (← Std.Time.DateTime.now) }
  let outcome ← run surroundings files arguments
  writeChanges files outcome.files
  IO.print outcome.output
  if !outcome.errors.isEmpty then IO.eprintln outcome.errors
  return UInt32.ofNat outcome.exitCode
