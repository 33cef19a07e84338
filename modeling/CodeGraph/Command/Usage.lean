import CodeGraph.Settings.Environment

/-!
# The commands and their options

Each command has a name, may take an argument and has options; some options belong to all commands.
These tables are what arguments are read by and what the help shows.
-/

namespace CodeGraph.Command

/-- An option of a command. -/
structure OptionSpec where
  long : String
  short : Option Char := none
  /-- How the help calls the value; without one the option has no value. -/
  value : Option String := none
  standard : Option String := none
  about : String
  /-- Whether a value is legal. -/
  accepts : String → Bool := fun _ => true

/-- A command. -/
structure CommandSpec where
  name : String
  about : String
  /-- How the help calls the argument, if there is one. -/
  argument : Option String := none
  options : List OptionSpec := []

/-- The name of the program. -/
def programName : String := "thicket"

def programAbout : String := "Java code graph extraction and graph-aware semantic search"

def isNat (s : String) : Bool := (Environment.toNat? s).isSome

/-- Numbers of ports. -/
def isPort (s : String) : Bool := (Environment.toNat? s).any (· < 0x10000)

def verboseOption : OptionSpec where
  long := "verbose"
  short := some 'v'
  about := "Enable verbose logging"

def rootOption : OptionSpec where
  long := "root"
  short := some 'r'
  value := some "ROOT"
  standard := some "."
  about := "Project root path (defaults to current directory)"
  accepts := fun s => !s.isEmpty

def helpOption : OptionSpec where
  long := "help"
  short := some 'h'
  about := "Print help"

/-- The options of all commands that say how to work. -/
def workOptions : List OptionSpec := [verboseOption, rootOption]

/-- The options of all commands. -/
def commonOptions : List OptionSpec := workOptions ++ [helpOption]

def indexSpec : CommandSpec where
  name := "index"
  about := "Extract the project's code graph and save it"
  options := [{ long := "embed", about := "Embed method source once indexing finishes" }]

def embedSpec : CommandSpec where
  name := "embed"
  about := "(Re)build method embeddings and the vector index"

def querySpec : CommandSpec where
  name := "query"
  about := "Retrieve code clusters related to a question"
  argument := some "TEXT"
  options := [{
    long := "top-n"
    value := some "TOP_N"
    about := "Number of seed methods"
    accepts := isNat }]

def resetSpec : CommandSpec where
  name := "reset"
  about := "Delete the whole graph"

def statsSpec : CommandSpec where
  name := "stats"
  about := "Show node and relationship totals"

def serveSpec : CommandSpec where
  name := "serve"
  about := "Start the HTTP server"
  options := [
    { long := "port"
      short := some 'p'
      value := some "PORT"
      standard := some "7890"
      about := "Port to listen on"
      accepts := isPort },
    { long := "host"
      value := some "HOST"
      standard := some "127.0.0.1"
      about := "Host to bind to" }]

def helpSpec : CommandSpec where
  name := "help"
  about := "Print this message or the help of the given subcommand(s)"

/-- The commands that do something. -/
def commandSpecs : List CommandSpec :=
  [indexSpec, embedSpec, querySpec, resetSpec, statsSpec, serveSpec]

/-! ## Help -/

/-- A text filled up with blanks. -/
def padded (width : Nat) (s : String) : String :=
  s ++ String.ofList (List.replicate (width - s.length) ' ')

/-- Two columns, the second two blanks behind the longest text of the first. -/
def columns (rows : List (String × String)) : String :=
  let width := (rows.map (·.1.length)).foldl max 0
  String.join (rows.map fun (left, right) => "  " ++ padded (width + 2) left ++ right ++ "\n")

def OptionSpec.row (o : OptionSpec) : String × String :=
  let short := match o.short with
    | some c => String.ofList ['-', c, ',', ' ']
    | none => "    "
  let value := match o.value with
    | some v => " <" ++ v ++ ">"
    | none => ""
  let standard := match o.standard with
    | some d => " [default: " ++ d ++ "]"
    | none => ""
  (short ++ "--" ++ o.long ++ value, o.about ++ standard)

/-- The letter or name by which an option is found in the help. -/
def OptionSpec.shownAs (o : OptionSpec) : String :=
  match o.short with
  | some c => String.ofList [c]
  | none => o.long

/-- Two lists of options taken in turn; of two in the same turn the one that is found earlier comes
first. -/
def inTurn : List OptionSpec → List OptionSpec → List OptionSpec
  | o :: os, p :: ps => (if o.shownAs < p.shownAs then [o, p] else [p, o]) ++ inTurn os ps
  | [], ps => ps
  | os, [] => os

/-- The help of a command. -/
def CommandSpec.help (c : CommandSpec) : String :=
  let argument := match c.argument with
    | some a => " <" ++ a ++ ">"
    | none => ""
  let arguments := match c.argument with
    | some a => "Arguments:\n" ++ columns [("<" ++ a ++ ">", "")] ++ "\n"
    | none => ""
  c.about ++ "\n\nUsage: " ++ programName ++ " " ++ c.name ++ " [OPTIONS]" ++ argument ++ "\n\n" ++
    arguments ++ "Options:\n" ++
    columns ((inTurn c.options workOptions ++ [helpOption]).map OptionSpec.row)

/-- The help of the program. -/
def programHelp : String :=
  programAbout ++ "\n\nUsage: " ++ programName ++ " [OPTIONS] <COMMAND>\n\nCommands:\n" ++
    columns ((commandSpecs ++ [helpSpec]).map fun c => (c.name, c.about)) ++ "\nOptions:\n" ++
    columns (commonOptions.map OptionSpec.row)

/-- The help of the command that shows help. -/
def helpHelp : String :=
  helpSpec.about ++ "\n\nUsage: " ++ programName ++ " help [COMMAND]...\n\nArguments:\n" ++
    columns [("[COMMAND]...", "Print help for the subcommand(s)")]

end CodeGraph.Command
