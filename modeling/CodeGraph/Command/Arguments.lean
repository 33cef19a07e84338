import CodeGraph.Command.Usage

/-!
# Arguments

The arguments of the program name a command among options. Options of one letter may be joined, a
value may follow in the same argument or the next one, and two hyphens end the options. An option
may be given once before the command and once behind it, where the later one counts.

`Invocation.parse` answers with what is to be done, or why nothing is.
-/

namespace CodeGraph

/-- What the program is to do. -/
inductive Command
  | index (andEmbed : Bool)
  | embed
  | query (text : String) (topN : Option Nat)
  | reset
  | stats
  | serve (host : String) (port : Nat)
deriving DecidableEq, Inhabited

/-- A command and where it applies. -/
structure Invocation where
  command : Command
  root : String := "."
  verbose : Bool := false
deriving DecidableEq, Inhabited

namespace Command

/-- Why arguments are not understood. -/
inductive UsageError
  | unexpected (argument : String)
  | missingValue (option : String)
  | invalidValue (value option : String)
  | repeated (option : String)
  | unknownCommand (name : String)
  | missingArgument (name : String)
  | missingCommand
deriving DecidableEq, Inhabited

def UsageError.message : UsageError → String
  | unexpected argument => s!"error: unexpected argument '{argument}' found"
  | missingValue option => s!"error: a value is required for '--{option}' but none was supplied"
  | invalidValue value option => s!"error: invalid value '{value}' for '--{option}'"
  | repeated option => s!"error: the argument '--{option}' cannot be used multiple times"
  | unknownCommand name => s!"error: unrecognized subcommand '{name}'"
  | missingArgument name => s!"error: the following required arguments were not provided: <{name}>"
  | missingCommand => programHelp

/-- Why arguments name nothing to do. -/
inductive Halt
  | help
  | usage (cause : UsageError)

/-- What arguments have given so far. -/
structure Given where
  /-- The options by their long names, with their values. -/
  options : List (String × String) := []
  positionals : List String := []

namespace Given

def value? (g : Given) (long : String) : Option String :=
  (g.options.find? (·.1 == long)).map (·.2)

def has (g : Given) (long : String) : Bool := (g.value? long).isSome

/-- Give an option. -/
def give (g : Given) (o : OptionSpec) (value : String) : Except Halt Given :=
  if o.long = helpOption.long then .error .help
  else if g.has o.long then .error (.usage (.repeated o.long))
  else if !o.accepts value then .error (.usage (.invalidValue value o.long))
  else .ok { g with options := g.options ++ [(o.long, value)] }

end Given

/-- Read the options of one letter in an argument; the last one may wait for its value. -/
def readLetters (options : List OptionSpec) (g : Given) :
    List Char → Except Halt (Given × Option OptionSpec)
  | [] => .ok (g, none)
  | c :: cs =>
    match options.find? (·.short == some c), cs with
    | none, _ => .error (.usage (.unexpected (String.ofList ['-', c])))
    | some o, [] =>
      if o.value.isSome then .ok (g, some o)
      else (g.give o "").map (·, none)
    | some o, d :: ds =>
      if o.value.isSome then
        (g.give o (String.ofList (if d = '=' then ds else d :: ds))).map (·, none)
      else
        match g.give o "" with
        | .error e => .error e
        | .ok g => readLetters options g (d :: ds)

/-- Read a long option without its hyphens; it may wait for its value. -/
def readLong (options : List OptionSpec) (g : Given) (cs : List Char) :
    Except Halt (Given × Option OptionSpec) :=
  let name := String.ofList (cs.takeWhile (· != '='))
  match options.find? (·.long == name), cs.dropWhile (· != '=') with
  | none, _ => .error (.usage (.unexpected ("--" ++ name)))
  | some o, [] => if o.value.isSome then .ok (g, some o) else (g.give o "").map (·, none)
  | some o, _ :: value =>
    if o.value.isSome then (g.give o (String.ofList value)).map (·, none)
    else .error (.usage (.unexpected (String.ofList cs)))

/-- Whether an argument looks like an option and therefore is no value. -/
def looksLikeOption (argument : String) : Bool :=
  match argument.toList with
  | '-' :: _ :: _ => true
  | _ => false

/-- Read an argument that looks like an option. -/
def readOption (options : List OptionSpec) (g : Given) (argument : String) :
    Except Halt (Given × Option OptionSpec) :=
  match argument.toList with
  | '-' :: '-' :: cs => readLong options g cs
  | '-' :: cs => readLetters options g cs
  | _ => .ok (g, none)

/-- Read arguments up to the first positional one that is not expected any more; answers it and what
follows it. -/
def readArguments (options : List OptionSpec) (expected : Nat) (g : Given) :
    List String → Except Halt (Given × List String)
  | [] => .ok (g, [])
  | argument :: rest =>
    if argument = "--" then
      let missing := expected - g.positionals.length
      match rest.drop missing with
      | [] => .ok ({ g with positionals := g.positionals ++ rest }, [])
      | extra :: _ => .error (.usage (.unexpected extra))
    else if looksLikeOption argument then
      match readOption options g argument with
      | .error e => .error e
      | .ok (g, none) => readArguments options expected g rest
      | .ok (g, some o) =>
        match rest with
        | [] => .error (.usage (.missingValue o.long))
        | value :: rest =>
          if looksLikeOption value then .error (.usage (.missingValue o.long))
          else
            match g.give o value with
            | .error e => .error e
            | .ok g => readArguments options expected g rest
    else if g.positionals.length < expected then
      readArguments options expected { g with positionals := g.positionals ++ [argument] } rest
    else .ok (g, argument :: rest)

/-- The command that was given. -/
def ofGiven (c : CommandSpec) (g : Given) : Except UsageError Command :=
  match c.name with
  | "index" => .ok (.index (g.has "embed"))
  | "embed" => .ok .embed
  | "query" =>
    match g.positionals with
    | text :: _ => .ok (.query text ((g.value? "top-n").bind Environment.toNat?))
    | [] => .error (.missingArgument "TEXT")
  | "reset" => .ok .reset
  | "stats" => .ok .stats
  | "serve" =>
    .ok (.serve ((g.value? "host").getD "127.0.0.1")
      (((g.value? "port").bind Environment.toNat?).getD 7890))
  | other => .error (.unknownCommand other)

/-- What arguments come to. -/
inductive Request
  | invoke (invocation : Invocation)
  | showHelp (text : String)

/-- The help that the arguments of the command for help ask for. -/
def helpFor : List String → Except UsageError Request
  | [] => .ok (.showHelp programHelp)
  | name :: rest =>
    match (commandSpecs ++ [helpSpec]).find? (·.name == name), rest with
    | none, _ => .error (.unknownCommand name)
    | some _, other :: _ => .error (.unknownCommand other)
    | some c, [] => .ok (.showHelp (if c.name = helpSpec.name then helpHelp else c.help))

/-- Read the arguments behind the name of a command. -/
def parseCommand (before : Given) (c : CommandSpec) (arguments : List String) :
    Except UsageError Request :=
  match readArguments (c.options ++ commonOptions)
    (if c.argument.isSome then 1 else 0) {} arguments with
  | .error .help => .ok (.showHelp c.help)
  | .error (.usage e) => .error e
  | .ok (_, extra :: _) => .error (.unexpected extra)
  | .ok (g, []) => do
    let command ← ofGiven c g
    return .invoke {
      command
      root := ((g.value? "root").or (before.value? "root")).getD "."
      verbose := g.has "verbose" || before.has "verbose" }

/-- Read the arguments of the program. -/
def parse (arguments : List String) : Except UsageError Request :=
  match readArguments commonOptions 0 {} arguments with
  | .error .help => .ok (.showHelp programHelp)
  | .error (.usage e) => .error e
  | .ok (_, []) => .error .missingCommand
  | .ok (g, name :: rest) =>
    if name = helpSpec.name then helpFor rest
    else
      match commandSpecs.find? (·.name == name) with
      | some c => parseCommand g c rest
      | none => .error (.unknownCommand name)

end Command

end CodeGraph
