import CodeGraph.Data.Dict
import CodeGraph.Settings.Basic
import CodeGraph.Text.Character
import CodeGraph.Text.Lines

/-!
# The environment

An environment binds variables to texts. A file of bindings adds to it line by line without changing
what is bound, up to the first line that is malformed (`Environment.load`). A value may be quoted,
over several lines too, and outside single quotes it may name variables that are bound by then.

`Settings.override` puts variables in the place of settings.
-/

namespace CodeGraph

/-- Variables and their values. -/
abbrev Environment := Dict String

namespace Environment

open Text

/-! ## Lines -/

/-- Where the end of a line stands with respect to quotes. -/
inductive Quoting
  | plain | blank | escape | strong | strongEscape | weak | weakEscape
deriving DecidableEq, Inhabited

/-- What follows a character outside quotes. -/
def Quoting.opened (c : Char) : Quoting :=
  if c = '\\' then .escape else if c = '"' then .weak else if c = '\'' then .strong else .plain

/-- What follows a character; nothing where a comment starts. -/
def Quoting.next : Quoting → Char → Option Quoting
  | .blank, c => if c = '#' then none else some (.opened c)
  | .plain, c =>
    if isBlank c && c != '\n' && c != '\r' then some .blank else some (.opened c)
  | .escape, _ => some .plain
  | .weak, c => some (if c = '\\' then .weakEscape else if c = '"' then .plain else .weak)
  | .weakEscape, _ => some .weak
  | .strong, c => some (if c = '\\' then .strongEscape else if c = '\'' then .plain else .strong)
  | .strongEscape, _ => some .strong

/-- How a line ends and, if a comment ends it, the part before. -/
def scanLine (q : Quoting) (before : List Char) : List Char → Quoting × Option (List Char)
  | [] => (q, none)
  | c :: rest =>
    match q.next c with
    | none => (.plain, some before.reverse)
    | some q => scanLine q (c :: before) rest

/-- The next line, joined with those after it while quotes stay open; nothing if they never close. A
line of which the first character is a number sign says nothing. -/
def joinedLine? (q : Quoting) (before : List Char) :
    List (List Char) → Option (List Char × List (List Char))
  | [] => none
  | line :: rest =>
    let text := before ++ line
    if (trimStart text).head? = some '#' then some ([], rest)
    else
      match scanLine q [] line with
      | (_, some front) => some (before ++ front, rest)
      | (.plain, none) => some (withoutLineEnd text, rest)
      | (q, none) => joinedLine? q text rest

/-! ## Values -/

/-- Where the reading of a value stands. -/
inductive Mode
  | plain | weak | strong
  | escaped (weak : Bool)
  /-- After a dollar sign, with the reversed letters of a name so far. -/
  | name (weak : Bool) (letters : List Char)
  /-- Likewise between braces. -/
  | braced (weak : Bool) (letters : List Char)
  /-- After a blank only a comment may follow. -/
  | ending
deriving DecidableEq, Inhabited

def Mode.inside (weak : Bool) : Mode := if weak then .weak else .plain

/-- The reversed value of the variable whose name is given reversed; empty if it is not bound. -/
def reversedValue (env : Environment) (letters : List Char) : List Char :=
  ((env.get? (String.ofList letters.reverse)).getD "").toList.reverse

/-- The value of an escape. -/
def escapeValue? (c : Char) : Option Char :=
  if c = 'n' then some '\n'
  else if c = '\\' ∨ c = '\'' ∨ c = '"' ∨ c = '$' ∨ c = ' ' then some c
  else none

/-- The rest of a value; `acc` holds what is known of it, reversed. -/
def valueFrom? (env : Environment) : Mode → (acc : List Char) → List Char → Option (List Char)
  | .plain, acc, [] | .ending, acc, [] | .escaped false, acc, [] => some acc.reverse
  | .name false letters, acc, [] => some (reversedValue env letters ++ acc).reverse
  | _, _, [] => none
  | .ending, acc, c :: rest =>
    if c = ' ' ∨ c = '\t' then valueFrom? env .ending acc rest
    else if c = '#' then some acc.reverse
    else none
  | .escaped weak, acc, c :: rest =>
    match escapeValue? c with
    | some e => valueFrom? env (.inside weak) (e :: acc) rest
    | none => none
  | .strong, acc, c :: rest =>
    if c = '\'' then valueFrom? env .plain acc rest else valueFrom? env .strong (c :: acc) rest
  | .name weak letters, acc, c :: rest =>
    if isAlphanumeric c then valueFrom? env (.name weak (c :: letters)) acc rest
    else if c = '\x7b' ∧ letters = [] then valueFrom? env (.braced weak []) acc rest
    else
      let acc := reversedValue env letters ++ acc
      if c = '$' then valueFrom? env (.name weak []) acc rest
      else valueFrom? env (.inside weak) (c :: acc) rest
  | .braced weak letters, acc, c :: rest =>
    if c = '\x7d' then valueFrom? env (.inside weak) (reversedValue env letters ++ acc) rest
    else valueFrom? env (.braced weak (c :: letters)) acc rest
  | .weak, acc, c :: rest =>
    if c = '$' then valueFrom? env (.name true []) acc rest
    else if c = '"' then valueFrom? env .plain acc rest
    else if c = '\\' then valueFrom? env (.escaped true) acc rest
    else valueFrom? env .weak (c :: acc) rest
  | .plain, acc, c :: rest =>
    if c = '$' then valueFrom? env (.name false []) acc rest
    else if c = '\'' then valueFrom? env .strong acc rest
    else if c = '"' then valueFrom? env .weak acc rest
    else if c = '\\' then valueFrom? env (.escaped false) acc rest
    else if c = ' ' ∨ c = '\t' then valueFrom? env .ending acc rest
    else valueFrom? env .plain (c :: acc) rest

/-! ## Bindings -/

def isKeyStart (c : Char) : Bool := isAsciiLetter c || c == '_'

def isKeyChar (c : Char) : Bool := isAsciiLetter c || isAsciiDigit c || c == '_' || c == '.'

/-- The name of a variable and what follows it after blanks. -/
def key? (cs : List Char) : Option (List Char × List Char) :=
  if (cs.head?).any isKeyStart then
    some (cs.takeWhile isKeyChar, trimStart (cs.dropWhile isKeyChar))
  else none

/-- The name of a variable and what follows the equals sign after it. The word `export` may stand
before the name, and is one itself if an equals sign follows. -/
def binding? (cs : List Char) : Option (List Char × List Char) := do
  match (← key? cs) with
  | (key, '=' :: rest) => return (key, trimStart rest)
  | (key, rest) =>
    if key = "export".toList then
      match (← key? rest) with
      | (key, '=' :: rest) => return (key, trimStart rest)
      | _ => none
    else none

/-- The variable that a line binds, or no variable if it says nothing; nothing at all if the line is
malformed. -/
def bindingOfLine? (env : Environment) (line : List Char) : Option (Option (String × String)) :=
  match trim line with
  | [] => some none
  | '#' :: _ => some none
  | cs => do
    let (key, rest) ← binding? cs
    let value ← match rest with
      | [] => some []
      | '#' :: _ => some []
      | rest => valueFrom? env .plain [] rest
    return some (String.ofList key, String.ofList value)

/-- Bind a variable unless it is bound. -/
def bindNew (env : Environment) (name value : String) : Environment :=
  if (env.get? name).isSome then env else env.insert name value

/-- Add the bindings of lines up to the first malformed one. -/
def loadLines : (fuel : Nat) → Environment → List (List Char) → Environment
  | 0, env, _ => env
  | fuel + 1, env, lines =>
    match joinedLine? .plain [] lines with
    | none => env
    | some (line, rest) =>
      match bindingOfLine? env line with
      | none => env
      | some none => loadLines fuel env rest
      | some (some (name, value)) => loadLines fuel (env.bindNew name value) rest

/-- The lines of a file up to the first that is no UTF-8, a byte order mark left out. -/
def textLines (bytes : List UInt8) : List (List Char) :=
  decodedLines (if [0xef, 0xbb, 0xbf].isPrefixOf bytes then bytes.drop 3 else bytes)

/-- Add the bindings of a file. -/
def load (env : Environment) (bytes : List UInt8) : Environment :=
  let lines := textLines bytes
  loadLines (lines.length + 1) env lines

/-- A number without blanks or separators; one plus sign may stand before it. -/
def toNat? (s : String) : Option Nat :=
  let cs := match s.toList with
    | '+' :: rest => rest
    | cs => cs
  let n := Json.ofDigits cs
  if !cs.isEmpty && cs.all isAsciiDigit && n < 0x10000000000000000 then some n else none

end Environment

/-- The settings with variables in the place of what they stand for. The key of the language model
yields to a key that is set. -/
def Settings.override (s : Settings) (env : Environment) : Settings :=
  { s with
    embeddings := { s.embeddings with
      url := (env.get? "THICKET_EMBEDDINGS_URL").or s.embeddings.url
      token := (env.get? "THICKET_EMBEDDINGS_TOKEN").or s.embeddings.token
      dimensions := ((env.get? "THICKET_EMBEDDINGS_DIM").bind Environment.toNat?).getD
        s.embeddings.dimensions }
    chat := { s.chat with
      model := (env.get? "THICKET_LLM_MODEL").getD s.chat.model
      apiKey := s.chat.apiKey.or (env.get? "OPENAI_API_KEY") } }

/-- The settings of a project from its two files, either of which may be missing: defaults if the
first cannot be read, then overridden by the environment to which the second adds. -/
def Settings.load (document bindings : Option (List UInt8)) (env : Environment) : Settings :=
  let written := do
    let bytes ← document
    parse? (← Text.decode? bytes)
  (written.getD {}).override (env.load (bindings.getD []))

end CodeGraph
