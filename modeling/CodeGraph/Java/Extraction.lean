import CodeGraph.Files.Path
import CodeGraph.Java.Expression
import CodeGraph.Text.Dedent
import CodeGraph.Writing.Entry

/-!
# From a syntax tree to graph entries

Extraction walks one file and lists what it has to say about the code as `Step`s: entries for the
graph, each with what it counts as and with the steps that make sense only once it is written, and
symbols that could not be resolved. A `Walk` threads the `Context` through the tree; it does not
know the graph, so the same file gives the same steps whatever is in the store.

Identifiers count as references where they stand for a value (`roles`). Bodies of local and
anonymous classes are walked as blocks of the method around them.
-/

namespace CodeGraph.Java

/-- Qualified-name beginnings of platform types, whose fields stay without a type node and whose use
is not recorded. -/
structure NamespaceFilter where
  starts : List String
deriving DecidableEq, Inhabited

def NamespaceFilter.excludes (filter : NamespaceFilter) (qualified : String) : Bool :=
  filter.starts.any fun start => start.toList.isPrefixOf qualified.toList

/-- What a written entry counts as. -/
inductive Tally
  | classes | methods | fields | calls | uses
deriving DecidableEq, Inhabited

/-- One thing that extraction has to say. -/
inductive Step
  /-- A symbol without meaning, at a line. -/
  | unresolved (line : Nat) (what : Unresolved)
  /-- Write an entry; if that succeeds, count it and go on with the steps inside. -/
  | put (entry : Entry) (tally : Option Tally) (inside : List Step)
deriving Inhabited

/-- A stretch of a walk: how it changes the context and what it has to say. -/
abbrev Walk := Context → Context × List Step

namespace Walk

/-- Do nothing. -/
def skip : Walk := fun ctx => (ctx, [])

/-- One stretch after another. -/
def andThen (a b : Walk) : Walk := fun ctx =>
  let (ctx, first) := a ctx
  let (ctx, second) := b ctx
  (ctx, first ++ second)

/-- Stretches in order. -/
def all : List Walk → Walk
  | [] => skip
  | w :: ws => andThen w (all ws)

/-- Say something. -/
def say (steps : List Step) : Walk := fun ctx => (ctx, steps)

/-- Write an entry. -/
def put (entry : Entry) (tally : Option Tally) : Walk := say [.put entry tally []]

/-- Change the context. -/
def update (f : Context → Context) : Walk := fun ctx => (f ctx, [])

/-- Go on depending on the context. -/
def ask (f : Context → Walk) : Walk := fun ctx => f ctx ctx

/-- Walk inside a scope: enter it, walk, exit. -/
def within (enter : Context → Context) (inside : Walk) : Walk := fun ctx =>
  let (ctx, steps) := inside (enter ctx)
  (ctx.exit, steps)

/-- Walk inside a block. -/
def block (inside : Walk) : Walk := within Context.enterBlock inside

/-- Write an entry and, if that succeeds, what the inner stretch has to say. -/
def guarded (entry : Entry) (tally : Tally) (inside : Walk) : Walk := fun ctx =>
  let (ctx, steps) := inside ctx
  (ctx, [.put entry (some tally) steps])

end Walk

/-! ## Values -/

/-- Which named children of a node stand for values. -/
inductive ValueRole
  | always | never | firstNamed
  | underField (field : String)
deriving DecidableEq

def valueRole : String → ValueRole
  | "field_access" | "method_invocation" => .underField "object"
  | "variable_declarator" | "resource" | "cast_expression" | "enhanced_for_statement" =>
    .underField "value"
  | "instanceof_expression" => .underField "left"
  | "lambda_expression" => .underField "body"
  | "method_reference" => .firstNamed
  | "assignment_expression" | "binary_expression" | "unary_expression" | "update_expression"
  | "parenthesized_expression" | "argument_list" | "return_statement" | "ternary_expression"
  | "array_access" | "expression_statement" | "array_initializer" | "dimensions_expr"
  | "throw_statement" | "yield_statement" | "synchronized_statement" | "switch_expression"
  | "guard" => .always
  | _ => .never

/-- Whether the first child under a field stands for a value. -/
def fieldIsValue (t : Tree) (field : String) : Bool :=
  match valueRole t.kind with
  | .always => true
  | .underField f => f == field
  | _ => false

/-- Mark the first tree under a field. -/
def markField (field : String) : List Tree → List (Bool × Tree)
  | [] => []
  | t :: ts =>
    if t.field = field then (true, t) :: ts.map (false, ·) else (false, t) :: markField field ts

/-- The named children, each with whether it stands for a value. -/
def roles (t : Tree) : List (Bool × Tree) :=
  match valueRole t.kind with
  | .always => t.named.map (true, ·)
  | .never => t.named.map (false, ·)
  | .firstNamed =>
    match t.named with
    | [] => []
    | c :: cs => (true, c) :: cs.map (false, ·)
  | .underField field => (markField field t.children).filter (·.2.isNamed)

theorem mem_markField {field : String} {r : Bool × Tree} {ts : List Tree}
    (h : r ∈ markField field ts) : r.2 ∈ ts := by
  induction ts with
  | nil => simp [markField] at h
  | cons t ts ih =>
    rw [markField] at h
    split at h
    · rcases List.mem_cons.1 h with rfl | h
      · simp
      · obtain ⟨c, hc, rfl⟩ := List.mem_map.1 h
        exact List.mem_cons_of_mem _ hc
    · rcases List.mem_cons.1 h with rfl | h
      · simp
      · exact List.mem_cons_of_mem _ (ih h)

@[grind →] theorem size_lt_of_mem_roles {t : Tree} {r : Bool × Tree} (h : r ∈ roles t) :
    r.2.size < t.size := by
  unfold roles at h
  split at h
  · obtain ⟨c, hc, rfl⟩ := List.mem_map.1 h
    exact Tree.size_lt_of_mem_named hc
  · obtain ⟨c, hc, rfl⟩ := List.mem_map.1 h
    exact Tree.size_lt_of_mem_named hc
  · split at h
    · simp at h
    · rename_i c cs hn
      have hmem : r.2 ∈ t.named := by
        rw [hn]
        rcases List.mem_cons.1 h with rfl | h
        · simp
        · obtain ⟨d, hd, rfl⟩ := List.mem_map.1 h
          exact List.mem_cons_of_mem _ hd
      exact Tree.size_lt_of_mem_named hmem
  · exact Tree.size_lt_of_mem_children (mem_markField (List.mem_filter.1 h).1)

/-! ## Method bodies -/

section

variable (index : ProjectIndex) (filter : NamespaceFilter)

/-- The type of a written type in a context, if it resolves. -/
def knownType (ctx : Context) (type : WrittenType) : Option ResolvedType :=
  (index.resolveType type ctx.scope).toOption

/-- The type that an initial value gives a variable without a written type. -/
def inferredType (ctx : Context) (value : Option Tree) : Option ResolvedType :=
  value.bind fun v => (index.typeOf ctx v).toOption

/-- Declare a variable named by a tree, if it has a name. -/
def declare (name : Option Tree) (type : Context → Option ResolvedType) : Walk :=
  match name with
  | none => .skip
  | some n => .update fun ctx => ctx.declare n.text (type ctx)

/-- Declare the parameters of a method. -/
def declareParams (params : List ParamDecl) (type : Context → ParamDecl → Option ResolvedType) :
    Walk :=
  .all (params.map fun p => .update fun ctx => ctx.declare p.name (type ctx p))

/-- Record a call in the method around it. -/
def recordCall (call : Tree) : Walk := .ask fun ctx =>
  match ctx.currentExecutable? with
  | none => .skip
  | some caller =>
    match index.resolveCall ctx call with
    | .ok callee => .put (Entry.call caller.signature callee) (some .calls)
    | .error e => .say [.unresolved call.startLine e]

/-- Record the class of a variable where it is used. The name of a type is no variable and no error
either. -/
def recordUse (t : Tree) : Walk := .ask fun ctx =>
  match ctx.currentExecutable? with
  | none => .skip
  | some method =>
    if (ctx.local? t.text).any (·.type.isNone) then .skip
    else
      match index.variableType ctx t.text with
      | .ok (.reference qualified _) =>
        if filter.excludes qualified then .skip
        else .put (Entry.use method.signature qualified) (some .uses)
      | .ok _ => .skip
      | .error e =>
        if (index.resolveName t.text ctx.scope).isSome then .skip
        else .say [.unresolved t.startLine e]

/-- The type of the variable of a `catch` clause: the first of the types it catches. -/
def caughtType (ctx : Context) (param : Tree) : Option ResolvedType := do
  let types ← param.childOfKind? "catch_type"
  let type ← WrittenType.ofTree? (← types.first?)
  knownType index ctx type

/-- The type of the variable of a loop over a value. -/
def loopType (ctx : Context) (type : Option WrittenType) (value : Option Tree) :
    Option ResolvedType := do
  let type ← type
  if type.isInferred then (← inferredType index ctx value).elementType?
    else knownType index ctx type

/-- The type of a resource, whose written type may be inferred from its value. -/
def resourceType (ctx : Context) (type : Tree) (value : Option Tree) : Option ResolvedType := do
  let type ← WrittenType.ofTree? type
  if type.isInferred then inferredType index ctx value else knownType index ctx type

/-- The type of a local variable, array levels after its name included. -/
def localType (ctx : Context) (type : Option WrittenType) (dims : Nat) (value : Option Tree) :
    Option ResolvedType := do
  let type ← type
  if type.isInferred then inferredType index ctx value
  else knownType index ctx (type.withDimensions dims)

/-- The type of a lambda parameter, unknown if it is inferred. -/
def lambdaParamType (ctx : Context) (param : Tree) : Option ResolvedType := do
  let type ← (param.child? "type").bind WrittenType.ofTree?
  if type.isInferred then none else knownType index ctx type

/-- Declare the parameters of a lambda. -/
def declareLambda (params : Tree) : Walk :=
  if params.kind = "identifier" then declare (some params) fun _ => none
  else .all <| params.named.map fun p =>
    if p.kind = "identifier" then declare (some p) fun _ => none
    else if p.kind = "formal_parameter" then
      declare (p.child? "name") fun ctx => lambdaParamType index ctx p
    else .skip

/-- Declare the fields of a local class as variables. -/
def declareFields (members : List Tree) : Walk :=
  .all <| (members.filter (·.kind == "field_declaration")).flatMap fun m =>
    (fieldDecls m).map fun f => .update fun ctx => ctx.declare f.name (knownType index ctx f.type)

/-- Walk one node of a method body; `isValue` says whether it stands for a value. -/
def visit (isValue : Bool) (t : Tree) : Walk :=
  match t.kind with
  | "block" | "constructor_body" | "switch_block" | "switch_block_statement_group"
  | "for_statement" | "try_with_resources_statement" =>
    .block (.all ((roles t).attach.map fun ⟨r, _⟩ => visit r.1 r.2))
  | "local_variable_declaration" =>
    let type := (t.child? "type").bind WrittenType.ofTree?
    .all <| (t.childrenOf "declarator").attach.map fun ⟨d, _⟩ =>
      match d.child? "name" with
      | none => .skip
      | some name =>
        let value := d.child? "value"
        let initial : Walk :=
          match _h : d.child? "value" with
          | none => .skip
          | some v => visit (fieldIsValue d "value") v
        .andThen initial <| declare (some name) fun ctx =>
          localType index ctx type (countDimensions (d.child? "dimensions")) value
  | "enhanced_for_statement" =>
    let value := t.child? "value"
    let iterated : Walk :=
      match _h : t.child? "value" with
      | none => .skip
      | some v => visit (fieldIsValue t "value") v
    let body : Walk :=
      match _h : t.child? "body" with
      | none => .skip
      | some b => visit (fieldIsValue t "body") b
    .andThen iterated <| .block <| .andThen
      (declare (t.child? "name") fun ctx =>
        loopType index ctx ((t.child? "type").bind WrittenType.ofTree?) value)
      body
  | "catch_clause" =>
    let body : Walk :=
      match _h : t.child? "body" with
      | none => .skip
      | some b => visit (fieldIsValue t "body") b
    let param : Walk :=
      match t.childOfKind? "catch_formal_parameter" with
      | none => .skip
      | some p => declare (p.child? "name") fun ctx => caughtType index ctx p
    .block (.andThen param body)
  | "resource" =>
    match t.child? "type", t.child? "name" with
    | some type, some name =>
      let value := t.child? "value"
      let initial : Walk :=
        match _h : t.child? "value" with
        | none => .skip
        | some v => visit (fieldIsValue t "value") v
      .andThen initial (declare (some name) fun ctx => resourceType index ctx type value)
    | _, _ => .all ((roles t).attach.map fun ⟨r, _⟩ => visit r.1 r.2)
  | "lambda_expression" =>
    let params : Walk :=
      match t.child? "parameters" with
      | none => .skip
      | some ps => declareLambda index ps
    let body : Walk :=
      match _h : t.child? "body" with
      | none => .skip
      | some b => visit (fieldIsValue t "body") b
    .block (.andThen params body)
  | "instanceof_expression" =>
    let inside : Walk := .all ((roles t).attach.map fun ⟨r, _⟩ => visit r.1 r.2)
    -- The variable stays visible to the end of the block around the expression.
    .andThen inside <|
      match t.child? "right", t.child? "name" with
      | some type, some name =>
        declare (some name) fun ctx => (WrittenType.ofTree? type).bind (knownType index ctx)
      | _, _ => .skip
  | "class_body" | "interface_body" | "enum_body" =>
    let members := bodyMembers t
    .block <| .andThen (declareFields index members) <| .all <|
      members.attach.map fun ⟨m, _⟩ =>
        match m.kind with
        | "method_declaration" | "constructor_declaration" =>
          let params : Walk :=
            match methodDecl? m with
            | none => .skip
            | some decl => declareParams decl.params fun ctx p => knownType index ctx p.type
          let body : Walk :=
            match _h : m.child? "body" with
            | none => .skip
            | some b => visit (fieldIsValue m "body") b
          .block (.andThen params body)
        | "field_declaration" =>
          .all <| (m.childrenOf "declarator").attach.map fun ⟨d, _⟩ =>
            match _h : d.child? "value" with
            | none => .skip
            | some v => visit (fieldIsValue d "value") v
        | _ => visit false m
  | "method_invocation" =>
    .andThen (recordCall index t) (.all ((roles t).attach.map fun ⟨r, _⟩ => visit r.1 r.2))
  | "identifier" => if isValue then recordUse index filter t else .skip
  | _ => .all ((roles t).attach.map fun ⟨r, _⟩ => visit r.1 r.2)
termination_by t.size
decreasing_by all_goals grind

/-! ## Declarations -/

/-- The qualified name of a supertype, or its description if it is no class type. -/
def supertypeName (ctx : Context) (type : Tree) : Except Unresolved String :=
  match WrittenType.ofTree? type with
  | none => .error ⟨type.text, .notType⟩
  | some written => do
    let resolved ← index.resolveType written ctx.scope
    return (resolved.qualified?).getD resolved.describe

/-- Record one supertype. -/
def recordSupertype (entry : String → Entry) (type : Tree) : Walk := .ask fun ctx =>
  match supertypeName index ctx type with
  | .ok name => .put (entry name) none
  | .error e => .say [.unresolved type.startLine e]

/-- Record the supertypes of a declaration. -/
def recordSupertypes (t : Tree) (kind : TypeKind) (qualified : String) : Walk :=
  let interface : String → Entry :=
    if kind = .interfaceKind then Entry.classExtends qualified else Entry.classImplements qualified
  .andThen
    (.all ((superclassTree? t).toList.map (recordSupertype index (Entry.classExtends qualified))))
      (.all ((interfaceTrees t kind).map (recordSupertype index interface)))

/-- The entry for a field of a resolved type; a field whose type is neither
primitive nor a class has none. -/
def fieldEntry? (owner name initial : String) (type : ResolvedType) : Option Entry :=
  let detail : FieldDetail := ⟨name, type.describe, initial⟩
  match type with
  | .primitive _ => some (Entry.fieldOf owner detail)
  | .reference qualified _ =>
    if filter.excludes qualified then some (Entry.fieldOf owner detail)
    else some (Entry.typedFieldOf owner detail qualified)
  | _ => none

/-- Record one field, declared by a tree. -/
def recordField (t : Tree) (owner name : String) (type : WrittenType) (initial : String) : Walk :=
  .ask fun ctx =>
    match index.resolveType type ctx.scope with
    | .error e => .say [.unresolved t.startLine e]
    | .ok resolved =>
      match fieldEntry? filter owner name initial resolved with
      | some entry => .put entry (some .fields)
      | none => .skip

/-- Record the fields of a declaration. -/
def recordFields (t : Tree) (owner : String) : Walk :=
  .all <| ((fieldDecls t).zip (t.childrenOf "declarator")).map fun (f, d) =>
    recordField index filter d owner f.name f.type (((d.child? "value").map Tree.text).getD "")

/-- Record the components of a record as fields. -/
def recordComponentFields (t : Tree) (owner : String) : Walk :=
  let components :=
    ((t.child? "parameters").elim [] Tree.named).filter (·.kind == "formal_parameter")
  .all <| components.map fun c =>
    match c.child? "type", c.child? "name" with
    | some type, some name =>
      match WrittenType.ofTree? type with
      | some written => recordField index filter c owner name.text written ""
      | none => .skip
    | _, _ => .skip

/-- The text of a method: its name, its written parameter types and its body. -/
def methodCode (decl : MethodDecl) (body : Option Tree) : String :=
  let params := decl.params.map fun p =>
    if p.varargs then p.type.written ++ "..." else p.type.written
  let head := decl.name ++ "(" ++ ", ".intercalate params ++ ")"
  match body with
  | some b => head ++ " " ++ Text.dedent b.text
  | none => head

/-- The type of a parameter inside the body. -/
def paramType (ctx : Context) (p : ParamDecl) : Option ResolvedType :=
  (knownType index ctx p.type).map fun type => if p.varargs then .array type else type

/-- Record a method or constructor and what its body does. -/
def recordMethod (file : String) (t : Tree) (owner : String) : Walk :=
  match methodDecl? t with
  | none => .say [.unresolved t.startLine ⟨t.text, .malformedDeclaration⟩]
  | some decl =>
    match index.signature owner decl with
    | .error e => .say [.unresolved t.startLine e]
    | .ok signature =>
      let body := t.child? "body"
      let detail : MethodDetail :=
        ⟨decl.name ++ "()", file, t.startLine, t.endLine, methodCode decl body⟩
      let membership :=
        if decl.isConstructor then Entry.constructorOf owner signature
        else Entry.methodOf owner signature
      let inside : Walk :=
        match body with
        | some b => visit index filter false b
        | none => .skip
      .guarded (Entry.method signature detail) .methods <| .andThen (.put membership none) <|
        .within (·.enterExecutable ⟨signature, decl.isConstructor⟩ decl.typeParams) <|
          .andThen (declareParams decl.params (paramType index)) inside

/-- Record a type declaration and its members. -/
def recordType (file : String) (outer : Option String) (t : Tree) : Walk :=
  match TypeKind.ofTreeKind? t.kind, t.child? "name" with
  | some kind, some name => .ask fun ctx =>
    let qualified := match outer with
      | some outer => outer ++ "." ++ name.text
      | none => ctx.file.qualify name.text
    let nesting : Walk := match outer with
      | some outer => .put (Entry.nestedClass outer qualified) none
      | none => .skip
    let components : Walk :=
      if kind = .recordKind then recordComponentFields index filter t qualified else .skip
    let members : Walk :=
      match _h : t.child? "body" with
      | none => .skip
      | some body => .all <| (bodyMembers body).attach.map fun ⟨m, _⟩ =>
        match m.kind with
        | "field_declaration" | "constant_declaration" => recordFields index filter m qualified
        | "method_declaration" | "constructor_declaration" =>
          recordMethod index filter file m qualified
        | _ => recordType file (some qualified) m
    .guarded (Entry.classType qualified kind.name) .classes <|
      .andThen (.put (Entry.classIn file qualified) none) <| .andThen nesting <|
        .within (·.enterClass qualified (typeParameters t)) <|
          .andThen (recordSupertypes index t kind qualified) <| .andThen components members
  | _, _ => .skip
termination_by t.size
decreasing_by all_goals grind

/-- Record one top-level child of a file. -/
def recordChild (file : String) (t : Tree) : Walk :=
  match t.kind with
  | "package_declaration" =>
    match qualifiedName? t with
    | some name => .put (Entry.packageOf file name) none
    | none => .skip
  | "import_declaration" =>
    match qualifiedName? t with
    | some name => .put (Entry.importOf file name) none
    | none => .skip
  | _ => recordType index filter file none t

/-- Everything a file has to say about the code. -/
def extract (file : SourceFile) : List Step :=
  let scope := (index.fileScope? file.path).getD (collectFile file.path file.root).1
  let walk := Walk.all (file.root.named.map (recordChild index filter file.path))
  (walk (Context.ofFile scope)).2

end

/-! ## Running the steps -/

/-- A symbol that could not be resolved, with its line. -/
structure Diagnostic where
  line : Nat
  what : Unresolved
deriving DecidableEq, Inhabited

/-- What one file added to the graph. -/
structure FileReport where
  path : String
  classes : Nat := 0
  methods : Nat := 0
  fields : Nat := 0
  calls : Nat := 0
  uses : Nat := 0
  unresolved : List Diagnostic := []
deriving DecidableEq, Inhabited

def FileReport.count (r : FileReport) : Option Tally → FileReport
  | none => r
  | some .classes => { r with classes := r.classes + 1 }
  | some .methods => { r with methods := r.methods + 1 }
  | some .fields => { r with fields := r.fields + 1 }
  | some .calls => { r with calls := r.calls + 1 }
  | some .uses => { r with uses := r.uses + 1 }

mutual

/-- Run one step. -/
def Step.run : Step → Ledger × FileReport → Ledger × FileReport
  | .unresolved line what, (ledger, report) =>
    (ledger, { report with unresolved := report.unresolved ++ [⟨line, what⟩] })
  | .put entry tally inside, (ledger, report) =>
    match entry.record ledger with
    | (true, ledger) => runAll inside (ledger, report.count tally)
    | (false, ledger) => (ledger, report)

/-- Run steps in order. -/
def runAll : List Step → Ledger × FileReport → Ledger × FileReport
  | [], acc => acc
  | s :: rest, acc => runAll rest (s.run acc)

end

/-- The entry for a file itself. -/
def fileEntry (path : String) : Entry :=
  match Path.parent? path with
  | some directory => Entry.fileIn directory path
  | none => Entry.file path

/-- Write a file and what it says about the code; nothing for a file that is no Java source. -/
def processFile (index : ProjectIndex) (filter : NamespaceFilter) (file : SourceFile)
    (ledger : Ledger) : Option (Ledger × FileReport) :=
  if Path.isJavaSource file.path then
    let (_, ledger) := (fileEntry file.path).record ledger
    some (runAll (extract index filter file) (ledger, { path := file.path }))
  else none

end CodeGraph.Java
