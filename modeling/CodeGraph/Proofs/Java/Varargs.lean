import CodeGraph.Proofs.Java.Entered
import CodeGraph.Proofs.Java.Inherited

/-!
# Variadic parameters as variables

A parameter `T... x` holds an array of `T`. A declaration keeps the type `T` of one argument, so
whatever makes a variable of the parameter has to put the array around it.

* `looksUp_of_mem_visit`, `Context.means_iff`: a body looks up its variables in contexts that go on
  from its start, and there a name means what it means at the start until it is declared again.
* `variadic_lookups`: in the bodies of named types the parameter is an array. In the bodies of local
  and anonymous classes it has the type of one argument, and so have the field and the accessor of a
  component of a record.

So variables of the latter two sorts are no arrays (`not_array_variadicFile`).
-/

namespace CodeGraph.Java

open ProjectIndex

variable {index : ProjectIndex} {filter : NamespaceFilter} {start ctx : Context} {more : List Local}
  {t m b : Tree} {q name : String} {type : ResolvedType} {decl : MethodDecl} {p : ParamDecl}

/-! ## Contexts further on -/

/-- The walk is further on in the same class and the same method, and `more` was declared since. -/
structure Context.Extends (start ctx : Context) (more : List Local) : Prop where
  scope : ctx.scope = start.scope
  executable : ctx.currentExecutable? = start.currentExecutable?
  locals : ctx.locals = start.locals ++ more

theorem Context.Extends.refl (start : Context) : start.Extends start [] :=
  ⟨rfl, rfl, (List.append_nil _).symm⟩

theorem Context.stays_extends (start : Context) :
    Context.Stays fun ctx => ∃ more, start.Extends ctx more where
  withLocals locals := by
    rintro ⟨more, h⟩
    exact ⟨more ++ locals, h.scope, h.executable,
      by rw [Context.withLocals, h.locals, List.append_assoc]⟩
  enterBlock := by
    rintro ctx ⟨more, h⟩
    exact ⟨more, h.scope, h.executable, h.locals⟩

/-- **A name means what it meant before** until it is declared again. -/
theorem Context.Extends.variableType_eq (h : start.Extends ctx more)
    (hnew : ∀ l ∈ more, l.name ≠ name) :
    index.variableType ctx name = index.variableType start name := by
  have hnone : more.reverse.find? (·.name == name) = none := by
    simpa using fun l hl => hnew l hl
  have hlocal : ctx.local? name = start.local? name := by
    rw [Context.local?, h.locals, List.reverse_append, List.find?_append, hnone, Option.none_or,
      Context.local?]
  have hclasses : ctx.classes = start.classes := congrArg TypeScope.enclosing h.scope
  rw [variableType, variableType, hlocal, hclasses]

/-- From here on the name means a variable of the type until it is declared again. -/
def Context.Means (start : Context) (index : ProjectIndex) (name : String)
    (type : ResolvedType) : Prop :=
  ∀ ctx more, start.Extends ctx more → (∀ l ∈ more, l.name ≠ name) →
    index.variableType ctx name = .ok type

theorem Context.means_iff : start.Means index name type ↔
    index.variableType start name = .ok type :=
  ⟨fun h => h start [] (.refl start) nofun, fun h _ _ hctx hnew =>
    (hctx.variableType_eq hnew).trans h⟩

/-- The step comes from looking up a call or a variable in `b`, in a context that
extends `start`. -/
def LooksUp (index : ProjectIndex) (filter : NamespaceFilter) (start : Context) (b : Tree)
    (s : Step) : Prop :=
  ∃ n ctx more, n.Within b ∧ start.Extends ctx more ∧
    (n.kind = "method_invocation" ∧ s ∈ (recordCall index n ctx).2 ∨
      n.kind = "identifier" ∧ s ∈ (recordUse index filter n ctx).2)

theorem Walk.Restores.keepsIn {w : Walk} (h : w.Restores) {I : Context → Prop} {P : Step → Prop}
    (hsteps : ∀ ctx, I ctx → ∀ s ∈ (w ctx).2, P s) : w.KeepsIn I P :=
  fun ctx hctx => ⟨⟨[], by rw [h ctx, Context.withLocals, List.append_nil]⟩, hsteps ctx hctx⟩

/-- **Whatever a body says, it says after looking something up** in a context that
goes on from its start. -/
theorem looksUp_of_mem_visit {isValue : Bool} {s : Step}
    (hs : s ∈ (visit index filter isValue b start).2) :
    LooksUp index filter start b s := by
  refine (visit_keepsIn filter (Context.stays_extends start) (fun n hn hkind => ?_)
    (fun n hn hkind => ?_) start ⟨[], .refl start⟩).2 s hs
  · exact (restores_recordCall n).keepsIn fun ctx ⟨more, hctx⟩ s hs =>
      ⟨n, ctx, more, hn, hctx, .inl ⟨hkind, hs⟩⟩
  · exact (restores_recordUse n).keepsIn fun ctx ⟨more, hctx⟩ s hs =>
      ⟨n, ctx, more, hn, hctx, .inr ⟨hkind, hs⟩⟩

/-! ## Bodies -/

/-- No later parameter has the same name. -/
def ParamDecl.LastIn (p : ParamDecl) (params : List ParamDecl) : Prop :=
  params.reverse.find? (·.name == p.name) = some p

/-- No earlier parameter has the same name. -/
def ParamDecl.FirstIn (p : ParamDecl) (params : List ParamDecl) : Prop :=
  params.find? (·.name == p.name) = some p

/-- What is declared last under a name is what it means. -/
theorem variableType_withLocals_params {params : List ParamDecl} (h : p.LastIn params)
    (typeOf : ParamDecl → Option ResolvedType) (htype : typeOf p = some type) :
    index.variableType (ctx.withLocals (params.map fun p => ⟨p.name, typeOf p⟩)) p.name =
      .ok type := by
  have hfind : (params.map fun p => (⟨p.name, typeOf p⟩ : Local)).reverse.find? (·.name == p.name) =
      some ⟨p.name, some type⟩ := by
    rw [← List.map_reverse, List.find?_map]
    change (params.reverse.find? (·.name == p.name)).map _ = _
    rw [h, Option.map_some, htype]
  have hlocal : (ctx.withLocals (params.map fun p => ⟨p.name, typeOf p⟩)).local? p.name =
      some ⟨p.name, some type⟩ := by
    rw [Context.local?, Context.withLocals, List.reverse_append, List.find?_append, hfind,
      Option.some_or]
  rw [variableType, hlocal]

/-- In the body of a method of a named type a variadic parameter is an array. -/
theorem variableType_startOfBody {signature : String} (h : p.LastIn decl.params)
    (htype : index.resolveType p.type (startOfBody index decl signature ctx).scope = .ok type) :
    index.variableType (startOfBody index decl signature ctx) p.name =
      .ok (if p.varargs then .array type else type) := by
  rw [startOfBody_eq] at htype ⊢
  refine variableType_withLocals_params h _ ?_
  rw [paramType, knownType]
  exact congrArg (Option.map _ <| Except.toOption ·) htype

/-- The context at the start of a method of a local or anonymous class: in a block,
its parameters declared. -/
def startOfLocalBody (index : ProjectIndex) (decl : MethodDecl) (ctx : Context) : Context :=
  (declareParams decl.params (fun ctx p => knownType index ctx p.type) ctx.enterBlock).1

theorem startOfLocalBody_eq (index : ProjectIndex) (decl : MethodDecl) (ctx : Context) :
    startOfLocalBody index decl ctx =
      ctx.enterBlock.withLocals (decl.params.map fun p =>
        ⟨p.name, knownType index ctx p.type⟩) := by
  rw [startOfLocalBody, declareParams_eq fun _ _ _ => rfl]
  rfl

/-- In the body of a method of a local class every parameter has its declared type. -/
theorem variableType_startOfLocalBody (h : p.LastIn decl.params)
    (htype : index.resolveType p.type ctx.scope = .ok type) :
    index.variableType (startOfLocalBody index decl ctx) p.name = .ok type := by
  rw [startOfLocalBody_eq]
  refine variableType_withLocals_params h _ ?_
  rw [knownType, htype]
  rfl

/-- What a walk says is said in the course of a list of walks, after some declarations. -/
theorem Walk.exists_infix_all {w : Walk} {ws : List Walk} (hw : w ∈ ws)
    (hkeeps : ∀ w ∈ ws, w.KeepsIn (fun _ => True) fun _ => True) (ctx : Context) :
    ∃ locals, (w (ctx.withLocals locals)).2 <:+: (Walk.all ws ctx).2 := by
  induction ws generalizing ctx with
  | nil => cases hw
  | cons first rest ih =>
    obtain ⟨locals, hlocals⟩ := (hkeeps first List.mem_cons_self ctx trivial).1
    have hsteps : (Walk.all (first :: rest) ctx).2 =
        (first ctx).2 ++ (Walk.all rest (ctx.withLocals locals)).2 := by
      simp only [Walk.all, Walk.andThen, hlocals]
    rw [hsteps]
    rcases List.mem_cons.1 hw with rfl | hw
    · exact ⟨[], by simpa [Context.withLocals] using List.infix_append [] _ _⟩
    · obtain ⟨later, hlater⟩ :=
        ih hw (fun w hw => hkeeps w (List.mem_cons_of_mem _ hw)) (ctx.withLocals locals)
      refine ⟨locals ++ later, ?_⟩
      have hboth : ctx.withLocals (locals ++ later) = (ctx.withLocals locals).withLocals later := by
        simp [Context.withLocals]
      rw [hboth]
      exact hlater.trans (List.suffix_append _ _).isInfix

/-- Walking a method of a local class is visiting its body from its start. -/
theorem steps_visitMember (hdecl : methodDecl? m = some decl) (hb : m.child? "body" = some b)
    (ctx : Context) :
    (visitMember index filter m ctx).2 =
      (visit index filter false b (startOfLocalBody index decl ctx)).2 := by
  have hparams (ctx : Context) :
      (declareParams decl.params (fun ctx p => knownType index ctx p.type) ctx).2 = [] := by
    rw [declareParams_eq fun _ _ _ => rfl]
  unfold visitMember
  rcases kind_of_methodDecl? hdecl with hkind | hkind
  all_goals
    have hvalue : fieldIsValue m "body" = false := by
      rw [fieldIsValue, hkind]
      rfl
    simp only [hkind, hdecl, Walk.block, Walk.within, Walk.andThen, hparams, List.nil_append,
      visitChild, hb, Option.elim_some, hvalue, startOfLocalBody]

/-- A visit only declares variables. -/
theorem visit_declares (isValue : Bool) (t : Tree) :
    (visit index filter isValue t).KeepsIn (fun _ => True) fun _ => True :=
  fun ctx _ => ⟨(visit_keeps filter isValue t ctx rfl rfl).1, fun _ _ => trivial⟩

/-- The visit of a local class visits the bodies of its methods. -/
theorem exists_infix_visit_localBody (filter : NamespaceFilter) (isValue : Bool)
    (ht : t.IsLocalBody) (hm : m ∈ bodyMembers t) (hdecl : methodDecl? m = some decl)
    (hb : m.child? "body" = some b) (ctx : Context) :
    ∃ locals, (visit index filter false b
      (startOfLocalBody index decl (ctx.enterBlock.withLocals locals))).2 <:+:
      (visit index filter isValue t ctx).2 := by
  have hstays : Context.Stays fun _ => True := ⟨fun _ _ => trivial, fun _ => trivial⟩
  have hmembers : ∀ w ∈ (bodyMembers t).map (visitMember index filter),
      w.KeepsIn (fun _ => True) fun _ => True := by
    intro w hw
    obtain ⟨m, -, rfl⟩ := List.mem_map.1 hw
    exact visitMember_keepsIn filter hstays fun _ v => visit_declares v _
  have hdeclares : (declareFields index (bodyMembers t)).KeepsIn (fun _ => True) fun _ => True :=
    declareFields_keepsIn hstays _
  obtain ⟨fields, hfields⟩ := (hdeclares ctx.enterBlock trivial).1
  obtain ⟨locals, hinfix⟩ := Walk.exists_infix_all (List.mem_map_of_mem hm) hmembers
    (ctx.enterBlock.withLocals fields)
  have hboth : (ctx.enterBlock.withLocals fields).withLocals locals =
      ctx.enterBlock.withLocals (fields ++ locals) := by
    simp [Context.withLocals]
  rw [hboth, steps_visitMember hdecl hb] at hinfix
  refine ⟨fields ++ locals, hinfix.trans ?_⟩
  rw [visit_localBody filter ht]
  simp only [Walk.block, Walk.within, Walk.andThen, hfields]
  exact (List.suffix_append _ _).isInfix

/-! ## Records -/

theorem exists_readFrom_of_mem_foldl {file : String} {cs : List Tree}
    {acc : FileScope × List TypeDecl} (hacc : ∀ decl ∈ acc.2, ∃ d, decl.ReadFrom d) :
    ∀ decl ∈ (cs.foldl (collectChild file) acc).2, ∃ d, decl.ReadFrom d := by
  induction cs generalizing acc with
  | nil => exact hacc
  | cons c cs ih =>
    refine ih fun decl hdecl => ?_
    unfold collectChild at hdecl
    dsimp only at hdecl
    split at hdecl
    · exact hacc decl hdecl
    · split at hdecl
      · exact hacc decl hdecl
      · split at hdecl
        · exact hacc decl hdecl
        · split at hdecl <;> exact hacc decl hdecl
    · rcases List.mem_append.1 hdecl with hdecl | hdecl
      · exact hacc decl hdecl
      · obtain ⟨d, -, hread⟩ := mem_collectType hdecl
        exact ⟨d, hread⟩

/-- The index has every declaration from some tree. -/
theorem exists_readFrom_of_get? {files : List SourceFile} {decl : TypeDecl}
    (h : (ProjectIndex.build files).get? q = some decl) :
    decl.qualified = q ∧ ∃ d, decl.ReadFrom d := by
  obtain ⟨hq, file, -, hdecl⟩ := get?_build_eq_some h
  exact ⟨hq, exists_readFrom_of_mem_foldl (fun _ hd => absurd hd List.not_mem_nil) decl hdecl⟩

theorem exists_hierarchy_eq_cons (index : ProjectIndex) (q : String) :
    ∃ above, index.hierarchy q = q :: above := by
  cases hhierarchy : index.hierarchy? q with
  | none => exact ⟨[], by rw [hierarchy, hhierarchy, Option.getD_none]⟩
  | some types =>
    have hhead : (index.hierarchy q).head? = some q := head?_hierarchy (by rw [hhierarchy]; rfl)
    exact List.head?_eq_some_iff.1 hhead

section

variable {d : Tree} {declared : TypeDecl} (hget : index.get? q = some declared)
  (hread : declared.ReadFrom d) (hrecord : declared.kind = .recordKind)
  (hp : p.FirstIn (recordComponents d .recordKind))

include hget hread hrecord hp

/-- A component of a record is a field of the declared type. -/
theorem findField?_component : index.findField? q p.name = some (declared, ⟨p.name, p.type⟩) := by
  have hfield : declared.fields.find? (·.name == p.name) = some ⟨p.name, p.type⟩ := by
    rw [hread.fields, hrecord, fieldsOf, List.find?_append, List.find?_map]
    change (((recordComponents d .recordKind).find? (·.name == p.name)).map _).or _ = _
    rw [hp]
    rfl
  have hdeclares : index.declaresField p.name q := by
    rw [declaresField, hget, Option.any_some, ← List.isSome_find?, hfield]
    rfl
  obtain ⟨above, habove⟩ := exists_hierarchy_eq_cons index q
  refine findField?_eq_some_iff.2 ⟨q, ?_, hget, hfield⟩
  rw [habove, List.find?_cons, hdeclares]

/-- In a record the name of a component means its field, unless something nearer has the name. -/
theorem variableType_component (hq : declared.qualified = q) {outer inner : List String}
    (hclasses : ctx.classes = outer ++ q :: inner)
    (hinner : ∀ c ∈ inner, index.findField? c p.name = none) (hlocal : ctx.local? p.name = none)
    (htype : index.resolveType p.type (index.memberScope q) = .ok type) :
    index.variableType ctx p.name = .ok type := by
  have hfield : index.fieldTypeIn p.name (q :: outer.reverse) = .ok type := by
    rw [fieldTypeIn, findField?_component hget hread hrecord hp]
    dsimp only
    rw [fieldType, hq]
    exact htype
  have hskip (cs : List String) (hcs : ∀ c ∈ cs, index.findField? c p.name = none)
      (rest : List String) :
      index.fieldTypeIn p.name (cs ++ rest) = index.fieldTypeIn p.name rest := by
    induction cs with
    | nil => rfl
    | cons c cs ih =>
      rw [List.cons_append, fieldTypeIn, hcs c List.mem_cons_self]
      exact ih fun c' hc' => hcs c' (List.mem_cons_of_mem _ hc')
  have hreverse : ctx.classes.reverse = inner.reverse ++ q :: outer.reverse := by
    simp [hclasses]
  rw [variableType, hlocal, hreverse, hskip _ fun c hc => hinner c (List.mem_reverse.1 hc)]
  exact hfield

/-- The accessor of a component is what a call of its name without arguments may mean. -/
theorem accessor_mem_candidates : ⟨declared, accessor p⟩ ∈ index.candidates q p.name 0 := by
  have hmethod : (declared.methods.filter fun m =>
      !m.isConstructor && m.name == p.name && m.accepts 0).find? (fun m =>
        m.params.map ParamDecl.written == []) = some (accessor p) := by
    rw [List.find?_filter, hread.methods, hrecord, methodsOf, List.find?_append, List.find?_map]
    have hname (m : ParamDecl) :
        decide ((!(accessor m).isConstructor && (accessor m).name == p.name &&
            (accessor m).accepts 0) = true ∧
          ((accessor m).params.map ParamDecl.written == []) = true) = (m.name == p.name) := by
      simp [accessor, MethodDecl.accepts, MethodDecl.isVariadic, beq_eq_decide]
    simp only [Function.comp_def, hname]
    rw [hp]
    rfl
  have hcallable : (index.callable p.name 0 q).find? (·.written == []) =
      some ⟨declared, accessor p⟩ := by
    rw [callable, hget]
    dsimp only
    rw [List.find?_map]
    exact congrArg (Option.map (Member.mk declared)) hmethod
  have hdeclares : index.declaresMethod p.name 0 [] q := by
    rw [declaresMethod, ← List.isSome_find?, hcallable]
    rfl
  obtain ⟨above, habove⟩ := exists_hierarchy_eq_cons index q
  refine mem_candidates_iff.2 ⟨q, ?_, hcallable⟩
  rw [habove]
  exact List.find?_cons_of_pos hdeclares

end

/-- The accessor of a component returns a value of the declared type. -/
theorem returnType_accessor {declared : TypeDecl} (hq : declared.qualified = q)
    (htype : index.resolveType p.type (index.memberScope q) = .ok type) :
    index.returnType ⟨declared, accessor p⟩ none = .ok type := by
  have hmember : index.resolveInMember q p.type [] = .ok type := by
    rw [resolveInMember, TypeScope.withTypeVars, List.append_nil]
    exact htype
  rw [returnType]
  dsimp only [accessor]
  rw [hq, hmember]
  rfl

/-! ## Lookups -/

/-- **What a variadic parameter is as a variable.** Whatever the visit of a body says, it says after
looking up a call or a variable in a context that goes on from the start of the body. In the body of
a method or constructor of a named type a variadic parameter means an array of its declared type. In
the body of a method of a local or anonymous class it means that type itself, as any other parameter
does, and so it does as a component of a record: such are the field that its name means inside and
the accessor that a call of it may mean. -/
theorem variadic_lookups (files : List SourceFile) (filter : NamespaceFilter) :
    let index := ProjectIndex.build files
    (∀ isValue b start, ∀ s ∈ (visit index filter isValue b start).2,
      LooksUp index filter start b s) ∧
    (∀ (file : SourceFile) q m decl signature start, file.Enters index q m decl signature start →
      ∀ (p : ParamDecl) type, p.LastIn decl.params →
        index.resolveType p.type start.scope = .ok type →
        start.Means index p.name (if p.varargs then .array type else type)) ∧
    (∀ t m decl b isValue ctx, t.IsLocalBody → m ∈ bodyMembers t → methodDecl? m = some decl →
      m.child? "body" = some b → ∃ start : Context, start.scope = ctx.scope ∧
        (visit index filter false b start).2 <:+: (visit index filter isValue t ctx).2 ∧
        ∀ (p : ParamDecl) type, p.LastIn decl.params →
          index.resolveType p.type ctx.scope = .ok type →
          start.Means index p.name type) ∧
    ∀ q decl, index.get? q = some decl → decl.kind = .recordKind → (∃ d, decl.ReadFrom d) ∧
      ∀ d, decl.ReadFrom d → ∀ (p : ParamDecl) type, p.FirstIn (recordComponents d .recordKind) →
        index.resolveType p.type (index.memberScope q) = .ok type →
        (∀ (ctx : Context) outer inner, ctx.classes = outer ++ q :: inner →
          (∀ c ∈ inner, index.findField? c p.name = none) → ctx.local? p.name = none →
          index.variableType ctx p.name = .ok type) ∧
        ⟨decl, accessor p⟩ ∈ index.candidates q p.name 0 ∧
        index.returnType ⟨decl, accessor p⟩ none = .ok type := by
  intro index
  refine ⟨fun isValue b start s hs => looksUp_of_mem_visit hs, ?_, ?_, ?_⟩
  · rintro file q m decl signature start ⟨ctx, outer, d, -, -, -, -, rfl⟩ p type hp htype
    exact Context.means_iff.2 (variableType_startOfBody hp htype)
  · intro t m decl b isValue ctx ht hm hdecl hb
    obtain ⟨locals, hinfix⟩ := exists_infix_visit_localBody filter isValue ht hm hdecl hb ctx
    refine ⟨_, ?_, hinfix, fun p type hp htype =>
      Context.means_iff.2 (variableType_startOfLocalBody hp htype)⟩
    rw [startOfLocalBody_eq]
    rfl
  · intro q decl hget hrecord
    obtain ⟨hq, hexists⟩ := exists_readFrom_of_get? hget
    refine ⟨hexists, fun d hread p type hp htype =>
      ⟨fun ctx outer inner hclasses hinner hlocal => ?_, ?_, ?_⟩⟩
    · exact variableType_component hget hread hrecord hp hq hclasses hinner hlocal htype
    · exact accessor_mem_candidates hget hread hrecord hp
    · exact returnType_accessor hq htype

/-- `B... x` in parentheses. -/
def variadicParameters : Tree :=
  .mk "formal_parameters" true "parameters" "" 1 1
    [.mk "spread_parameter" true "" "" 1 1
      [.mk "type_identifier" true "" "B" 1 1 [],
       .mk "variable_declarator" true "" "" 1 1 [.mk "identifier" true "name" "x" 1 1 []]]]

/-- `{ f(x); }` -/
def blockOfVariable : Tree :=
  .mk "block" true "body" "" 1 1
    [.mk "method_invocation" true "" "f(x)" 1 1
      [.mk "identifier" true "name" "f" 1 1 [],
       .mk "argument_list" true "arguments" "(x)" 1 1 [.mk "identifier" true "" "x" 1 1 []]]]

/-- A method without a result. -/
def methodWith (name : String) (parameters body : Tree) : Tree :=
  .mk "method_declaration" true "" "" 1 1
    [.mk "void_type" true "type" "void" 1 1 [], .mk "identifier" true "name" name 1 1 [],
      parameters, body]

/-- `{ void k(B... x) { f(x); } }` -/
def anonymousBody : Tree :=
  .mk "class_body" true "" "" 1 1 [methodWith "k" variadicParameters blockOfVariable]

/-- `class A { void m(B... x) { f(x); } void n() { new T() { void k(B... x) { f(x); } }; } }` -/
def variadicClass : Tree :=
  .mk "class_declaration" true "" "" 1 1
    [.mk "identifier" true "name" "A" 1 1 [],
     .mk "class_body" true "body" "" 1 1
      [methodWith "m" variadicParameters blockOfVariable,
       methodWith "n" (.mk "formal_parameters" true "parameters" "" 1 1 []) <|
        .mk "block" true "body" "" 1 1
          [.mk "object_creation_expression" true "" "" 1 1
            [.mk "type_identifier" true "type" "T" 1 1 [], anonymousBody]]]]

/-- `record R(B... x) {}` -/
def variadicRecord : Tree :=
  .mk "record_declaration" true "" "" 1 1
    [.mk "identifier" true "name" "R" 1 1 [], variadicParameters,
      .mk "class_body" true "body" "" 1 1 []]

/-- The class and the record in one file with `class B {}`, without the parts that nothing reads. -/
def variadicFile : SourceFile where
  path := "/p/A.java"
  root := .mk "program" true "" "" 1 1
    [variadicClass, variadicRecord,
     .mk "class_declaration" true "" "" 1 1
      [.mk "identifier" true "name" "B" 1 1 [], .mk "class_body" true "body" "" 1 1 []]]

/-- What is computed of parameters determines the only one. -/
theorem exists_eq_singleton {params : List ParamDecl} {scope : TypeScope} (h : params.map (fun p =>
    (p.name, p.varargs, (index.resolveType p.type scope).toOption)) = [(name, true, some type)]) :
    ∃ p, params = [p] ∧ p.name = name ∧ p.varargs = true ∧
      index.resolveType p.type scope = .ok type := by
  obtain ⟨p, hone, hp⟩ := List.map_eq_singleton_iff.1 h
  obtain ⟨hname, hvarargs, htype⟩ : p.name = name ∧ p.varargs = true ∧
      (index.resolveType p.type scope).toOption = some type := by simpa using hp
  refine ⟨p, hone, hname, hvarargs, ?_⟩
  cases hresolved : index.resolveType p.type scope with
  | error e => rw [hresolved] at htype; cases htype
  | ok resolved =>
    rw [hresolved] at htype
    exact congrArg Except.ok (Option.some.inj htype)

theorem reaches_variadicClass :
    variadicFile.Reaches (.build [variadicFile]) (.ofFile {}) none "A" variadicClass := by
  have hscope : walkScope (.build [variadicFile]) variadicFile = {} := by decide +kernel
  refine ⟨variadicClass, List.mem_cons_self, ?_⟩
  have hname : variadicClass.child? "name" = some (.mk "identifier" true "name" "A" 1 1 []) := rfl
  rw [hscope]
  exact .self rfl hname

theorem exists_get?_variadicRecord :
    ∃ decl, (ProjectIndex.build [variadicFile]).get? "R" = some decl ∧
      decl.ReadFrom variadicRecord := by
  have hname : variadicRecord.child? "name" = some (.mk "identifier" true "name" "R" 1 1 []) := rfl
  have hfirst : PackageFirst variadicFile.root := by decide +kernel
  have hdeclares :
      variadicFile.Declares joinName
        (joinName (variadicFile.scope.package.getD "")) "R" variadicRecord :=
    ⟨variadicRecord, List.mem_cons_of_mem _ List.mem_cons_self, .self rfl hname⟩
  obtain ⟨decl, hdecl, hq, hread⟩ := exists_mem_collectFile hfirst hdeclares
  have hget := get?_build_of_nodup (by decide +kernel) (List.mem_singleton_self variadicFile) hdecl
  rw [hq] at hget
  exact ⟨decl, hget, hread⟩

/-- In `A.m` the variable is an array, in the anonymous class and in the record it is a `B`. -/
theorem variadic_lookups_variadicFile :
    let index := ProjectIndex.build [variadicFile]
    let inA := (Context.ofFile {}).enterClass "A" []
    (∃ m decl start, variadicFile.Enters index "A" m decl "A.m(B...)" start ∧
      start.Means index "x" (.array (.ofClass "B"))) ∧
    (∃ start : Context,
      (visit index ⟨[]⟩ false blockOfVariable start).2 <:+:
        (visit index ⟨[]⟩ false anonymousBody inA).2 ∧
      start.Means index "x" (.ofClass "B")) ∧
    index.variableType ((Context.ofFile {}).enterClass "R" []) "x" = .ok (.ofClass "B") ∧
    ∃ c ∈ index.candidates "R" "x" 0, index.returnType c none = .ok (.ofClass "B") := by
  intro index inA
  obtain ⟨-, hnamed, hlocal, hrecord⟩ := variadic_lookups [variadicFile] ⟨[]⟩
  refine ⟨?_, ?_, ?_⟩
  · let m := methodWith "m" variadicParameters blockOfVariable
    have hmethod : (methodDecl? m).map (fun decl =>
        (index.signature "A" decl, decl.params.map fun p => (p.name, p.varargs,
          (index.resolveType p.type (startOfBody index decl "A.m(B...)" inA).scope).toOption))) =
        some (.ok "A.m(B...)", [("x", true, some (.ofClass "B"))]) := by decide +kernel
    obtain ⟨decl, hdecl, hcomputed⟩ := Option.map_eq_some_iff.1 hmethod
    obtain ⟨hsignature, hparams⟩ := Prod.mk.inj hcomputed
    obtain ⟨p, hone, hname, hvarargs, htype⟩ := exists_eq_singleton hparams
    have henters :
        variadicFile.Enters index "A" m decl "A.m(B...)" (startOfBody index decl "A.m(B...)" inA) :=
      ⟨_, none, variadicClass, reaches_variadicClass, List.mem_cons_self, hdecl, hsignature, rfl⟩
    have hmeans := hnamed _ _ _ _ _ _ henters p _ (by rw [hone]; simp [ParamDecl.LastIn]) htype
    rw [hname, hvarargs] at hmeans
    exact ⟨m, decl, _, henters, hmeans⟩
  · let m := methodWith "k" variadicParameters blockOfVariable
    obtain ⟨decl, hdecl, hparams⟩ := Option.map_eq_some_iff.1 (show (methodDecl? m).map (fun decl =>
      decl.params.map fun p => (p.name, p.varargs, (index.resolveType p.type inA.scope).toOption)) =
        some [("x", true, some (.ofClass "B"))] by decide +kernel)
    obtain ⟨p, hone, hname, -, htype⟩ := exists_eq_singleton hparams
    obtain ⟨start, -, hinfix, hmeans⟩ :=
      hlocal anonymousBody m decl blockOfVariable false inA (.inl rfl) List.mem_cons_self hdecl rfl
    have hx := hmeans p _ (by rw [hone]; simp [ParamDecl.LastIn]) htype
    rw [hname] at hx
    exact ⟨start, hinfix, hx⟩
  · obtain ⟨decl, hget, hread⟩ := exists_get?_variadicRecord
    have hkind : decl.kind = .recordKind := Option.some.inj hread.kind.symm
    obtain ⟨p, hone, hname, -, htype⟩ := exists_eq_singleton (show (recordComponents variadicRecord
      .recordKind).map (fun p => (p.name, p.varargs, (index.resolveType p.type
        (index.memberScope "R")).toOption)) = [("x", true, some (.ofClass "B"))] by decide +kernel)
    obtain ⟨hfield, haccessor, hreturn⟩ := (hrecord "R" decl hget hkind).2 variadicRecord hread p _
      (by rw [hone]; simp [ParamDecl.FirstIn]) htype
    rw [← hname]
    exact ⟨hfield _ [] [] rfl nofun rfl, _, haccessor, hreturn⟩

/-- The variable of the anonymous class is no array, so the call there uses `B`, which the call in
`A.m` does not. The field of the record is no array either, and its accessor returns none. -/
theorem not_array_variadicFile :
    let index := ProjectIndex.build [variadicFile]
    let inA := (Context.ofFile {}).enterClass "A" []
    let inR := (Context.ofFile {}).enterClass "R" []
    let written := writtenAll (fun _ => true) (extract index ⟨[]⟩ variadicFile)
    (methodDecl? (methodWith "k" variadicParameters blockOfVariable)).map (fun decl =>
        (decl.params.map (·.varargs), index.variableType (startOfLocalBody index decl inA) "x")) =
      some ([true], .ok (.ofClass "B")) ∧
    .edge ⟨.method, "A.n()"⟩ ⟨.classType, "B"⟩ .usesClass ∈ written ∧
    .edge ⟨.method, "A.m(B...)"⟩ ⟨.classType, "B"⟩ .usesClass ∉ written ∧
    (recordComponents variadicRecord .recordKind).map (·.varargs) = [true] ∧
    index.variableType inR "x" ≠ .ok (.array (.ofClass "B")) ∧
    (index.candidates "R" "x" 0).map (index.returnType · none) = [.ok (.ofClass "B")] := by
  decide +kernel

end CodeGraph.Java
