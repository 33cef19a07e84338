import CodeGraph.Proofs.Java.Events
import CodeGraph.Proofs.Java.Written

/-!
# Members on their own

The walk of a type goes from member to member, each time from one and the same context, since
what is entered for a member is left again and what it declares is forgotten
(`restores_recordMember`). So a body writes and reports what its members write and report one by
one (`Yields.flatMap`), and a call or a use belongs to the method whose body it stands in,
however deep in lambdas and local classes (`RefersIn`).

* `startOfBody`, `SourceFile.Enters`: the context at the start of the body of a method.
* `Step.diagnostics`, `Yields`: what a run adds to the graph and to the diagnostics.
* `refersIn_of_mem_written`: the calls and uses that a file writes.
* `members_independent`: all of this for the walk of a file.
-/

namespace CodeGraph.Java

variable {index : ProjectIndex} {filter : NamespaceFilter} {path : String} {ctx : Context}
  {outer : Option String} {t d m b : Tree} {q : String}

/-! ## The start of a body -/

/-- The context at the start of the body of a method: inside the method, its parameters declared. -/
def startOfBody (index : ProjectIndex) (decl : MethodDecl) (signature : String) (ctx : Context) :
    Context :=
  (declareParams decl.params (paramType index)
    (ctx.enterExecutable ⟨signature, decl.isConstructor⟩ decl.typeParams)).1

/-- The walk of a file enters a method or constructor, the member `m` of the type `q`, and `start`
is the context at the start of its body. -/
def SourceFile.Enters (index : ProjectIndex) (file : SourceFile) (q : String) (m : Tree)
    (decl : MethodDecl) (signature : String) (start : Context) : Prop :=
  ∃ ctx outer d, file.Reaches index ctx outer q d ∧ m ∈ typeMembers d ∧ methodDecl? m = some decl ∧
    index.signature q decl = .ok signature ∧
    start = startOfBody index decl signature (ctx.enterClass q (typeParameters d))

/-- Declaring parameters adds variables and says nothing. -/
theorem declareParams_eq {type : Context → ParamDecl → Option ResolvedType}
    (htype : ∀ ctx locals p, type (Context.withLocals ctx locals) p = type ctx p)
    (params : List ParamDecl) (ctx : Context) :
    declareParams params type ctx =
      (ctx.withLocals (params.map fun p => ⟨p.name, type ctx p⟩), []) := by
  induction params generalizing ctx with
  | nil => simp [declareParams, Walk.all, Walk.skip, Context.withLocals]
  | cons p params ih =>
    have hfirst : ctx.declare p.name (type ctx p) = ctx.withLocals [⟨p.name, type ctx p⟩] := rfl
    have hcons : declareParams (p :: params) type ctx =
        declareParams params type (ctx.declare p.name (type ctx p)) := by
      simp only [declareParams, List.map_cons, Walk.all, Walk.andThen, Walk.update, List.nil_append]
    simp only [hcons, hfirst, ih, htype]
    simp [Context.withLocals]

theorem startOfBody_eq (index : ProjectIndex) (decl : MethodDecl) (signature : String)
    (ctx : Context) :
    startOfBody index decl signature ctx =
      (ctx.enterExecutable ⟨signature, decl.isConstructor⟩ decl.typeParams).withLocals
        (decl.params.map fun p => ⟨p.name, paramType index
          (ctx.enterExecutable ⟨signature, decl.isConstructor⟩ decl.typeParams) p⟩) := by
  rw [startOfBody, declareParams_eq fun _ _ _ => rfl]

theorem currentExecutable?_startOfBody (decl : MethodDecl) (signature : String) :
    (startOfBody index decl signature ctx).currentExecutable? =
      some ⟨signature, decl.isConstructor⟩ := by
  rw [startOfBody_eq]
  rfl

theorem file_startOfBody (decl : MethodDecl) (signature : String) :
    (startOfBody index decl signature ctx).file = ctx.file := by
  rw [startOfBody_eq]
  rfl

/-- What is said of a method beside its node and its membership is what the visit of
its body says. -/
theorem steps_recordExecutable (decl : MethodDecl) (signature : String) :
    (recordExecutable index filter m decl signature ctx).2 = (m.child? "body").elim [] fun b =>
      (visit index filter false b (startOfBody index decl signature ctx)).2 := by
  have hparams (ctx : Context) : (declareParams decl.params (paramType index) ctx).2 = [] := by
    rw [declareParams_eq fun _ _ _ => rfl]
  simp only [recordExecutable, Walk.within, Walk.andThen, startOfBody, hparams, List.nil_append]
  cases m.child? "body" <;> rfl

/-! ## References -/

/-- The walk through the body `b`, from the context `entered` on, arrives at `n` in the context
`ctx`, still inside the file and the method. -/
structure ReachedIn (index : ProjectIndex) (entered : Context) (scope : FileScope)
    (method : Executable) (b : Tree) (isValue : Bool) (n : Tree) (ctx : Context) : Prop where
  within : n.Within b
  reached : ∃ before rest, events index false b = before ++ .reach isValue n :: rest ∧
    ctx = after before entered
  file : ctx.file = scope
  method : ctx.currentExecutable? = some method

/-- Somewhere in `b`, inside the method, a call or the use of a variable leads to
`target`, by what names mean there. -/
inductive RefersIn (index : ProjectIndex) (entered : Context) (scope : FileScope)
    (method : Executable) (b : Tree) : NodeKey → Relation → Prop
  | call {isValue : Bool} {n : Tree} {ctx : Context} {callee : String}
      (hn : ReachedIn index entered scope method b isValue n ctx)
      (hkind : n.kind = "method_invocation")
      (h : index.resolveCall ctx n = .ok callee) :
      RefersIn index entered scope method b ⟨.method, callee⟩ .callsMethod
  | use {n : Tree} {ctx : Context} {qualified : String} {args : List ResolvedType}
      (hn : ReachedIn index entered scope method b true n ctx) (hkind : n.kind = "identifier")
      (h : index.variableType ctx n.text = .ok (.reference qualified args)) :
      RefersIn index entered scope method b ⟨.classType, qualified⟩ .usesClass

section

variable {entered : Context} {scope : FileScope} {method : Executable}

/-- The step writes nothing but stubs and references in `b` that start at the method. -/
def Step.RefersIn (index : ProjectIndex) (entered : Context) (scope : FileScope)
    (method : Executable) (b : Tree) (s : Step) : Prop :=
  ∀ start target relation, .edge start target relation ∈ s.written (fun _ => true) →
    start = ⟨.method, method.signature⟩ ∧ Java.RefersIn index entered scope method b target relation

/-- A stub and a relationship are written as one. -/
theorem refersIn_stub_edge {target : NodeKey} {relation : Relation} {tally : Option Tally}
    (h : RefersIn index entered scope method b target relation) :
    (Step.put [.node target Dict.empty, .edge ⟨.method, method.signature⟩ target relation] tally
      []).RefersIn index entered scope method b := by
  intro start target' relation' hu
  rcases Step.mem_written_put.1 hu with hu | hu
  · rcases List.mem_cons.1 hu with hu | hu
    · cases hu
    · cases List.mem_singleton.1 hu
      exact ⟨rfl, h⟩
  · cases hu

theorem refersIn_unresolved {line : Nat} {what : Unresolved} :
    (Step.unresolved line what).RefersIn index entered scope method b :=
  fun _ _ _ hu => by cases hu

/-- At a call the callee is recorded. -/
theorem refersIn_recordCall {isValue : Bool} {n : Tree} {ctx : Context}
    (hn : ReachedIn index entered scope method b isValue n ctx)
    (hkind : n.kind = "method_invocation") :
    ∀ s ∈ (recordCall index n ctx).2, s.RefersIn index entered scope method b := by
  intro s hs
  simp only [recordCall, Walk.ask, hn.method] at hs
  cases hcallee : index.resolveCall ctx n with
  | ok callee =>
    simp only [hcallee] at hs
    cases List.mem_singleton.1 hs
    exact refersIn_stub_edge (.call hn hkind hcallee)
  | error what =>
    simp only [hcallee] at hs
    cases List.mem_singleton.1 hs
    exact refersIn_unresolved

/-- At the use of a variable its class is recorded. -/
theorem refersIn_recordUse {n : Tree} {ctx : Context}
    (hn : ReachedIn index entered scope method b true n ctx) (hkind : n.kind = "identifier") :
    ∀ s ∈ (recordUse index filter n ctx).2, s.RefersIn index entered scope method b := by
  intro s hs
  simp only [recordUse, Walk.ask, hn.method] at hs
  by_cases huntyped : (ctx.local? n.text).any (·.type.isNone) = true
  · rw [if_pos huntyped] at hs
    cases hs
  rw [if_neg huntyped] at hs
  cases htype : index.variableType ctx n.text with
  | ok type =>
    simp only [htype] at hs
    cases type with
    | reference qualified args =>
      by_cases hexcluded : filter.excludes qualified = true
      · simp only [if_pos hexcluded] at hs
        cases hs
      · simp only [if_neg hexcluded] at hs
        cases List.mem_singleton.1 hs
        exact refersIn_stub_edge (.use hn hkind htype)
    | _ => cases hs
  | error what =>
    simp only [htype] at hs
    by_cases htypeName : (index.resolveName n.text ctx.scope).isSome = true
    · rw [if_pos htypeName] at hs
      cases hs
    · rw [if_neg htypeName] at hs
      cases List.mem_singleton.1 hs
      exact refersIn_unresolved

/-- **The visit of a body writes the references in it,** all of which start at the
method around it. -/
theorem refersIn_visit (hfile : entered.file = scope)
    (hmethod : entered.currentExecutable? = some method) :
    ∀ s ∈ (visit index filter false b entered).2, s.RefersIn index entered scope method b := by
  intro s hs
  rw [visit_eq] at hs
  obtain ⟨before, isValue, n, rest, hevents, hs⟩ := exists_of_mem_said hs
  have hnested : Nested (·.Within b) (events index false b) := nested_events false b
  have hn : n.Within b :=
    hnested.of_mem (hevents ▸ List.mem_append_right before List.mem_cons_self)
  obtain ⟨hfile', hmethod'⟩ := (hnested.open_of_prefix ⟨_, hevents.symm⟩).inside entered
  have hreached : ReachedIn index entered scope method b isValue n (after before entered) :=
    ⟨hn, ⟨before, rest, hevents, rfl⟩, hfile'.trans hfile, hmethod'.trans hmethod⟩
  unfold record at hs
  split at hs
  · exact refersIn_recordCall hreached ‹_› s hs
  · split at hs
    · obtain ⟨hkind, rfl⟩ := ‹n.kind = "identifier" ∧ isValue = true›
      exact refersIn_recordUse hreached hkind s hs
    · cases hs

end

/-- The kinds of relationships that lead out of the bodies of methods. -/
def bodyRelations : List Relation := [.callsMethod, .usesClass]

theorem HeadWrites.notMem_bodyRelations {file : SourceFile} {start target : NodeKey}
    {relation : Relation} (h : HeadWrites file (.edge start target relation)) :
    relation ∉ bodyRelations := by
  rcases h.relation_eq with rfl | rfl <;> decide

theorem FieldWrites.notMem_bodyRelations {start target : NodeKey} {relation : Relation}
    (h : FieldWrites filter q (.edge start target relation)) : relation ∉ bodyRelations := by
  cases h <;> decide

theorem notMem_bodyRelations_of_mem_writes_recordSupertypes {kind : TypeKind}
    {start target : NodeKey} {relation : Relation}
    (h : .edge start target relation ∈ (recordSupertypes index t kind q).writes ctx) :
    relation ∉ bodyRelations := by
  obtain ⟨type, relation', name, hclause, -, hu⟩ := mem_writes_recordSupertypes.1 h
  rcases List.mem_cons.1 hu with hu | hu
  · cases hu
  · cases List.mem_singleton.1 hu
    rcases hclause with ⟨-, rfl⟩ | ⟨-, rfl⟩
    · decide
    · unfold interfaceRelation
      split <;> decide

/-- Of what is written of a type, calls and uses come from the bodies of its methods. -/
theorem TypeWrites.exists_body {start target : NodeKey} {relation : Relation}
    (h : TypeWrites index filter path ctx outer q d (.edge start target relation))
    (hbody : relation ∈ bodyRelations) :
    ∃ m ∈ typeMembers d, ∃ decl signature, methodDecl? m = some decl ∧
      index.signature q decl = .ok signature ∧ .edge start target relation ∈
        (recordExecutable index filter m decl signature).writes
          (ctx.enterClass q (typeParameters d)) := by
  cases h with
  | node hkind hu => cases List.mem_singleton.1 hu
  | inFile => exact absurd hbody (by decide)
  | nested => exact absurd hbody (by decide)
  | supertype hkind hu =>
    exact absurd hbody (notMem_bodyRelations_of_mem_writes_recordSupertypes hu)
  | component hkind hu =>
    exact absurd hbody (fieldWrites_of_mem_writes_recordComponentFields hu).notMem_bodyRelations
  | field hm hkind hu =>
    exact absurd hbody (fieldWrites_of_mem_writes_recordFields hu).notMem_bodyRelations
  | method hm hkind hu =>
    obtain ⟨decl, signature, hdecl, hsignature, hu | hu | hu⟩ := mem_writes_recordMethod.1 hu
    · cases List.mem_singleton.1 hu
    · cases hu
      refine absurd hbody ?_
      unfold MethodDecl.membership
      split <;> decide
    · exact ⟨_, hm, decl, signature, hdecl, hsignature, hu⟩

/-- **Every call and every use that a file writes starts at the method in whose body it stands.** -/
theorem refersIn_of_mem_written {file : SourceFile} {ok : NodeKey → Bool} {start target : NodeKey}
    {relation : Relation}
    (h : .edge start target relation ∈ writtenAll ok (extract index filter file))
    (hbody : relation ∈ bodyRelations) :
    ∃ q m decl signature entered b, file.Enters index q m decl signature entered ∧
      m.child? "body" = some b ∧
      start = ⟨.method, signature⟩ ∧
      RefersIn index entered (walkScope index file) ⟨signature, decl.isConstructor⟩ b target
        relation := by
  rcases headWrites_or_typeWrites (writtenAll_subset ok _ h) with
    hu | ⟨ctx, outer, q, d, hreach, hu⟩
  · exact absurd hbody hu.notMem_bodyRelations
  · obtain ⟨m, hm, decl, signature, hdecl, hsignature, hu⟩ := hu.exists_body hbody
    have henters : file.Enters index q m decl signature
        (startOfBody index decl signature (ctx.enterClass q (typeParameters d))) :=
      ⟨ctx, outer, d, hreach, hm, hdecl, hsignature, rfl⟩
    rw [Walk.writes, steps_recordExecutable] at hu
    cases hb : m.child? "body" with
    | none =>
      rw [hb] at hu
      cases hu
    | some b =>
      rw [hb, Option.elim_some] at hu
      obtain ⟨s, hs, hu⟩ := mem_writtenAll.1 hu
      have hfile : (startOfBody index decl signature (ctx.enterClass q (typeParameters d))).file =
          walkScope index file := (file_startOfBody decl signature).trans hreach.file_eq
      obtain ⟨hstart, hrefers⟩ :=
        refersIn_visit hfile (currentExecutable?_startOfBody decl signature) s hs start target
          relation hu
      exact ⟨q, m, decl, signature, _, b, henters, hb, hstart, hrefers⟩

/-! ## Diagnostics -/

mutual

/-- The symbols without meaning in a step. -/
def Step.diagnostics : Step → List Diagnostic
  | .unresolved line what => [⟨line, what⟩]
  | .put _ _ inside => diagnosticsAll inside

/-- The symbols without meaning in several steps. -/
def diagnosticsAll : List Step → List Diagnostic
  | [] => []
  | s :: rest => s.diagnostics ++ diagnosticsAll rest

end

theorem diagnosticsAll_append (steps steps' : List Step) :
    diagnosticsAll (steps ++ steps') = diagnosticsAll steps ++ diagnosticsAll steps' := by
  induction steps with
  | nil => rfl
  | cons s steps ih => rw [List.cons_append, diagnosticsAll, diagnosticsAll, ih, List.append_assoc]

theorem diagnosticsAll_flatMap {α : Type} (xs : List α) (steps : α → List Step) :
    diagnosticsAll (xs.flatMap steps) = xs.flatMap fun x => diagnosticsAll (steps x) := by
  induction xs with
  | nil => rfl
  | cons x xs ih => rw [List.flatMap_cons, diagnosticsAll_append, ih, List.flatMap_cons]

theorem FileReport.unresolved_count (tally : Option Tally) (r : FileReport) :
    (r.count tally).unresolved = r.unresolved := by
  cases tally with
  | none => rfl
  | some tally => cases tally <;> rfl

section

variable {P : Upsert → Prop} {known : List NodeKey}

mutual

/-- A sound step reports all of its diagnostics, as only the writing of a single
node is waited for. -/
theorem Step.Sound.unresolved_reported {known : List NodeKey} {s : Step} (h : s.Sound P known)
    (ok : NodeKey → Bool) (r : FileReport) :
    (s.reported ok r).unresolved = r.unresolved ++ s.diagnostics := by
  match s, h with
  | .unresolved line what, _ => rfl
  | .put entry tally _, .put _ _ =>
    rw [Step.reported, Step.diagnostics, diagnosticsAll, List.append_nil]
    split
    · exact FileReport.unresolved_count tally r
    · rfl
  | .put [.node key given] tally inside, .guard _ hinside =>
    have hnode : Step.reported ok (.put [.node key given] tally inside) r =
        reportedAll ok inside (r.count tally) := by
      rw [Step.reported]
      rfl
    rw [hnode, unresolved_reportedAll hinside, FileReport.unresolved_count, Step.diagnostics]

theorem unresolved_reportedAll {known : List NodeKey} {steps : List Step}
    (h : ∀ s ∈ steps, s.Sound P known) (ok : NodeKey → Bool) (r : FileReport) :
    (reportedAll ok steps r).unresolved = r.unresolved ++ diagnosticsAll steps := by
  match steps with
  | [] => rw [reportedAll, diagnosticsAll, List.append_nil]
  | s :: rest =>
    rw [reportedAll, unresolved_reportedAll (fun s' hs' => h s' (List.mem_cons_of_mem _ hs')),
      (h s List.mem_cons_self).unresolved_reported, diagnosticsAll, List.append_assoc]

end

/-- From a connected store the steps write these upserts and add these diagnostics. -/
def Yields (steps : List Step) (state : StoreState) (us : (NodeKey → Bool) → List Upsert)
    (ds : List Diagnostic) : Prop :=
  ∀ stats r, ∃ state', (runAll steps (⟨.ofState state, stats⟩, r)).1.store = .ofState state' ∧
    StoreState.Written us state state' ∧
    (runAll steps (⟨.ofState state, stats⟩, r)).2.unresolved = r.unresolved ++ ds

/-- Sound steps yield what they have to write and to say. -/
theorem yields_of_sound {steps : List Step} (h : ∀ s ∈ steps, s.Sound P known) {state : StoreState}
    (hknown : ∀ key ∈ known, key ∈ state.graph.keys) :
    Yields steps state (writtenAll · steps) (diagnosticsAll steps) := by
  intro stats r
  obtain ⟨state', hstore, hwritten, hreport⟩ := runAll_spec h hknown stats r
  obtain ⟨ok, hok⟩ := state'.graph.exists_names
  refine ⟨state', hstore, hwritten, ?_⟩
  rw [hreport ok hok, unresolved_reportedAll h]

end

/-! ## Members -/

/-- The member is no method that can be read, or one whose signature does not
resolve, for this reason. -/
def Unsigned (index : ProjectIndex) (q : String) (m : Tree) (what : Unresolved) : Prop :=
  methodDecl? m = none ∧ what = ⟨m.text, .malformedDeclaration⟩ ∨
    ∃ decl, methodDecl? m = some decl ∧ index.signature q decl = .error what

/-- Without a signature a method is no more than a diagnostic. -/
theorem steps_recordMethod_of_unsigned {what : Unresolved} (h : Unsigned index q m what) :
    (recordMethod index filter path m q ctx).2 = [.unresolved m.startLine what] := by
  rw [recordMethod]
  rcases h with ⟨hdecl, rfl⟩ | ⟨decl, hdecl, hsignature⟩
  · rw [hdecl]
    rfl
  · rw [hdecl]
    dsimp only
    rw [hsignature]
    rfl

/-- The steps of a member are sound once the type and the file are written. -/
theorem sound_recordMember {kind : TypeKind} (hkind : TypeKind.ofTreeKind? t.kind = some kind)
    (hm : m ∈ typeMembers t) :
    ∀ s ∈ (recordMember index filter path q m ctx).2,
      s.Sound (Origin index path fun _ _ => True) [⟨.file, path⟩, ⟨.classType, q⟩] := by
  have hq : (⟨.classType, q⟩ : NodeKey) ∈ [(⟨.file, path⟩ : NodeKey), ⟨.classType, q⟩] :=
    List.mem_cons_of_mem _ List.mem_cons_self
  have hnested : (recordType index filter path (some q) m).Keeps ctx.file ctx.currentExecutable?
      (Step.Sound (Origin index path fun _ _ => True) [⟨.file, path⟩, ⟨.classType, q⟩]) :=
    recordType_keeps List.mem_cons_self (fun o ho => by cases ho; exact hq) fun _ _ _ => trivial
  exact (recordMember_keeps hq trivial hkind hm hnested ctx rfl rfl).2

/-- **A body yields what its members yield**, one after another and each from inside the type. -/
theorem yields_members {kind : TypeKind} (hkind : TypeKind.ofTreeKind? t.kind = some kind)
    {state : StoreState} (hfile : ⟨.file, path⟩ ∈ state.graph.keys)
    (hq : ⟨.classType, q⟩ ∈ state.graph.keys) {ms : List Tree} (hms : ∀ m ∈ ms, m ∈ typeMembers t) :
    Yields (ms.flatMap fun m => (recordMember index filter path q m ctx).2) state
      (fun ok => ms.flatMap fun m => writtenAll ok (recordMember index filter path q m ctx).2)
      (ms.flatMap fun m => diagnosticsAll (recordMember index filter path q m ctx).2) := by
  have hsound : ∀ s ∈ ms.flatMap fun m => (recordMember index filter path q m ctx).2,
      s.Sound (Origin index path fun _ _ => True) [⟨.file, path⟩, ⟨.classType, q⟩] := by
    intro s hs
    obtain ⟨m, hm, hs⟩ := List.mem_flatMap.1 hs
    exact sound_recordMember hkind (hms m hm) s hs
  have hknown : ∀ key ∈ [(⟨.file, path⟩ : NodeKey), ⟨.classType, q⟩], key ∈ state.graph.keys := by
    intro key hkey
    rcases List.mem_cons.1 hkey with rfl | hkey
    · exact hfile
    · cases List.mem_singleton.1 hkey
      exact hq
  simpa only [writtenAll_flatMap, diagnosticsAll_flatMap] using yields_of_sound hsound hknown

/-- **Members are walked on their own.** Visiting any tree leaves the context as it was but for
variables declared on the way, and recording a type or a method leaves it exactly as it was. So what
a type writes and reports of its members is what each of them, from inside the type and on any
connected store that has the file and the type, writes and reports alone; a method without a
signature is one diagnostic and writes nothing; and every call and every use that a file writes
starts at the method in whose body it stands. -/
theorem members_independent (index : ProjectIndex) (filter : NamespaceFilter) (file : SourceFile) :
    (∀ isValue t ctx, ∃ locals, (visit index filter isValue t ctx).1 =
        { ctx with locals := ctx.locals ++ locals }) ∧
      (∀ outer t ctx, (recordType index filter file.path outer t ctx).1 = ctx) ∧
      (∀ m q ctx, (recordMethod index filter file.path m q ctx).1 = ctx) ∧
      (∀ outer t kind n ctx q, TypeKind.ofTreeKind? t.kind = some kind → t.child? "name" = some n →
        q = nameUnder ctx.file outer n.text →
        let alone := fun m => (recordMember index filter file.path q m
          (ctx.enterClass q (typeParameters t))).2
        (recordType index filter file.path outer t ctx).2 =
            [.put (Entry.classType q kind.name) (some .classes)
              (headSteps index filter file.path outer t kind q ctx ++
                (typeMembers t).flatMap alone)] ∧
          ∀ state : StoreState, ⟨.file, file.path⟩ ∈ state.graph.keys →
            ⟨.classType, q⟩ ∈ state.graph.keys →
            (∀ m ∈ typeMembers t,
              Yields (alone m) state (writtenAll · (alone m)) (diagnosticsAll (alone m))) ∧
            Yields ((typeMembers t).flatMap alone) state
              (fun ok => (typeMembers t).flatMap fun m => writtenAll ok (alone m))
              ((typeMembers t).flatMap fun m => diagnosticsAll (alone m))) ∧
      (∀ m q ctx what, Unsigned index q m what → ∀ state,
        Yields (recordMethod index filter file.path m q ctx).2 state (fun _ => [])
          [⟨m.startLine, what⟩]) ∧
      ∀ ok start target relation,
        .edge start target relation ∈ writtenAll ok (extract index filter file) →
        relation = .callsMethod ∨ relation = .usesClass →
        ∃ q m decl signature entered b, file.Enters index q m decl signature entered ∧
          m.child? "body" = some b ∧ start = ⟨.method, signature⟩ ∧
          RefersIn index entered (walkScope index file) ⟨signature, decl.isConstructor⟩ b target
            relation := by
  refine ⟨fun isValue t ctx => (visit_keeps filter isValue t ctx rfl rfl).1,
    fun outer t => restores_recordType t outer, fun m q => restores_recordMethod m q,
    fun outer t kind n ctx q hkind hn hq => ⟨steps_recordType hkind hn hq, fun state hfile hstate =>
      ⟨fun m hm => ?_, yields_members hkind hfile hstate fun m hm => hm⟩⟩,
    fun m q ctx what h state => ?_, fun ok start target relation hu hrelation => ?_⟩
  · have hone : ∀ m' ∈ [m], m' ∈ typeMembers t := fun m' hm' => by
      cases List.mem_singleton.1 hm'
      exact hm
    simpa only [List.flatMap_singleton] using yields_members hkind hfile hstate hone
  · have hsound : ∀ s ∈ [Step.unresolved m.startLine what], s.Sound (fun _ => True) [] :=
      fun s hs => by
        cases List.mem_singleton.1 hs
        exact .unresolved
    rw [steps_recordMethod_of_unsigned h]
    exact yields_of_sound hsound fun key hkey => by cases hkey
  · refine refersIn_of_mem_written hu ?_
    rcases hrelation with rfl | rfl <;> decide

/-- `void u(X x) {}` on line 3, where no `X` is known. -/
def unresolvedMethod : Tree :=
  .mk "method_declaration" true "" "" 3 3
    [.mk "void_type" true "type" "void" 3 3 [],
     .mk "identifier" true "name" "u" 3 3 [],
     .mk "formal_parameters" true "parameters" "" 3 3
      [.mk "formal_parameter" true "" "" 3 3
        [.mk "type_identifier" true "type" "X" 3 3 [], .mk "identifier" true "name" "x" 3 3 []]],
     .mk "block" true "body" "" 3 3 []]

/-- `class A { void m(B b) { new T() { void k() { run(() -> b.n()); } }; } void u(X x) {} }` and
`class B { void n() {} }` in one file, without the parts that nothing reads. -/
def anonymousFile : SourceFile where
  path := "/p/A.java"
  root := .mk "program" true "" "" 1 1
    [.mk "class_declaration" true "" "" 1 1
      [.mk "identifier" true "name" "A" 1 1 [],
       .mk "class_body" true "body" "" 1 1
        [.mk "method_declaration" true "" "" 1 1
          [.mk "void_type" true "type" "void" 1 1 [],
           .mk "identifier" true "name" "m" 1 1 [],
           .mk "formal_parameters" true "parameters" "" 1 1
            [.mk "formal_parameter" true "" "" 1 1
              [.mk "type_identifier" true "type" "B" 1 1 [],
                .mk "identifier" true "name" "b" 1 1 []]],
           .mk "block" true "body" "" 1 1
            [.mk "object_creation_expression" true "" "" 1 1
              [.mk "type_identifier" true "type" "T" 1 1 [],
               .mk "class_body" true "" "" 1 1
                [.mk "method_declaration" true "" "" 1 1
                  [.mk "void_type" true "type" "void" 1 1 [],
                   .mk "identifier" true "name" "k" 1 1 [],
                   .mk "formal_parameters" true "parameters" "" 1 1 [],
                   .mk "block" true "body" "" 1 1
                    [.mk "lambda_expression" true "" "" 1 1
                      [.mk "method_invocation" true "body" "" 1 1
                        [.mk "identifier" true "object" "b" 1 1 [],
                         .mk "identifier" true "name" "n" 1 1 [],
                         .mk "argument_list" true "arguments" "" 1 1 []]]]]]]]],
         unresolvedMethod]],
     .mk "class_declaration" true "" "" 4 4
      [.mk "identifier" true "name" "B" 4 4 [],
       .mk "class_body" true "body" "" 4 4
        [.mk "method_declaration" true "" "" 4 4
          [.mk "void_type" true "type" "void" 4 4 [],
           .mk "identifier" true "name" "n" 4 4 [],
           .mk "formal_parameters" true "parameters" "" 4 4 [],
           .mk "block" true "body" "" 4 4 []]]]]

/-- A call in a lambda in an anonymous class is one of the method around them, and the method
without a signature is a diagnostic. -/
theorem members_independent_anonymousFile :
    let index := ProjectIndex.build [anonymousFile]
    .edge ⟨.method, "A.m(B)"⟩ ⟨.method, "B.n()"⟩ .callsMethod ∈
        writtenAll (fun _ => true) (extract index ⟨[]⟩ anonymousFile) ∧
      (∃ q m decl entered b, anonymousFile.Enters index q m decl "A.m(B)" entered ∧
        m.child? "body" = some b ∧ RefersIn index entered (walkScope index anonymousFile)
          ⟨"A.m(B)", decl.isConstructor⟩ b ⟨.method, "B.n()"⟩ .callsMethod) ∧
      Unsigned index "A" unresolvedMethod ⟨"X", .unknownType⟩ ∧
      ∀ ctx state, Yields (recordMethod index ⟨[]⟩ "/p/A.java" unresolvedMethod "A" ctx).2 state
        (fun _ => []) [⟨3, "X", .unknownType⟩] := by
  intro index
  have hcall : .edge ⟨.method, "A.m(B)"⟩ ⟨.method, "B.n()"⟩ .callsMethod ∈
      writtenAll (fun _ => true) (extract index ⟨[]⟩ anonymousFile) := by decide +kernel
  have hunsigned : Unsigned index "A" unresolvedMethod ⟨"X", .unknownType⟩ := by
    have hsignature : (methodDecl? unresolvedMethod).map (index.signature "A") =
        some (.error ⟨"X", .unknownType⟩) := by decide +kernel
    exact .inr (Option.map_eq_some_iff.1 hsignature)
  obtain ⟨-, -, -, -, hdiagnostic, hbodies⟩ := members_independent index ⟨[]⟩ anonymousFile
  obtain ⟨q, m, decl, signature, entered, b, henters, hb, hstart, hrefers⟩ :=
    hbodies _ _ _ _ hcall (.inl rfl)
  cases hstart
  exact ⟨hcall, ⟨q, m, decl, entered, b, henters, hb, hrefers⟩, hunsigned,
    fun ctx state => hdiagnostic _ _ ctx _ hunsigned state⟩

end CodeGraph.Java
