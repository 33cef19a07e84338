import CodeGraph.Proofs.Java.Extracted

/-!
# What the parts of a declaration write

Recording a part of a declaration leaves the context as it was (`Walk.Restores`), so what a walk
over several parts writes is what each of them writes from one and the same context
(`Walk.mem_writes_andThen`, `Walk.mem_writes_all`).

* `mem_writes_recordSupertypes`: the clauses write relationships to the types that they name.
* `fieldWrites_of_mem_writes_recordFields`: fields write their nodes, and the classes of
  them that are not excluded.
* `mem_writes_recordMethod`, `bodyWrites_of_mem_writes`: a method writes its node, its membership
  and what its body does.
-/

namespace CodeGraph.Java

/-! ## Walks that leave the context as it was -/

/-- The walk leaves the context as it was. -/
def Walk.Restores (w : Walk) : Prop := ∀ ctx, (w ctx).1 = ctx

/-- What the walk writes from a context if every id names its node. -/
def Walk.writes (w : Walk) (ctx : Context) : List Upsert := writtenAll (fun _ => true) (w ctx).2

namespace Walk

variable {u : Upsert} {a b w : Walk} {ws : List Walk} {ctx : Context} {entry : Entry}

theorem restores_skip : skip.Restores := fun _ => rfl

theorem restores_say (steps : List Step) : (say steps).Restores := fun _ => rfl

theorem restores_put (entry : Entry) (tally : Option Tally) : (put entry tally).Restores :=
  fun _ => rfl

theorem Restores.ask {f : Context → Walk} (h : ∀ ctx, (f ctx).Restores) : (ask f).Restores :=
  fun ctx => h ctx ctx

theorem Restores.guarded (entry : Entry) (tally : Tally) (h : w.Restores) :
    (guarded entry tally w).Restores := h

theorem Restores.andThen (ha : a.Restores) (hb : b.Restores) : (a.andThen b).Restores := by
  intro ctx
  simp only [Walk.andThen, ha ctx, hb ctx]

theorem Restores.all (h : ∀ w ∈ ws, w.Restores) : (Walk.all ws).Restores := by
  induction ws with
  | nil => exact restores_skip
  | cons w ws ih =>
    exact (h w List.mem_cons_self).andThen (ih fun w' hw' => h w' (List.mem_cons_of_mem _ hw'))

theorem Restores.inClass (qualified : String) (typeParams : List String) (h : w.Restores) :
    (within (·.enterClass qualified typeParams) w).Restores := by
  intro ctx
  simp only [within, h (ctx.enterClass qualified typeParams)]
  simp [Context.enterClass, Context.mark, Context.exit]

/-- What only declares variables inside a method leaves the context as it was. -/
theorem restores_inExecutable {method : Executable} (typeParams : List String)
    (h : ∀ scope, w.Keeps scope (some method) fun _ => True) :
    (within (·.enterExecutable method typeParams) w).Restores := by
  intro ctx
  obtain ⟨⟨locals, hlocals⟩, -⟩ := h ctx.file (ctx.enterExecutable method typeParams) rfl rfl
  simp only [within, hlocals]
  exact ctx.exit_enterExecutable method typeParams locals

/-! ### Steps -/

theorem steps_andThen (ha : a.Restores) : (a.andThen b ctx).2 = (a ctx).2 ++ (b ctx).2 := by
  simp only [Walk.andThen, ha ctx]

/-- Walks that leave the context as it was say, one after another, what each of them
says from it. -/
theorem steps_all (h : ∀ w ∈ ws, w.Restores) :
    (Walk.all ws ctx).2 = ws.flatMap fun w => (w ctx).2 := by
  induction ws with
  | nil => rfl
  | cons w ws ih =>
    rw [Walk.all, steps_andThen (h w List.mem_cons_self),
      ih fun w' hw' => h w' (List.mem_cons_of_mem _ hw'), List.flatMap_cons]

/-! ### Written upserts -/

theorem notMem_writes_skip : u ∉ skip.writes ctx := List.not_mem_nil

theorem notMem_writes_unresolved {line : Nat} {what : Unresolved} :
    u ∉ (say [.unresolved line what]).writes ctx := by
  simp [say, writes, writtenAll, Step.written]

theorem mem_writes_put {tally : Option Tally} : u ∈ (put entry tally).writes ctx ↔ u ∈ entry := by
  simp [put, say, writes, Step.mem_written_put, writtenAll]

theorem writes_ask {f : Context → Walk} : (ask f).writes ctx = (f ctx).writes ctx := rfl

theorem writes_within {enter : Context → Context} :
    (within enter w).writes ctx = w.writes (enter ctx) := rfl

theorem mem_writes_guarded {tally : Tally} :
    u ∈ (guarded entry tally w).writes ctx ↔ u ∈ entry ∨ u ∈ w.writes ctx := by
  simp [guarded, writes, mem_writtenAll, Step.mem_written_put]

theorem mem_writes_andThen (ha : a.Restores) :
    u ∈ (a.andThen b).writes ctx ↔ u ∈ a.writes ctx ∨ u ∈ b.writes ctx := by
  simp only [writes, mem_writtenAll, Walk.andThen, ha ctx, List.mem_append, or_and_right, exists_or]

theorem mem_writes_all (h : ∀ w ∈ ws, w.Restores) :
    u ∈ (Walk.all ws).writes ctx ↔ ∃ w ∈ ws, u ∈ w.writes ctx := by
  induction ws with
  | nil => simp [Walk.all, notMem_writes_skip]
  | cons w ws ih =>
    rw [Walk.all, mem_writes_andThen (h w List.mem_cons_self),
      ih fun w' hw' => h w' (List.mem_cons_of_mem _ hw')]
    simp

end Walk

variable {index : ProjectIndex} {filter : NamespaceFilter} {file : String} {ctx : Context}
  {t m : Tree} {q : String} {u : Upsert}

/-! ## Calls and uses -/

theorem restores_recordCall (call : Tree) : (recordCall index call).Restores := by
  refine .ask fun ctx => ?_
  split
  · exact Walk.restores_skip
  · split
    · exact Walk.restores_put _ _
    · exact Walk.restores_say _

theorem restores_recordUse (t : Tree) : (recordUse index filter t).Restores := by
  refine .ask fun ctx => ?_
  split
  · exact Walk.restores_skip
  · split
    · exact Walk.restores_skip
    · split
      · split
        · exact Walk.restores_skip
        · exact Walk.restores_put _ _
      · exact Walk.restores_skip
      · split
        · exact Walk.restores_skip
        · exact Walk.restores_say _

/-! ## Supertypes -/

theorem restores_recordSupertype (entry : String → Entry) (type : Tree) :
    (recordSupertype index entry type).Restores := by
  refine .ask fun ctx => ?_
  split
  · exact Walk.restores_put _ _
  · exact Walk.restores_say _

theorem mem_writes_recordSupertype {entry : String → Entry} {type : Tree} :
    u ∈ (recordSupertype index entry type).writes ctx ↔
      ∃ name, supertypeName index ctx type = .ok name ∧ u ∈ entry name := by
  rw [recordSupertype, Walk.writes_ask]
  cases supertypeName index ctx type with
  | error e => simp [Walk.notMem_writes_unresolved]
  | ok name => simp [Walk.mem_writes_put]

theorem restores_map_recordSupertype (entry : String → Entry) (types : List Tree) :
    ∀ w ∈ types.map (recordSupertype index entry), w.Restores := by
  intro w hw
  obtain ⟨type, -, rfl⟩ := List.mem_map.1 hw
  exact restores_recordSupertype entry type

theorem restores_recordSupertypes (t : Tree) (kind : TypeKind) (q : String) :
    (recordSupertypes index t kind q).Restores :=
  .andThen (.all (restores_map_recordSupertype _ _)) (.all (restores_map_recordSupertype _ _))

/-- The kind of relationship that a type among the interfaces of a declaration stands for. -/
def interfaceRelation (kind : TypeKind) : Relation :=
  if kind = .interfaceKind then .extends else .implements

/-- A class known by reference and a relationship to it. -/
def stubEdge (start target : String) (relation : Relation) : Entry :=
  Entry.classStub target ++ [.edge ⟨.classType, start⟩ ⟨.classType, target⟩ relation]

/-- **What the clauses of a declaration write**: each names a type, to which a
relationship leads. -/
theorem mem_writes_recordSupertypes {kind : TypeKind} :
    u ∈ (recordSupertypes index t kind q).writes ctx ↔
      ∃ type relation name, (type ∈ superclassTree? t ∧ relation = Relation.extends ∨
          type ∈ interfaceTrees t kind ∧ relation = interfaceRelation kind) ∧
        supertypeName index ctx type = .ok name ∧ u ∈ stubEdge q name relation := by
  have hinterface :
      (if kind = TypeKind.interfaceKind then Entry.classExtends q else Entry.classImplements q) =
        fun name => stubEdge q name (interfaceRelation kind) := by
    unfold interfaceRelation
    split <;> rfl
  rw [recordSupertypes, Walk.mem_writes_andThen (.all (restores_map_recordSupertype _ _)),
    Walk.mem_writes_all (restores_map_recordSupertype _ _),
    Walk.mem_writes_all (restores_map_recordSupertype _ _), hinterface]
  simp only [List.mem_map, Option.mem_toList, exists_exists_and_eq_and, mem_writes_recordSupertype]
  constructor
  · rintro (⟨type, htype, name, hname, hu⟩ | ⟨type, htype, name, hname, hu⟩)
    · exact ⟨type, _, name, .inl ⟨htype, rfl⟩, hname, hu⟩
    · exact ⟨type, _, name, .inr ⟨htype, rfl⟩, hname, hu⟩
  · rintro ⟨type, relation, name, ⟨htype, rfl⟩ | ⟨htype, rfl⟩, hname, hu⟩
    · exact .inl ⟨type, htype, name, hname, hu⟩
    · exact .inr ⟨type, htype, name, hname, hu⟩

/-! ## Fields -/

/-- What recording a field of a type writes: its node and its membership, and the class that types
it unless that is excluded. -/
inductive FieldWrites (filter : NamespaceFilter) (q : String) : Upsert → Prop
  | node {key : NodeKey} {given : Attributes} (h : key.label = .field ∨ key.label = .classType) :
      FieldWrites filter q (.node key given)
  | member {name : String} :
      FieldWrites filter q (.edge ⟨.classType, q⟩ (.ofField q name) .hasField)
  | type {name qualified : String} (h : filter.excludes qualified = false) :
      FieldWrites filter q (.edge (.ofField q name) ⟨.classType, qualified⟩ .hasType)

theorem restores_recordField (t : Tree) (q name : String) (type : WrittenType) (initial : String) :
    (recordField index filter t q name type initial).Restores := by
  refine .ask fun ctx => ?_
  split
  · exact Walk.restores_say _
  · split
    · exact Walk.restores_put _ _
    · exact Walk.restores_skip

theorem fieldWrites_of_mem_fieldEntry? {name initial : String} {type : ResolvedType} {entry : Entry}
    (h : fieldEntry? filter q name initial type = some entry) (hu : u ∈ entry) :
    FieldWrites filter q u := by
  have hplain {detail : FieldDetail} (hu : u ∈ Entry.fieldOf q detail) :
      FieldWrites filter q u := by
    rcases List.mem_cons.1 hu with rfl | hu
    · exact .node (.inl rfl)
    · cases List.mem_singleton.1 hu
      exact .member
  unfold fieldEntry? at h
  split at h
  · cases h
    exact hplain hu
  · split at h
    · cases h
      exact hplain hu
    · rename_i qualified _ hexcluded
      cases h
      rcases List.mem_append.1 hu with hu | hu
      · rcases List.mem_append.1 hu with hu | hu
        · exact hplain hu
        · cases List.mem_singleton.1 hu
          exact .node (.inr rfl)
      · cases List.mem_singleton.1 hu
        exact .type (Bool.not_eq_true _ ▸ hexcluded)
  · cases h

theorem fieldWrites_of_mem_writes_recordField {t : Tree} {name initial : String}
    {type : WrittenType} (hu : u ∈ (recordField index filter t q name type initial).writes ctx) :
    FieldWrites filter q u := by
  rw [recordField, Walk.writes_ask] at hu
  split at hu
  · exact absurd hu Walk.notMem_writes_unresolved
  · split at hu
    · rename_i entry hentry
      exact fieldWrites_of_mem_fieldEntry? hentry (Walk.mem_writes_put.1 hu)
    · exact absurd hu Walk.notMem_writes_skip

theorem restores_recordFields (t : Tree) (q : String) :
    (recordFields index filter t q).Restores := by
  refine .all fun w hw => ?_
  obtain ⟨⟨f, d⟩, -, rfl⟩ := List.mem_map.1 hw
  exact restores_recordField _ _ _ _ _

theorem fieldWrites_of_mem_writes_recordFields
    (hu : u ∈ (recordFields index filter t q).writes ctx) :
    FieldWrites filter q u := by
  rw [recordFields, Walk.mem_writes_all fun w hw => ?_] at hu
  · obtain ⟨w, hw, hu⟩ := hu
    obtain ⟨⟨f, d⟩, -, rfl⟩ := List.mem_map.1 hw
    exact fieldWrites_of_mem_writes_recordField hu
  · obtain ⟨⟨f, d⟩, -, rfl⟩ := List.mem_map.1 hw
    exact restores_recordField _ _ _ _ _

/-- Recording a component of a record is recording a field, or nothing. -/
theorem recordComponentFields_cases (index : ProjectIndex) (filter : NamespaceFilter) (t : Tree)
    (q : String) {P : Walk → Prop} (hskip : P .skip)
    (hfield : ∀ c name type, P (recordField index filter c q name type "")) :
    ∃ ws, recordComponentFields index filter t q = .all ws ∧ ∀ w ∈ ws, P w := by
  refine ⟨_, rfl, fun w hw => ?_⟩
  obtain ⟨c, -, rfl⟩ := List.mem_map.1 hw
  split
  · split
    · exact hfield _ _ _
    · exact hskip
  · exact hskip

theorem restores_recordComponentFields (t : Tree) (q : String) :
    (recordComponentFields index filter t q).Restores := by
  obtain ⟨ws, heq, hws⟩ := recordComponentFields_cases index filter t q
    Walk.restores_skip fun c name type => restores_recordField c q name type ""
  rw [heq]
  exact .all hws

theorem fieldWrites_of_mem_writes_recordComponentFields
    (hu : u ∈ (recordComponentFields index filter t q).writes ctx) : FieldWrites filter q u := by
  obtain ⟨ws, heq, hws⟩ := recordComponentFields_cases index filter t q
    (P := fun w => w.Restores ∧ ∀ u ∈ w.writes ctx, FieldWrites filter q u)
    ⟨Walk.restores_skip, fun u hu => absurd hu Walk.notMem_writes_skip⟩
    fun c name type => ⟨restores_recordField c q name type "",
      fun u => fieldWrites_of_mem_writes_recordField⟩
  rw [heq, Walk.mem_writes_all fun w hw => (hws w hw).1] at hu
  obtain ⟨w, hw, hu⟩ := hu
  exact (hws w hw).2 u hu

/-! ## Methods -/

/-- What recording the body of a method writes: the methods it calls and the classes it uses,
none of which is excluded. -/
inductive BodyWrites (filter : NamespaceFilter) (signature : String) : Upsert → Prop
  | node {key : NodeKey} (h : key.label = .method ∨ key.label = .classType) :
      BodyWrites filter signature (.node key Dict.empty)
  | call {callee : String} :
      BodyWrites filter signature (.edge ⟨.method, signature⟩ ⟨.method, callee⟩ .callsMethod)
  | use {qualified : String} (h : filter.excludes qualified = false) :
      BodyWrites filter signature (.edge ⟨.method, signature⟩ ⟨.classType, qualified⟩ .usesClass)

/-- What a declared method adds to its node. -/
def methodDetail (file : String) (m : Tree) (decl : MethodDecl) : MethodDetail :=
  ⟨decl.name ++ "()", file, m.startLine, m.endLine, methodCode decl (m.child? "body")⟩

/-- How a type has a method or constructor. -/
def MethodDecl.membership (decl : MethodDecl) : Relation :=
  if decl.isConstructor then .hasConstructor else .hasMethod

/-- Record what the body of a method does. -/
def recordExecutable (index : ProjectIndex) (filter : NamespaceFilter) (m : Tree)
    (decl : MethodDecl) (signature : String) : Walk :=
  .within (·.enterExecutable ⟨signature, decl.isConstructor⟩ decl.typeParams) <|
    .andThen (declareParams decl.params (paramType index)) <|
      match m.child? "body" with
      | some b => visit index filter false b
      | none => .skip

theorem recordMethod_eq {decl : MethodDecl} {signature : String} (hdecl : methodDecl? m = some decl)
    (hsignature : index.signature q decl = .ok signature) :
    recordMethod index filter file m q =
      .guarded (Entry.method signature (methodDetail file m decl)) .methods
        (.andThen (.put [.edge ⟨.classType, q⟩ ⟨.method, signature⟩ decl.membership] none)
          (recordExecutable index filter m decl signature)) := by
  have hmembership : (if decl.isConstructor then Entry.constructorOf q signature
      else Entry.methodOf q signature) =
        [.edge ⟨.classType, q⟩ ⟨.method, signature⟩ decl.membership] := by
    unfold MethodDecl.membership
    split <;> rfl
  rw [recordMethod, hdecl]
  dsimp only
  rw [hsignature, ← hmembership]
  rfl

theorem recordCall_writes_body {scope : FileScope} (method : Executable) (call : Tree) :
    (recordCall index call).Keeps scope (some method)
      fun s => ∀ u ∈ s.written (fun _ => true), BodyWrites filter method.signature u := by
  refine .ask fun ctx _ hexec => ?_
  simp only [hexec]
  split
  · refine .put fun u hu => ?_
    rcases Step.mem_written_put.1 hu with hu | hu
    · rcases List.mem_cons.1 hu with rfl | hu
      · exact .node (.inl rfl)
      · cases List.mem_singleton.1 hu
        exact .call
    · cases hu
  · refine .say fun s hs u hu => ?_
    cases List.mem_singleton.1 hs
    cases hu

theorem recordUse_writes_body {scope : FileScope} (method : Executable) (t : Tree) :
    (recordUse index filter t).Keeps scope (some method)
      fun s => ∀ u ∈ s.written (fun _ => true), BodyWrites filter method.signature u := by
  refine .ask fun ctx _ hexec => ?_
  simp only [hexec]
  split
  · exact .skip
  · split
    · split
      · exact .skip
      · rename_i hexcluded
        refine .put fun u hu => ?_
        rcases Step.mem_written_put.1 hu with hu | hu
        · rcases List.mem_cons.1 hu with rfl | hu
          · exact .node (.inr rfl)
          · cases List.mem_singleton.1 hu
            exact .use (Bool.not_eq_true _ ▸ hexcluded)
        · cases hu
    · exact .skip
    · split
      · exact .skip
      · refine .say fun s hs u hu => ?_
        cases List.mem_singleton.1 hs
        cases hu

/-- The walk of a method declares its parameters, then says what its body does. -/
theorem executable_keeps (decl : MethodDecl) (signature : String) (scope : FileScope) :
    Walk.Keeps scope (some ⟨signature, decl.isConstructor⟩)
      (fun s => ∀ u ∈ s.written (fun _ => true), BodyWrites filter signature u)
      (.andThen (declareParams decl.params (paramType index)) <|
        match m.child? "body" with
        | some b => visit index filter false b
        | none => .skip) := by
  refine .andThen (declareParams_keeps _ _) ?_
  split
  · exact visit_keeps_of filter (recordCall_writes_body _) (recordUse_writes_body _) false _
  · exact .skip

theorem restores_recordExecutable (m : Tree) (decl : MethodDecl) (signature : String) :
    (recordExecutable index filter m decl signature).Restores :=
  Walk.restores_inExecutable decl.typeParams fun scope =>
    Walk.Keeps.mono (executable_keeps decl signature scope) fun _ _ => trivial

/-- **What the body of a method writes** leads from the method to methods and to
classes that are not excluded. -/
theorem bodyWrites_of_mem_writes {decl : MethodDecl} {signature : String}
    (hu : u ∈ (recordExecutable index filter m decl signature).writes ctx) :
    BodyWrites filter signature u := by
  obtain ⟨s, hs, hu⟩ := mem_writtenAll.1 hu
  exact (executable_keeps decl signature ctx.file
    (ctx.enterExecutable ⟨signature, decl.isConstructor⟩ decl.typeParams) rfl rfl).2 s hs u hu

theorem kind_of_methodDecl? {decl : MethodDecl} (h : methodDecl? m = some decl) :
    m.kind = "method_declaration" ∨ m.kind = "constructor_declaration" := by
  unfold methodDecl? at h
  dsimp only at h
  split at h
  · exact .inl ‹_›
  · split at h
    · exact .inr ‹_›
    · cases h

theorem restores_recordMethod (m : Tree) (q : String) :
    (recordMethod index filter file m q).Restores := by
  cases hdecl : methodDecl? m with
  | none =>
    rw [recordMethod, hdecl]
    exact Walk.restores_say _
  | some decl =>
    cases hsignature : index.signature q decl with
    | error e =>
      rw [recordMethod, hdecl]
      dsimp only
      rw [hsignature]
      exact Walk.restores_say _
    | ok signature =>
      rw [recordMethod_eq hdecl hsignature]
      exact .guarded _ _ (.andThen (Walk.restores_put _ _)
        (restores_recordExecutable m decl signature))

/-- **What recording a method writes**: its node, its membership and what its body does. -/
theorem mem_writes_recordMethod :
    u ∈ (recordMethod index filter file m q).writes ctx ↔
      ∃ decl signature, methodDecl? m = some decl ∧ index.signature q decl = .ok signature ∧
        (u ∈ Entry.method signature (methodDetail file m decl) ∨
          u = .edge ⟨.classType, q⟩ ⟨.method, signature⟩ decl.membership ∨
          u ∈ (recordExecutable index filter m decl signature).writes ctx) := by
  constructor
  · intro hu
    cases hdecl : methodDecl? m with
    | none =>
      rw [recordMethod, hdecl] at hu
      exact absurd hu Walk.notMem_writes_unresolved
    | some decl =>
      cases hsignature : index.signature q decl with
      | error e =>
        rw [recordMethod, hdecl] at hu
        dsimp only at hu
        rw [hsignature] at hu
        exact absurd hu Walk.notMem_writes_unresolved
      | ok signature =>
        rw [recordMethod_eq hdecl hsignature, Walk.mem_writes_guarded,
          Walk.mem_writes_andThen (Walk.restores_put _ _), Walk.mem_writes_put,
          List.mem_singleton] at hu
        exact ⟨decl, signature, rfl, hsignature, hu⟩
  · rintro ⟨decl, signature, hdecl, hsignature, hu⟩
    rw [recordMethod_eq hdecl hsignature, Walk.mem_writes_guarded,
      Walk.mem_writes_andThen (Walk.restores_put _ _), Walk.mem_writes_put, List.mem_singleton]
    exact hu

end CodeGraph.Java
