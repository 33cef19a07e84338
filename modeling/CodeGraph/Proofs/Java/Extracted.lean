import CodeGraph.Proofs.Java.Declared
import CodeGraph.Proofs.Java.Steps
import CodeGraph.Proofs.Java.Walks

/-!
# What files write

Where the upserts of a file come from (`Origin`): attributes are given to the file's own
node, to the types it declares and to their methods and fields, and to nothing else; calls
lead to methods of indexed types.

* `extract_sound`: the steps of a file are sound, and each upsert has an origin.
-/

namespace CodeGraph.Java

variable {index : ProjectIndex} {filter : NamespaceFilter} {file : String} {scope : FileScope}
  {executable : Option Executable} {R : String → Tree → Prop} {known : List NodeKey}
  {outer : Option String} {t d : Tree} {q : String}

/-- Where an upsert of a file comes from, `R` relating the names of the file's types to their
declarations. -/
inductive Origin (index : ProjectIndex) (file : String) (R : String → Tree → Prop) : Upsert → Prop
  | stub {key : NodeKey} : Origin index file R (.node key Dict.empty)
  | file : Origin index file R (.node ⟨.file, file⟩ (Dict.ofList [("type", .text "java")]))
  | classType {q : String} {d : Tree} {given : Attributes} (h : R q d) :
      Origin index file R (.node ⟨.classType, q⟩ given)
  | method {q : String} {d m : Tree} {decl : MethodDecl} {signature : String} {given : Attributes}
      (h : R q d) (hm : m ∈ typeMembers d) (hdecl : methodDecl? m = some decl)
      (hsignature : index.signature q decl = .ok signature) :
      Origin index file R (.node ⟨.method, signature⟩ given)
  | field {q : String} {d : Tree} {kind : TypeKind} {f : FieldDecl} {given : Attributes} (h : R q d)
      (hkind : TypeKind.ofTreeKind? d.kind = some kind) (hf : f ∈ fieldsOf kind q d) :
      Origin index file R (.node (.ofField q f.name) given)
  | edge {start target : NodeKey} {relation : Relation} (h : relation ≠ .callsMethod) :
      Origin index file R (.edge start target relation)
  | call {caller callee : String} (h : index.IsCallee callee) :
      Origin index file R (.edge ⟨.method, caller⟩ ⟨.method, callee⟩ .callsMethod)

/-! ## Soundness -/

theorem sound_of_bodyStep (method : Executable) (hmethod : ⟨.method, method.signature⟩ ∈ known)
    {s : Step} (h : BodyStep index (some method) s) : s.Sound (Origin index file R) known := by
  cases h with
  | unresolved => exact .unresolved
  | call hcallee =>
    refine .put ⟨List.mem_cons_of_mem _ hmethod, List.mem_cons_self, trivial⟩ fun u hu => ?_
    rcases List.mem_cons.1 hu with rfl | hu
    · exact .stub
    · cases List.mem_singleton.1 hu
      exact .call hcallee
  | use =>
    refine .put ⟨List.mem_cons_of_mem _ hmethod, List.mem_cons_self, trivial⟩ fun u hu => ?_
    rcases List.mem_cons.1 hu with rfl | hu
    · exact .stub
    · cases List.mem_singleton.1 hu
      exact .edge (by decide)

/-- A single relationship between known nodes. -/
theorem sound_edge {start target : NodeKey} {relation : Relation} {tally : Option Tally}
    (hstart : start ∈ known) (htarget : target ∈ known) (h : relation ≠ .callsMethod) :
    (Step.put [.edge start target relation] tally []).Sound (Origin index file R) known :=
  .put ⟨hstart, htarget, trivial⟩ fun u hu => by
    cases List.mem_singleton.1 hu
    exact .edge h

/-- A known node and one that is known by reference. -/
theorem sound_stub_edge {start target : NodeKey} {relation : Relation} {tally : Option Tally}
    (hstart : start ∈ known) (h : relation ≠ .callsMethod) :
    (Step.put [.node target Dict.empty, .edge start target relation] tally []).Sound
      (Origin index file R) known :=
  .put ⟨List.mem_cons_of_mem _ hstart, List.mem_cons_self, trivial⟩ fun u hu => by
    rcases List.mem_cons.1 hu with rfl | hu
    · exact .stub
    · cases List.mem_singleton.1 hu
      exact .edge h

theorem recordSupertype_keeps {entry : String → Entry}
    (h : ∀ name, (Step.put (entry name) none []).Sound (Origin index file R) known) (type : Tree) :
    (recordSupertype index entry type).Keeps scope executable
      (Step.Sound (Origin index file R) known) := by
  refine .ask fun ctx _ _ => ?_
  split
  · exact .put (h _)
  · exact .say fun s hs => by cases List.mem_singleton.1 hs; exact .unresolved

theorem recordSupertypes_keeps (kind : TypeKind) (hq : ⟨.classType, q⟩ ∈ known) :
    (recordSupertypes index t kind q).Keeps scope executable
      (Step.Sound (Origin index file R) known) := by
  have hextends (name : String) :
      (Step.put (Entry.classExtends q name) none []).Sound (Origin index file R) known :=
    sound_stub_edge hq (by decide)
  have himplements (name : String) :
      (Step.put (Entry.classImplements q name) none []).Sound (Origin index file R) known :=
    sound_stub_edge hq (by decide)
  refine .andThen (.all fun w hw => ?_) (.all fun w hw => ?_)
  · obtain ⟨type, -, rfl⟩ := List.mem_map.1 hw
    exact recordSupertype_keeps hextends type
  · obtain ⟨type, -, rfl⟩ := List.mem_map.1 hw
    split
    · exact recordSupertype_keeps hextends type
    · exact recordSupertype_keeps himplements type

theorem recordField_keeps {f : FieldDecl} {kind : TypeKind} (hq : ⟨.classType, q⟩ ∈ known)
    (hR : R q d) (hkind : TypeKind.ofTreeKind? d.kind = some kind) (hf : f ∈ fieldsOf kind q d)
    (type : WrittenType) (initial : String) :
    (recordField index filter t q f.name type initial).Keeps scope executable
      (Step.Sound (Origin index file R) known) := by
  have hnode (given : Attributes) : Origin index file R (.node (.ofField q f.name) given) :=
    .field hR hkind hf
  refine .ask fun ctx _ _ => ?_
  split
  · exact .say fun s hs => by cases List.mem_singleton.1 hs; exact .unresolved
  · rename_i resolved _
    have hplain (detail : FieldDetail) (hname : detail.name = f.name) :
        (Step.put (Entry.fieldOf q detail) (some .fields) []).Sound
          (Origin index file R) known := by
      obtain ⟨name, typeName, value⟩ := detail
      cases hname
      refine .put ⟨List.mem_cons_of_mem _ hq, List.mem_cons_self, trivial⟩ fun u hu => ?_
      rcases List.mem_cons.1 hu with rfl | hu
      · exact hnode _
      · cases List.mem_singleton.1 hu
        exact .edge (by decide)
    have htyped (detail : FieldDetail) (hname : detail.name = f.name) (type : String) :
        (Step.put (Entry.typedFieldOf q detail type) (some .fields) []).Sound (Origin index file R)
          known := by
      obtain ⟨name, typeName, value⟩ := detail
      cases hname
      refine .put ⟨List.mem_cons_of_mem _ hq, List.mem_cons_self, ?_⟩ fun u hu => ?_
      · exact ⟨List.mem_cons_of_mem _ List.mem_cons_self, List.mem_cons_self, trivial⟩
      · simp only [Entry.typedFieldOf, Entry.fieldOf, Entry.classStub, Entry.stub, List.cons_append,
          List.nil_append, List.mem_cons, List.not_mem_nil, or_false] at hu
        rcases hu with rfl | rfl | rfl | rfl
        · exact hnode _
        · exact .edge (by decide)
        · exact .stub
        · exact .edge (by decide)
    unfold fieldEntry?
    dsimp only
    cases resolved with
    | primitive name => exact .put (hplain _ rfl)
    | reference qualified args =>
      dsimp only
      split
      · rename_i entry hentry
        split at hentry
        · cases hentry
          exact .put (hplain _ rfl)
        · cases hentry
          exact .put (htyped _ rfl qualified)
      · exact .skip
    | _ => exact .skip

theorem recordFields_keeps {m : Tree} {kind : TypeKind} (hq : ⟨.classType, q⟩ ∈ known) (hR : R q d)
    (hkind : TypeKind.ofTreeKind? d.kind = some kind) (hm : m ∈ typeMembers d)
    (hfield : m.kind = "field_declaration" ∨ m.kind = "constant_declaration") :
    (recordFields index filter m q).Keeps scope executable
      (Step.Sound (Origin index file R) known) := by
  refine .all fun w hw => ?_
  obtain ⟨⟨f, declarator⟩, hmem, rfl⟩ := List.mem_map.1 hw
  exact recordField_keeps hq hR hkind
    (mem_fieldsOf_of_mem_fieldDecls kind hm hfield (List.of_mem_zip hmem).1) f.type _

theorem recordComponentFields_keeps (hq : ⟨.classType, q⟩ ∈ known) (hR : R q d)
    (hkind : TypeKind.ofTreeKind? d.kind = some .recordKind) :
    (recordComponentFields index filter d q).Keeps scope executable
      (Step.Sound (Origin index file R) known) := by
  refine .all fun w hw => ?_
  obtain ⟨c, hc, rfl⟩ := List.mem_map.1 hw
  obtain ⟨hc, hformal⟩ := List.mem_filter.1 hc
  have hformal := eq_of_beq hformal
  split
  · rename_i type name htype hname
    split
    · rename_i written hwritten
      exact recordField_keeps hq hR hkind
        (component_mem_fieldsOf (mem_parameterTrees hc hformal) hformal htype hname hwritten)
          written ""
    · exact .skip
  · exact .skip

theorem recordMethod_keeps {m : Tree} (hq : ⟨.classType, q⟩ ∈ known) (hR : R q d)
    (hm : m ∈ typeMembers d) :
    (recordMethod index filter file m q).Keeps scope executable
      (Step.Sound (Origin index file R) known) := by
  have hunresolved (what : Unresolved) :
      Walk.Keeps scope executable (Step.Sound (Origin index file R) known)
        (.say [.unresolved m.startLine what]) :=
    .say fun s hs => by cases List.mem_singleton.1 hs; exact .unresolved
  unfold recordMethod
  split
  · exact hunresolved _
  · rename_i decl hdecl
    split
    · exact hunresolved _
    · rename_i signature hsignature
      have hmember {relation : Relation} (h : relation ≠ .callsMethod) :
          (Step.put [.edge ⟨.classType, q⟩ ⟨.method, signature⟩ relation] none []).Sound
            (Origin index file R) (⟨.method, signature⟩ :: known) :=
        sound_edge (List.mem_cons_of_mem _ hq) List.mem_cons_self h
      refine Walk.Keeps.guarded (P :=
        Step.Sound (Origin index file R) (⟨.method, signature⟩ :: known)) (.andThen (.put ?_)
          (.inExecutable decl.typeParams (.andThen (declareParams_keeps _ _) ?_)))
        fun inside hinside => .guard (.method hR hm hdecl hsignature) hinside
      · split
        · exact hmember (by decide)
        · exact hmember (by decide)
      · split
        · exact (visit_keeps filter false _).mono fun s hs =>
            sound_of_bodyStep ⟨signature, decl.isConstructor⟩ List.mem_cons_self hs
        · exact .skip

/-- How a type is named under an outer one, or at the top of a file. -/
def nameUnder (scope : FileScope) : (outer : Option String) → String → String
  | some outer => dotted outer
  | none => scope.qualify

/-- Record a type as a member of the one around it, if there is one. -/
def recordNesting (outer : Option String) (qualified : String) : Walk :=
  match outer with
  | some outer => .put (Entry.nestedClass outer qualified) none
  | none => .skip

/-- Record one member of a type. -/
def recordMember (index : ProjectIndex) (filter : NamespaceFilter) (file qualified : String)
    (m : Tree) :
    Walk :=
  match m.kind with
  | "field_declaration" | "constant_declaration" => recordFields index filter m qualified
  | "method_declaration" | "constructor_declaration" => recordMethod index filter file m qualified
  | _ => recordType index filter file (some qualified) m

/-- What is recorded of a type once its node is written. -/
def recordBody (index : ProjectIndex) (filter : NamespaceFilter) (file : String)
    (outer : Option String) (t : Tree) (kind : TypeKind) (qualified : String) : Walk :=
  .andThen (.put (Entry.classIn file qualified) none) <| .andThen (recordNesting outer qualified) <|
    .within (·.enterClass qualified (typeParameters t)) <|
      .andThen (recordSupertypes index t kind qualified) <|
        .andThen (if kind = .recordKind then recordComponentFields index filter t qualified
          else .skip) <|
          .all ((typeMembers t).map (recordMember index filter file qualified))

theorem recordType_eq {kind : TypeKind} {n : Tree} (hkind : TypeKind.ofTreeKind? t.kind = some kind)
    (hn : t.child? "name" = some n) :
    recordType index filter file outer t = .ask fun ctx =>
      .guarded (Entry.classType (nameUnder ctx.file outer n.text) kind.name) .classes
        (recordBody index filter file outer t kind (nameUnder ctx.file outer n.text)) := by
  rw [recordType, hkind, hn]
  dsimp only
  refine congrArg Walk.ask (funext fun ctx => ?_)
  -- the two sides differ in how they come to the members of the body
  cases outer
  all_goals
    refine congrArg (Walk.guarded _ _) (congrArg (Walk.andThen _) (congrArg (Walk.andThen _)
      (congrArg (Walk.within _) (congrArg (Walk.andThen _) (congrArg (Walk.andThen _) ?_)))))
    split
    · rename_i hbody
      rw [typeMembers, hbody]
      rfl
    · rename_i body hbody
      rw [typeMembers, hbody, Option.elim_some]
      conv_rhs => rw [← List.attach_map_subtype_val (bodyMembers body), List.map_map]
      rfl

theorem recordType_of_none (h : TypeKind.ofTreeKind? t.kind = none ∨ t.child? "name" = none) :
    recordType index filter file outer t = .skip := by
  rw [recordType]
  split
  · rename_i hkind hn
    rcases h with h | h
    · rw [h] at hkind; cases hkind
    · rw [h] at hn; cases hn
  · rfl

theorem recordMember_keeps {m : Tree} {kind : TypeKind} (hq : ⟨.classType, q⟩ ∈ known) (hR : R q d)
    (hkind : TypeKind.ofTreeKind? d.kind = some kind) (hm : m ∈ typeMembers d)
    (hnested : (recordType index filter file (some q) m).Keeps scope executable
      (Step.Sound (Origin index file R) known)) :
    (recordMember index filter file q m).Keeps scope executable
      (Step.Sound (Origin index file R) known) := by
  unfold recordMember
  split
  case h_1 hfield => exact recordFields_keeps hq hR hkind hm (.inl hfield)
  case h_2 hfield => exact recordFields_keeps hq hR hkind hm (.inr hfield)
  case h_3 | h_4 => exact recordMethod_keeps hq hR hm
  case h_5 => exact hnested

theorem recordBody_keeps {kind : TypeKind} (hfile : ⟨.file, file⟩ ∈ known)
    (hq : ⟨.classType, q⟩ ∈ known) (houter : ∀ o, outer = some o → ⟨.classType, o⟩ ∈ known)
    (hR : R q t) (hkind : TypeKind.ofTreeKind? t.kind = some kind)
    (hnested : ∀ m ∈ typeMembers t, (recordType index filter file (some q) m).Keeps scope executable
      (Step.Sound (Origin index file R) known)) :
    (recordBody index filter file outer t kind q).Keeps scope executable
      (Step.Sound (Origin index file R) known) := by
  refine .andThen (.put (sound_edge hfile hq (by decide)))
    (.andThen ?_ (.inClass q (typeParameters t)
    (.andThen (recordSupertypes_keeps kind hq) (.andThen ?_ (.all fun w hw => ?_)))))
  · cases outer with
    | none => exact .skip
    | some o => exact .put (sound_edge (houter o rfl) hq (by decide))
  · split
    · rename_i hrecord
      exact recordComponentFields_keeps hq hR (hrecord ▸ hkind)
    · exact .skip
  · obtain ⟨m, hm, rfl⟩ := List.mem_map.1 hw
    exact recordMember_keeps hq hR hkind hm (hnested m hm)

theorem recordType_keeps (hfile : ⟨.file, file⟩ ∈ known)
    (houter : ∀ o, outer = some o → ⟨.classType, o⟩ ∈ known)
    (hR : ∀ q d, Declares dotted (nameUnder scope outer) t q d → R q d) :
    (recordType index filter file outer t).Keeps scope executable
      (Step.Sound (Origin index file R) known) := by
  induction hsize : t.size using Nat.strongRecOn generalizing t outer known with
  | _ size ih =>
    subst hsize
    cases hkind : TypeKind.ofTreeKind? t.kind with
    | none => rw [recordType_of_none (.inl hkind)]; exact .skip
    | some kind =>
      cases hn : t.child? "name" with
      | none => rw [recordType_of_none (.inr hn)]; exact .skip
      | some n =>
        rw [recordType_eq hkind hn]
        refine .ask fun ctx hctx _ => ?_
        rw [hctx]
        have hself := hR _ t (.self hkind hn)
        refine Walk.Keeps.guarded
          (recordBody_keeps (List.mem_cons_of_mem _ hfile) List.mem_cons_self
            (fun o ho => List.mem_cons_of_mem _ (houter o ho)) hself hkind fun m hm => ?_)
          fun inside hinside => .guard (.classType hself) hinside
        refine ih m.size (size_lt_of_mem_typeMembers hm) (List.mem_cons_of_mem _ hfile)
          (fun o ho => ?_) (fun q' d' hd => hR q' d' (.member hkind hn hm hd)) rfl
        cases ho
        exact List.mem_cons_self

theorem recordChild_keeps (hfile : ⟨.file, file⟩ ∈ known)
    (hR : ∀ q d, Declares dotted scope.qualify t q d → R q d) :
    (recordChild index filter file t).Keeps scope
      none (Step.Sound (Origin index file R) known) := by
  unfold recordChild
  split
  · split
    · exact .put (sound_stub_edge hfile (by decide))
    · exact .skip
  · split
    · exact .put (sound_stub_edge hfile (by decide))
    · exact .skip
  · exact recordType_keeps hfile (fun o ho => by cases ho) hR

/-- The scope in which a file is walked. -/
def walkScope (index : ProjectIndex) (file : SourceFile) : FileScope :=
  (index.fileScope? file.path).getD file.scope

/-- A file whose path no other file has is walked in its own scope. -/
theorem walkScope_build_of_unique {files : List SourceFile} {file : SourceFile}
    (hfile : file ∈ files) (h : ∀ other ∈ files, Path.normal other.path = Path.normal file.path →
      other = file) :
    walkScope (.build files) file = file.scope := by
  rw [walkScope, ProjectIndex.fileScope?_build_of_unique hfile h, Option.getD_some]

/-- With distinct paths every file is walked in its own scope. -/
theorem walkScope_build {files : List SourceFile} (h : files.Pairwise ProjectIndex.PathsApart)
    {file : SourceFile} (hfile : file ∈ files) : walkScope (.build files) file = file.scope := by
  rw [walkScope, ProjectIndex.fileScope?_build h hfile, Option.getD_some]

/-- **The steps of a file are sound** once its own node is written, and every upsert
has an origin. -/
theorem extract_sound (index : ProjectIndex) (filter : NamespaceFilter) (file : SourceFile) :
    ∀ s ∈ extract index filter file,
      s.Sound (Origin index file.path (file.Declares dotted (walkScope index file).qualify))
        [⟨.file, file.path⟩] := by
  have hwalk : Walk.Keeps (walkScope index file) none
      (Step.Sound (Origin index file.path (file.Declares dotted (walkScope index file).qualify))
        [⟨.file, file.path⟩])
      (.all (file.root.named.map (recordChild index filter file.path))) := by
    refine .all fun w hw => ?_
    obtain ⟨c, hc, rfl⟩ := List.mem_map.1 hw
    exact recordChild_keeps List.mem_cons_self fun q d hd => ⟨c, hc, hd⟩
  exact (hwalk (Context.ofFile (walkScope index file)) rfl rfl).2

end CodeGraph.Java
