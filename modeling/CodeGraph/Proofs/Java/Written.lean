import CodeGraph.Proofs.Java.Parts

/-!
# What a walk comes to and writes

`Reaches` says at which types the walk of a declaration arrives, and in which contexts, `TypeWrites`
what it writes of each, `TypeLinks` which relationships those are.

* `mem_writes_recordType_iff`: the walk of a declaration writes what is written of
  the types it comes to.
* `headWrites_or_typeWrites`, `mem_written_of_typeWrites`: so does the walk of a file, and beside
  them its package and its imports.
* `mem_written_of_declares`, `mem_written_of_mem_typeMembers`: every declared type is written, and
  every method in its body whose signature resolves.
* `mem_written_iff_typeLinks`: the relationships to supertypes and methods.
-/

namespace CodeGraph.Java

variable {index : ProjectIndex} {filter : NamespaceFilter} {file : String} {ctx ctx' : Context}
  {outer outer' : Option String} {t d m : Tree} {q : String} {u : Upsert}

/-! ## Types -/

/-- `Reaches ctx outer t ctx' outer' q d`: the walk of `t` in the context `ctx` under
the type `outer` comes to the declaration `d` of the type `q`, in the context `ctx'`
and under the type `outer'`. -/
inductive Reaches : Context → Option String → Tree → Context → Option String → String → Tree → Prop
  | self {ctx : Context} {outer : Option String} {t n : Tree} {kind : TypeKind}
      (hkind : TypeKind.ofTreeKind? t.kind = some kind) (hn : t.child? "name" = some n) :
      Reaches ctx outer t ctx outer (nameUnder ctx.file outer n.text) t
  | member {ctx ctx' : Context} {outer outer' : Option String} {t n m d : Tree} {kind : TypeKind}
      {q : String} (hkind : TypeKind.ofTreeKind? t.kind = some kind) (hn : t.child? "name" = some n)
      (hm : m ∈ typeMembers t)
      (h : Reaches (ctx.enterClass (nameUnder ctx.file outer n.text) (typeParameters t))
        (some (nameUnder ctx.file outer n.text)) m ctx' outer' q d) :
      Reaches ctx outer t ctx' outer' q d

/-- What is written of a type that the walk comes to in a context. -/
inductive TypeWrites (index : ProjectIndex) (filter : NamespaceFilter) (file : String)
    (ctx : Context) (outer : Option String) (q : String) (d : Tree) : Upsert → Prop
  | node {kind : TypeKind} {u : Upsert} (hkind : TypeKind.ofTreeKind? d.kind = some kind)
      (h : u ∈ Entry.classType q kind.name) : TypeWrites index filter file ctx outer q d u
  | inFile :
      TypeWrites index filter file ctx outer q d (.edge ⟨.file, file⟩ ⟨.classType, q⟩ .hasClass)
  | nested {o : String} (h : outer = some o) :
      TypeWrites index filter file ctx outer q d (.edge ⟨.classType, o⟩ ⟨.classType, q⟩ .hasClass)
  | supertype {kind : TypeKind} {u : Upsert} (hkind : TypeKind.ofTreeKind? d.kind = some kind)
      (h : u ∈ (recordSupertypes index d kind q).writes (ctx.enterClass q (typeParameters d))) :
      TypeWrites index filter file ctx outer q d u
  | component {u : Upsert} (hkind : TypeKind.ofTreeKind? d.kind = some .recordKind)
      (h : u ∈ (recordComponentFields index filter d q).writes
        (ctx.enterClass q (typeParameters d))) :
      TypeWrites index filter file ctx outer q d u
  | field {m : Tree} {u : Upsert} (hm : m ∈ typeMembers d)
      (hkind : m.kind = "field_declaration" ∨ m.kind = "constant_declaration")
      (h : u ∈ (recordFields index filter m q).writes (ctx.enterClass q (typeParameters d))) :
      TypeWrites index filter file ctx outer q d u
  | method {m : Tree} {u : Upsert} (hm : m ∈ typeMembers d)
      (hkind : m.kind = "method_declaration" ∨ m.kind = "constructor_declaration")
      (h : u ∈ (recordMethod index filter file m q).writes (ctx.enterClass q (typeParameters d))) :
      TypeWrites index filter file ctx outer q d u

/-- What a walk comes to the tree declares. -/
theorem Reaches.declares (h : Reaches ctx outer t ctx' outer' q d) :
    Declares dotted (nameUnder ctx.file outer) t q d := by
  induction h with
  | self hkind hn => exact .self hkind hn
  | member hkind hn hm _ ih => exact .member hkind hn hm ih

theorem Reaches.file_eq (h : Reaches ctx outer t ctx' outer' q d) : ctx'.file = ctx.file := by
  induction h with
  | self => rfl
  | member _ _ _ _ ih => exact ih

/-- The types that a walk comes to are the ones that the tree declares. -/
theorem exists_reaches_iff :
    (∃ ctx' outer', Reaches ctx outer t ctx' outer' q d) ↔
      Declares dotted (nameUnder ctx.file outer) t q d := by
  refine ⟨fun ⟨ctx', outer', h⟩ => h.declares, fun h => ?_⟩
  generalize hname : nameUnder ctx.file outer = name at h
  induction h generalizing ctx outer with
  | self hkind hn =>
    subst hname
    exact ⟨ctx, outer, .self hkind hn⟩
  | @member name t n m d kind q hkind hn hm _ ih =>
    subst hname
    let inside := ctx.enterClass (nameUnder ctx.file outer n.text) (typeParameters t)
    have hinside : nameUnder inside.file (some (nameUnder ctx.file outer n.text)) =
        dotted (nameUnder ctx.file outer n.text) := rfl
    obtain ⟨ctx', outer', h⟩ := ih hinside
    exact ⟨ctx', outer', .member hkind hn hm h⟩

theorem restores_recordNesting (outer : Option String) (q : String) :
    (recordNesting outer q).Restores := by
  cases outer with
  | none => exact Walk.restores_skip
  | some o => exact Walk.restores_put _ _

theorem restores_components (t : Tree) (kind : TypeKind) (q : String) :
    Walk.Restores
      (if kind = .recordKind then recordComponentFields index filter t q else .skip) := by
  split
  · exact restores_recordComponentFields t q
  · exact Walk.restores_skip

theorem restores_recordType (t : Tree) (outer : Option String) :
    (recordType index filter file outer t).Restores := by
  induction hsize : t.size using Nat.strongRecOn generalizing t outer with
  | _ size ih =>
    subst hsize
    cases hkind : TypeKind.ofTreeKind? t.kind with
    | none =>
      rw [recordType_of_none (.inl hkind)]
      exact Walk.restores_skip
    | some kind =>
      cases hn : t.child? "name" with
      | none =>
        rw [recordType_of_none (.inr hn)]
        exact Walk.restores_skip
      | some n =>
        rw [recordType_eq hkind hn]
        refine .ask fun ctx => .guarded _ _ (.andThen (Walk.restores_put _ _) (.andThen
          (restores_recordNesting _ _)
            (.inClass _ _ (.andThen (restores_recordSupertypes _ _ _)
              (.andThen (restores_components _ _ _) (.all fun w hw => ?_))))))
        obtain ⟨m, hm, rfl⟩ := List.mem_map.1 hw
        unfold recordMember
        split
        case h_1 | h_2 => exact restores_recordFields m _
        case h_3 | h_4 => exact restores_recordMethod m _
        case h_5 => exact ih m.size (size_lt_of_mem_typeMembers hm) m _ rfl

theorem restores_recordMember (m : Tree) (q : String) :
    (recordMember index filter file q m).Restores := by
  unfold recordMember
  split
  case h_1 | h_2 => exact restores_recordFields m q
  case h_3 | h_4 => exact restores_recordMethod m q
  case h_5 => exact restores_recordType m (some q)

theorem restores_map_recordMember (ms : List Tree) (q : String) :
    ∀ w ∈ ms.map (recordMember index filter file q), w.Restores := by
  intro w hw
  obtain ⟨m, -, rfl⟩ := List.mem_map.1 hw
  exact restores_recordMember m q

/-- What is said of a type before its members: its place, its supertypes and its components. -/
def headSteps (index : ProjectIndex) (filter : NamespaceFilter) (file : String)
    (outer : Option String) (t : Tree) (kind : TypeKind) (q : String) (ctx : Context) : List Step :=
  let inside := ctx.enterClass q (typeParameters t)
  let components : Walk :=
    if kind = .recordKind then recordComponentFields index filter t q else .skip
  .put (Entry.classIn file q) none [] :: (recordNesting outer q ctx).2 ++
    ((recordSupertypes index t kind q inside).2 ++ (components inside).2)

/-- **What the walk of a declaration says, part by part:** the type itself, and under it what is
said before its members and then what each of its members says from inside the type. -/
theorem steps_recordType {kind : TypeKind} {n : Tree}
    (hkind : TypeKind.ofTreeKind? t.kind = some kind) (hn : t.child? "name" = some n)
    (hq : q = nameUnder ctx.file outer n.text) :
    (recordType index filter file outer t ctx).2 =
      [.put (Entry.classType q kind.name) (some .classes)
        (headSteps index filter file outer t kind q ctx ++ (typeMembers t).flatMap fun m =>
          (recordMember index filter file q m (ctx.enterClass q (typeParameters t))).2)] := by
  have hinside (inside : Context) :
      (Walk.andThen (recordSupertypes index t kind q) (.andThen
        (if kind = .recordKind then recordComponentFields index filter t q else .skip)
        (.all ((typeMembers t).map (recordMember index filter file q)))) inside).2 =
      (recordSupertypes index t kind q inside).2 ++
        (((if kind = .recordKind then recordComponentFields index filter t q
          else .skip : Walk) inside).2 ++
          (typeMembers t).flatMap fun m => (recordMember index filter file q m inside).2) := by
    rw [Walk.steps_andThen (restores_recordSupertypes _ _ _),
      Walk.steps_andThen (restores_components _ _ _),
      Walk.steps_all (restores_map_recordMember _ _), List.flatMap_map]
  have hbody : (recordType index filter file outer t ctx).2 =
      [.put (Entry.classType q kind.name) (some .classes)
        (recordBody index filter file outer t kind q ctx).2] := by
    rw [recordType_eq hkind hn, hq]
    rfl
  rw [hbody, recordBody, Walk.steps_andThen (Walk.restores_put _ _),
    Walk.steps_andThen (restores_recordNesting _ _), Walk.within, hinside]
  simp only [headSteps, List.append_assoc, List.cons_append]
  rfl

/-- What the walk of a declaration writes, part by part. -/
theorem mem_writes_recordType {kind : TypeKind} {n : Tree}
    (hkind : TypeKind.ofTreeKind? t.kind = some kind) (hn : t.child? "name" = some n)
    (hq : q = nameUnder ctx.file outer n.text) :
    u ∈ (recordType index filter file outer t).writes ctx ↔
      u ∈ Entry.classType q kind.name ∨ u ∈ Entry.classIn file q ∨
      u ∈ (recordNesting outer q).writes ctx ∨
      u ∈ (recordSupertypes index t kind q).writes (ctx.enterClass q (typeParameters t)) ∨
      u ∈ Walk.writes (if kind = .recordKind then recordComponentFields index filter t q else .skip)
        (ctx.enterClass q (typeParameters t)) ∨
      ∃ m ∈ typeMembers t,
        u ∈ (recordMember index filter file q m).writes (ctx.enterClass q (typeParameters t)) := by
  have hmembers : ∀ w ∈ (typeMembers t).map (recordMember index filter file q), w.Restores :=
    restores_map_recordMember _ q
  subst hq
  rw [recordType_eq hkind hn, Walk.writes_ask, Walk.mem_writes_guarded, recordBody,
    Walk.mem_writes_andThen (Walk.restores_put _ _), Walk.mem_writes_put,
    Walk.mem_writes_andThen (restores_recordNesting _ _), Walk.writes_within,
    Walk.mem_writes_andThen (restores_recordSupertypes _ _ _),
    Walk.mem_writes_andThen (restores_components _ _ _), Walk.mem_writes_all hmembers]
  simp only [List.mem_map, exists_exists_and_eq_and]

/-- A member that declares a type is recorded as one. -/
theorem recordMember_of_declaresType (h : declaresType m = true) :
    recordMember index filter file q m = recordType index filter file (some q) m := by
  unfold recordMember
  split
  case h_5 => rfl
  all_goals
    rename_i hm
    rw [declaresType, hm] at h
    cases h

/-- What the walk of a declaration writes is written of the type or of a member type. -/
theorem typeWrites_or_mem_writes {kind : TypeKind} {n : Tree}
    (hkind : TypeKind.ofTreeKind? t.kind = some kind) (hn : t.child? "name" = some n)
    (hq : q = nameUnder ctx.file outer n.text)
    (hu : u ∈ (recordType index filter file outer t).writes ctx) :
    TypeWrites index filter file ctx outer q t u ∨ ∃ m ∈ typeMembers t,
      u ∈ (recordType index filter file (some q) m).writes
        (ctx.enterClass q (typeParameters t)) := by
  rcases (mem_writes_recordType hkind hn hq).1 hu with hu | hu | hu | hu | hu | ⟨m, hm, hu⟩
  · exact .inl (.node hkind hu)
  · cases List.mem_singleton.1 hu
    exact .inl .inFile
  · cases outer with
    | none => exact absurd hu Walk.notMem_writes_skip
    | some o =>
      cases List.mem_singleton.1 (Walk.mem_writes_put.1 hu)
      exact .inl (.nested rfl)
  · exact .inl (.supertype hkind hu)
  · split at hu
    · rename_i hrecord
      exact .inl (.component (hrecord ▸ hkind) hu)
    · exact absurd hu Walk.notMem_writes_skip
  · unfold recordMember at hu
    split at hu
    case h_1 hfield => exact .inl (.field hm (.inl hfield) hu)
    case h_2 hfield => exact .inl (.field hm (.inr hfield) hu)
    case h_3 hmethod => exact .inl (.method hm (.inl hmethod) hu)
    case h_4 hmethod => exact .inl (.method hm (.inr hmethod) hu)
    case h_5 => exact .inr ⟨m, hm, hu⟩

/-- What is written of a type, the walk of its declaration writes. -/
theorem TypeWrites.mem_writes {kind : TypeKind} {n : Tree}
    (hkind : TypeKind.ofTreeKind? t.kind = some kind) (hn : t.child? "name" = some n)
    (hq : q = nameUnder ctx.file outer n.text) (h : TypeWrites index filter file ctx outer q t u) :
    u ∈ (recordType index filter file outer t).writes ctx := by
  rw [mem_writes_recordType hkind hn hq]
  cases h with
  | node hkind' hu =>
    cases hkind.symm.trans hkind'
    exact .inl hu
  | inFile => exact .inr (.inl (List.mem_singleton_self _))
  | nested ho =>
    subst ho
    exact .inr (.inr (.inl (Walk.mem_writes_put.2 (List.mem_singleton_self _))))
  | supertype hkind' hu =>
    cases hkind.symm.trans hkind'
    exact .inr (.inr (.inr (.inl hu)))
  | component hkind' hu =>
    cases hkind.symm.trans hkind'
    exact .inr (.inr (.inr (.inr (.inl (by rwa [if_pos rfl])))))
  | field hm hfield hu =>
    refine .inr (.inr (.inr (.inr (.inr ⟨_, hm, ?_⟩))))
    rcases hfield with hfield | hfield <;> simpa only [recordMember, hfield] using hu
  | method hm hmethod hu =>
    refine .inr (.inr (.inr (.inr (.inr ⟨_, hm, ?_⟩))))
    rcases hmethod with hmethod | hmethod <;> simpa only [recordMember, hmethod] using hu

/-- **The walk of a declaration writes what is written of the types that it comes to.** -/
theorem mem_writes_recordType_iff :
    u ∈ (recordType index filter file outer t).writes ctx ↔
      ∃ ctx' outer' q d, Reaches ctx outer t ctx' outer' q d ∧
        TypeWrites index filter file ctx' outer' q d u := by
  constructor
  · intro hu
    induction hsize : t.size using Nat.strongRecOn generalizing t outer ctx with
    | _ size ih =>
      subst hsize
      cases hkind : TypeKind.ofTreeKind? t.kind with
      | none =>
        rw [recordType_of_none (.inl hkind)] at hu
        exact absurd hu Walk.notMem_writes_skip
      | some kind =>
        cases hn : t.child? "name" with
        | none =>
          rw [recordType_of_none (.inr hn)] at hu
          exact absurd hu Walk.notMem_writes_skip
        | some n =>
          rcases typeWrites_or_mem_writes hkind hn rfl hu with h | ⟨m, hm, hu⟩
          · exact ⟨ctx, outer, _, t, .self hkind hn, h⟩
          · obtain ⟨ctx', outer', q, d, hreach, h⟩ :=
              ih m.size (size_lt_of_mem_typeMembers hm) hu rfl
            exact ⟨ctx', outer', q, d, .member hkind hn hm hreach, h⟩
  · rintro ⟨ctx', outer', q, d, hreach, h⟩
    induction hreach with
    | self hkind hn => exact h.mem_writes hkind hn rfl
    | @member ctx ctx' outer outer' t n m d kind q hkind hn hm hreach ih =>
      rw [mem_writes_recordType hkind hn rfl]
      refine .inr (.inr (.inr (.inr (.inr ⟨m, hm, ?_⟩))))
      rw [recordMember_of_declaresType hreach.declares.declaresType]
      exact ih h

/-! ## Relationships to supertypes and methods -/

/-- The kinds of relationships that lead from a type to its supertypes and its methods. -/
def ownRelations : List Relation := [.extends, .implements, .hasMethod, .hasConstructor]

/-- The relationships that are written of a type, its supertypes and its methods told apart. -/
inductive TypeLinks (index : ProjectIndex) (ctx : Context) (q : String) (d : Tree) :
    NodeKey → NodeKey → Relation → Prop
  | supertype {kind : TypeKind} {type : Tree} {relation : Relation} {name : String}
      (hkind : TypeKind.ofTreeKind? d.kind = some kind)
      (hclause : type ∈ superclassTree? d ∧ relation = .extends ∨
        type ∈ interfaceTrees d kind ∧ relation = interfaceRelation kind)
      (hname : supertypeName index (ctx.enterClass q (typeParameters d)) type = .ok name) :
      TypeLinks index ctx q d ⟨.classType, q⟩ ⟨.classType, name⟩ relation
  | member {m : Tree} {decl : MethodDecl} {signature : String} (hm : m ∈ typeMembers d)
      (hdecl : methodDecl? m = some decl) (hsignature : index.signature q decl = .ok signature) :
      TypeLinks index ctx q d ⟨.classType, q⟩ ⟨.method, signature⟩ decl.membership
  | other {start target : NodeKey} {relation : Relation} (h : relation ∉ ownRelations) :
      TypeLinks index ctx q d start target relation

theorem FieldWrites.notMem_ownRelations {start target : NodeKey} {relation : Relation}
    (h : FieldWrites filter q (.edge start target relation)) : relation ∉ ownRelations := by
  cases h <;> decide

theorem BodyWrites.notMem_ownRelations {signature : String} {start target : NodeKey}
    {relation : Relation} (h : BodyWrites filter signature (.edge start target relation)) :
    relation ∉ ownRelations := by
  cases h <;> decide

theorem TypeWrites.typeLinks {start target : NodeKey} {relation : Relation}
    (h : TypeWrites index filter file ctx outer q d (.edge start target relation)) :
    TypeLinks index ctx q d start target relation := by
  cases h with
  | node hkind hu => cases List.mem_singleton.1 hu
  | inFile => exact .other (by decide)
  | nested => exact .other (by decide)
  | supertype hkind hu =>
    obtain ⟨type, relation', name, hclause, hname, hu⟩ := mem_writes_recordSupertypes.1 hu
    rcases List.mem_cons.1 hu with hu | hu
    · cases hu
    · cases List.mem_singleton.1 hu
      exact .supertype hkind hclause hname
  | component hkind hu =>
    exact .other (fieldWrites_of_mem_writes_recordComponentFields hu).notMem_ownRelations
  | field hm hkind hu =>
    exact .other (fieldWrites_of_mem_writes_recordFields hu).notMem_ownRelations
  | method hm hkind hu =>
    obtain ⟨decl, signature, hdecl, hsignature, hu | hu | hu⟩ := mem_writes_recordMethod.1 hu
    · cases List.mem_singleton.1 hu
    · cases hu
      exact .member hm hdecl hsignature
    · exact .other (bodyWrites_of_mem_writes hu).notMem_ownRelations

/-- The relationships to supertypes and methods are all written. -/
theorem TypeLinks.typeWrites {start target : NodeKey} {relation : Relation}
    (h : TypeLinks index ctx q d start target relation) (hown : relation ∈ ownRelations) :
    TypeWrites index filter file ctx outer q d (.edge start target relation) := by
  cases h with
  | supertype hkind hclause hname =>
    exact .supertype hkind (mem_writes_recordSupertypes.2
      ⟨_, _, _, hclause, hname, List.mem_append_right _ (List.mem_singleton_self _)⟩)
  | member hm hdecl hsignature =>
    exact .method hm (kind_of_methodDecl? hdecl)
      (mem_writes_recordMethod.2 ⟨_, _, hdecl, hsignature, .inr (.inl rfl)⟩)
  | other hother => exact absurd hown hother

/-! ## Files -/

/-- The walk of a file comes, in a context and under a type, to the declaration of a type. -/
def SourceFile.Reaches (index : ProjectIndex) (file : SourceFile) (ctx : Context)
    (outer : Option String) (q : String) (d : Tree) : Prop :=
  ∃ c ∈ file.root.named, Java.Reaches (.ofFile (walkScope index file)) none c ctx outer q d

/-- The types that the walk of a file comes to are the ones that the file declares. -/
theorem SourceFile.exists_reaches_iff {file : SourceFile} :
    (∃ ctx outer, file.Reaches index ctx outer q d) ↔
      file.Declares dotted (walkScope index file).qualify q d := by
  constructor
  · rintro ⟨ctx, outer, c, hc, h⟩
    exact ⟨c, hc, Java.exists_reaches_iff.1 ⟨ctx, outer, h⟩⟩
  · rintro ⟨c, hc, hd⟩
    have hd : Java.Declares dotted
        (nameUnder (Context.ofFile (walkScope index file)).file none) c q d := hd
    obtain ⟨ctx, outer, h⟩ := Java.exists_reaches_iff.2 hd
    exact ⟨ctx, outer, c, hc, h⟩

theorem SourceFile.Reaches.file_eq {file : SourceFile} (h : file.Reaches index ctx outer q d) :
    ctx.file = walkScope index file := by
  obtain ⟨c, -, h⟩ := h
  exact h.file_eq

/-- What a file says of itself: its package and its imports. -/
inductive HeadWrites (file : SourceFile) : Upsert → Prop
  | package {name : String} {u : Upsert} (h : u ∈ Entry.packageOf file.path name) :
      HeadWrites file u
  | imported {name : String} {u : Upsert} (h : u ∈ Entry.importOf file.path name) :
      HeadWrites file u

theorem restores_recordChild (c : Tree) : (recordChild index filter file c).Restores := by
  unfold recordChild
  split
  · split
    · exact Walk.restores_put _ _
    · exact Walk.restores_skip
  · split
    · exact Walk.restores_put _ _
    · exact Walk.restores_skip
  · exact restores_recordType c none

theorem restores_map_recordChild (cs : List Tree) :
    ∀ w ∈ cs.map (recordChild index filter file), w.Restores := by
  intro w hw
  obtain ⟨c, -, rfl⟩ := List.mem_map.1 hw
  exact restores_recordChild c

/-- A file says, one after another, what each of its top-level children says from
the file's own context. -/
theorem extract_eq (index : ProjectIndex) (filter : NamespaceFilter) (file : SourceFile) :
    extract index filter file = file.root.named.flatMap fun c =>
      (recordChild index filter file.path c (.ofFile (walkScope index file))).2 := by
  rw [← List.flatMap_map (recordChild index filter file.path) fun w =>
    (w (.ofFile (walkScope index file))).2, ← Walk.steps_all (restores_map_recordChild _)]
  rfl

theorem mem_written_extract {file : SourceFile} :
    u ∈ writtenAll (fun _ => true) (extract index filter file) ↔ ∃ c ∈ file.root.named,
      u ∈ (recordChild index filter file.path c).writes (.ofFile (walkScope index file)) := by
  simp only [extract_eq, Walk.writes, mem_writtenAll, List.mem_flatMap]
  constructor
  · rintro ⟨s, ⟨c, hc, hs⟩, hu⟩
    exact ⟨c, hc, s, hs, hu⟩
  · rintro ⟨c, hc, s, hs, hu⟩
    exact ⟨s, ⟨c, hc, hs⟩, hu⟩

/-- A top-level child that declares a type is recorded as one. -/
theorem recordChild_of_declaresType {c : Tree} (h : declaresType c = true) :
    recordChild index filter file c = recordType index filter file none c := by
  unfold recordChild
  split
  case h_3 => rfl
  all_goals
    rename_i hc
    rw [declaresType, hc] at h
    cases h

/-- What is written of the types that the walk of a file comes to, the file writes. -/
theorem mem_written_of_typeWrites {file : SourceFile} (h : file.Reaches index ctx outer q d)
    (hu : TypeWrites index filter file.path ctx outer q d u) :
    u ∈ writtenAll (fun _ => true) (extract index filter file) := by
  obtain ⟨c, hc, hreach⟩ := h
  rw [mem_written_extract]
  refine ⟨c, hc, ?_⟩
  rw [recordChild_of_declaresType hreach.declares.declaresType]
  exact mem_writes_recordType_iff.2 ⟨ctx, outer, q, d, hreach, hu⟩

theorem HeadWrites.relation_eq {file : SourceFile} {start target : NodeKey} {relation : Relation}
    (h : HeadWrites file (.edge start target relation)) :
    relation = .inPackage ∨ relation = .hasImport := by
  rcases h with hu | hu
  all_goals
    rcases List.mem_cons.1 hu with hu | hu
    · cases hu
    · cases List.mem_singleton.1 hu
      decide

theorem HeadWrites.notMem_ownRelations {file : SourceFile} {start target : NodeKey}
    {relation : Relation} (h : HeadWrites file (.edge start target relation)) :
    relation ∉ ownRelations := by
  rcases h.relation_eq with rfl | rfl <;> decide

/-- **What a file writes** is about its package, its imports or a type that the walk comes to. -/
theorem headWrites_or_typeWrites {file : SourceFile}
    (hu : u ∈ writtenAll (fun _ => true) (extract index filter file)) :
    HeadWrites file u ∨ ∃ ctx outer q d, file.Reaches index ctx outer q d ∧
      TypeWrites index filter file.path ctx outer q d u := by
  obtain ⟨c, hc, hu⟩ := mem_written_extract.1 hu
  unfold recordChild at hu
  split at hu
  · split at hu
    · exact .inl (.package (Walk.mem_writes_put.1 hu))
    · exact absurd hu Walk.notMem_writes_skip
  · split at hu
    · exact .inl (.imported (Walk.mem_writes_put.1 hu))
    · exact absurd hu Walk.notMem_writes_skip
  · obtain ⟨ctx, outer, q, d, hreach, hwrites⟩ := mem_writes_recordType_iff.1 hu
    exact .inr ⟨ctx, outer, q, d, ⟨c, hc, hreach⟩, hwrites⟩

/-- **Every type that a file declares is written** with its kind. -/
theorem mem_written_of_declares {file : SourceFile}
    (h : file.Declares dotted (walkScope index file).qualify q d) :
    ∃ kind : TypeKind, .node ⟨.classType, q⟩ (Dict.ofList [("kind", .text kind.name)]) ∈
      writtenAll (fun _ => true) (extract index filter file) := by
  obtain ⟨ctx, outer, hreach⟩ := SourceFile.exists_reaches_iff.2 h
  obtain ⟨kind, hkind⟩ := Option.isSome_iff_exists.1 (h.elim fun _ hc => hc.2.isSome_ofTreeKind?)
  exact ⟨kind, mem_written_of_typeWrites hreach (.node hkind (List.mem_singleton_self _))⟩

/-- **Every method in the body of a declared type is written** with its code and as a member of the
type, if its signature resolves. -/
theorem mem_written_of_mem_typeMembers {file : SourceFile} {decl : MethodDecl} {signature : String}
    (h : file.Declares dotted (walkScope index file).qualify q d) (hm : m ∈ typeMembers d)
    (hdecl : methodDecl? m = some decl) (hsignature : index.signature q decl = .ok signature) :
    (∃ detail, ∀ v ∈ Entry.method signature detail,
      v ∈ writtenAll (fun _ => true) (extract index filter file)) ∧
    .edge ⟨.classType, q⟩ ⟨.method, signature⟩
        (if decl.isConstructor then .hasConstructor else .hasMethod) ∈
      writtenAll (fun _ => true) (extract index filter file) := by
  obtain ⟨ctx, outer, hreach⟩ := SourceFile.exists_reaches_iff.2 h
  have hmethod {u : Upsert} (hu : u ∈ (recordMethod index filter file.path m q).writes
      (ctx.enterClass q (typeParameters d))) : u ∈ writtenAll (fun _ =>
        true) (extract index filter file) :=
    mem_written_of_typeWrites hreach (.method hm (kind_of_methodDecl? hdecl) hu)
  exact ⟨⟨methodDetail file.path m decl, fun v hv =>
      hmethod (mem_writes_recordMethod.2 ⟨decl, signature, hdecl, hsignature, .inl hv⟩)⟩,
    hmethod (mem_writes_recordMethod.2 ⟨decl, signature, hdecl, hsignature, .inr (.inl rfl)⟩)⟩

/-- **The relationships to supertypes and methods that a file writes** are those of the
types that the walk comes to. -/
theorem mem_written_iff_typeLinks {file : SourceFile} {start target : NodeKey} {relation : Relation}
    (hown : relation ∈ ownRelations) :
    .edge start target relation ∈ writtenAll (fun _ => true) (extract index filter file) ↔
      ∃ ctx outer q d, file.Reaches index ctx outer q d ∧
        TypeLinks index ctx q d start target relation := by
  constructor
  · intro hu
    rcases headWrites_or_typeWrites hu with hu | ⟨ctx, outer, q, d, hreach, hu⟩
    · exact absurd hown hu.notMem_ownRelations
    · exact ⟨ctx, outer, q, d, hreach, hu.typeLinks⟩
  · rintro ⟨ctx, outer, q, d, hreach, hlinks⟩
    exact mem_written_of_typeWrites hreach (hlinks.typeWrites hown)

end CodeGraph.Java
