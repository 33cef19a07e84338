import CodeGraph.Proofs.Java.Bodies
import CodeGraph.Proofs.Java.Headers
import CodeGraph.Proofs.Java.Resolution

/-!
# Types in bodies and types in the index

The walk resolves the types of parameters and fields in the scope that it has at hand, the index
resolves them in the scope that it computes for the member. In regular files that declare every type
once both scopes are the same, so a parameter has in the body the type that the signature shows, and
a field has in the graph the type that it has in the index.

* `scope_of_enters`: the scope at the start of a body.
* `exists_types_of_signature`: the types that a signature shows.
* `fieldSource_of_mem_written`: where the fields that a file writes come from.
* `entered_scopes`: what parameters and fields have to do with the index.

Array levels that follow the name of a component of a record are left out where its field is written
(`not_described_bracketedFile`).
-/

namespace CodeGraph.Java

open ProjectIndex

variable {index : ProjectIndex} {filter : NamespaceFilter} {path : String} {ctx ctx' : Context}
  {outer outer' : Option String} {t d m : Tree} {q : String}

/-! ## Parameters -/

/-- A parameter of a type as a signature shows it. -/
def ParamDecl.shown (p : ParamDecl) (type : ResolvedType) : String :=
  if p.varargs then type.describe ++ "..." else type.describe

/-- A parameter of a type as a variable of the body. -/
def ParamDecl.asLocal (p : ParamDecl) (type : ResolvedType) : Local :=
  ⟨p.name, some (if p.varargs then .array type else type)⟩

/-- What is shown of parameters, if all of them resolve to types. -/
theorem mapM_describeParam_eq_ok_iff {typeParams : List String} {params : List ParamDecl}
    {shown : List String} :
    params.mapM (index.describeParam q typeParams) = .ok shown ↔
      ∃ types, List.Forall₂ (fun p type => index.resolveInMember q p.type typeParams = .ok type)
        params types ∧
        shown = List.zipWith ParamDecl.shown params types := by
  constructor
  · intro h
    induction params generalizing shown with
    | nil =>
      cases h
      exact ⟨[], .nil, rfl⟩
    | cons p params ih =>
      rw [List.mapM_cons] at h
      cases htype : index.resolveInMember q p.type typeParams with
      | error e =>
        rw [describeParam, htype] at h
        cases h
      | ok type =>
        cases hrest : params.mapM (index.describeParam q typeParams) with
        | error e =>
          rw [describeParam, htype, hrest] at h
          cases h
        | ok rest =>
          rw [describeParam, htype, hrest] at h
          cases h
          obtain ⟨types, htypes, rfl⟩ := ih hrest
          exact ⟨type :: types, .cons htype htypes, rfl⟩
  · rintro ⟨types, htypes, rfl⟩
    induction htypes with
    | nil => rfl
    | cons htype _ ih =>
      rw [List.mapM_cons, ih, describeParam, htype]
      rfl

/-- **A signature shows the types that its parameters resolve to** in the member. -/
theorem exists_types_of_signature {decl : MethodDecl} {signature : String}
    (h : index.signature q decl = .ok signature) :
    ∃ types, List.Forall₂ (fun p type => index.resolveInMember q p.type decl.typeParams = .ok type)
        decl.params types ∧
      signature = q ++ "." ++ decl.name ++ "(" ++
        ", ".intercalate (List.zipWith ParamDecl.shown decl.params types) ++ ")" := by
  unfold ProjectIndex.signature at h
  cases hparams : decl.params.mapM (index.describeParam q decl.typeParams) with
  | error e => rw [hparams] at h; cases h
  | ok shown =>
    rw [hparams] at h
    cases h
    obtain ⟨types, htypes, rfl⟩ := mapM_describeParam_eq_ok_iff.1 hparams
    exact ⟨types, htypes, rfl⟩

theorem Reaches.locals_eq (h : Reaches ctx outer t ctx' outer' q d) : ctx'.locals = ctx.locals := by
  induction h with
  | self => rfl
  | member _ _ _ _ ih => exact ih

/-- The variables at the start of a body whose scope is that of the member are its parameters. -/
theorem map_asLocal {decl : MethodDecl} {types : List ResolvedType} {inside : Context}
    (hscope : inside.scope = (index.memberScope q).withTypeVars decl.typeParams)
    {params : List ParamDecl}
    (h : List.Forall₂ (fun p type => index.resolveInMember q p.type decl.typeParams = .ok type)
      params types) :
    (params.map fun p => (⟨p.name, paramType index inside p⟩ : Local)) =
      List.zipWith ParamDecl.asLocal params types := by
  induction h with
  | nil => rfl
  | @cons p type params types htype _ ih =>
    have hparam : paramType index inside p = some (if p.varargs then .array type else type) := by
      rw [paramType, knownType, hscope, ← resolveInMember, htype]
      rfl
    rw [List.map_cons, List.zipWith_cons_cons, ih, hparam]
    rfl

/-! ## Fields -/

/-- What a field adds to its node. -/
def fieldGiven (name type initial : String) : Attributes :=
  Dict.ofList [("name", .text name), ("type", .text type), ("initialValue", .text initial)]

theorem get?_type_fieldGiven (name type initial : String) :
    (fieldGiven name type initial).get? "type" = some (.text type) := by
  have hfold : fieldGiven name type initial = ((Dict.empty.insert "name" (.text name)).insert "type"
      (.text type)).insert "initialValue" (.text initial) := rfl
  rw [hfold, Dict.get?_insert_of_ne (by decide), Dict.get?_insert_self]

/-- A component of the record has this many array levels after its name. -/
def HasBrackets (d : Tree) (name : String) (levels : Nat) : Prop :=
  ∃ c ∈ parameterTrees d, (c.child? "name").map Tree.text = some name ∧
    countDimensions (c.child? "dimensions") = levels

/-- Array levels after a name are array levels around the type. -/
theorem resolveType_withDimensions (written : WrittenType) (levels : Nat) (scope : TypeScope) :
    index.resolveType (written.withDimensions levels) scope =
      (index.resolveType written scope).map (.arrays levels) := by
  have hadd (k : Nat) (type : ResolvedType) :
      type.arrays (k + levels) = (type.arrays k).arrays levels := by
    induction levels with
    | zero => rfl
    | succ levels ih => exact congrArg ResolvedType.array ih
  unfold WrittenType.withDimensions
  split
  · rename_i hzero
    subst hzero
    cases index.resolveType written scope <;> rfl
  · split
    · rename_i element k
      rw [resolveType_array, resolveType_array]
      cases index.resolveType element scope with
      | error e => rfl
      | ok type => exact congrArg Except.ok (hadd k type)
    · rw [resolveType_array]

/-- The node of a field has the type that the field was resolved to. -/
theorem given_of_mem_fieldEntry? {name initial key : String} {type : ResolvedType} {entry : Entry}
    {given : Attributes} (h : fieldEntry? filter q name initial type = some entry)
    (hu : .node ⟨.field, key⟩ given ∈ entry) :
    key = q ++ "." ++ name ∧ given = fieldGiven name type.describe initial := by
  have hplain (detail : FieldDetail) (hu : .node ⟨.field, key⟩ given ∈ Entry.fieldOf q detail) :
      key = q ++ "." ++ detail.name ∧
        given = fieldGiven detail.name detail.typeName detail.initialValue := by
    rcases List.mem_cons.1 hu with hu | hu
    · cases hu
      exact ⟨rfl, rfl⟩
    · cases List.mem_singleton.1 hu
  unfold fieldEntry? at h
  split at h
  · cases h
    exact hplain _ hu
  · split at h
    · cases h
      exact hplain _ hu
    · cases h
      rcases List.mem_append.1 hu with hu | hu
      · rcases List.mem_append.1 hu with hu | hu
        · exact hplain _ hu
        · cases List.mem_singleton.1 hu
      · cases List.mem_singleton.1 hu
  · cases h

theorem given_of_mem_writes_recordField {name initial key : String} {written : WrittenType}
    {given : Attributes}
    (hu : .node ⟨.field, key⟩ given ∈
      (recordField index filter t q name written initial).writes ctx) :
    ∃ type, index.resolveType written ctx.scope = .ok type ∧ key = q ++ "." ++ name ∧
      given = fieldGiven name type.describe initial := by
  rw [recordField, Walk.writes_ask] at hu
  split at hu
  · exact absurd hu Walk.notMem_writes_unresolved
  · rename_i type htype
    split at hu
    · rename_i entry hentry
      exact ⟨type, htype, given_of_mem_fieldEntry? hentry (Walk.mem_writes_put.1 hu)⟩
    · exact absurd hu Walk.notMem_writes_skip

/-- Fields are written with the types of the declarations that the index has. -/
theorem exists_field_of_mem_writes_recordFields {kind : TypeKind} {key : String}
    {given : Attributes} (hm : m ∈ typeMembers d)
    (hfield : m.kind = "field_declaration" ∨ m.kind = "constant_declaration")
    (hu : .node ⟨.field, key⟩ given ∈ (recordFields index filter m q).writes ctx) :
    ∃ f ∈ fieldsOf kind q d, ∃ type initial, index.resolveType f.type ctx.scope = .ok type ∧
      key = q ++ "." ++ f.name ∧ given = fieldGiven f.name type.describe initial := by
  rw [recordFields, Walk.mem_writes_all fun w hw => ?_] at hu
  · obtain ⟨w, hw, hu⟩ := hu
    obtain ⟨⟨f, declarator⟩, hmem, rfl⟩ := List.mem_map.1 hw
    obtain ⟨type, htype, hkey, hgiven⟩ := given_of_mem_writes_recordField hu
    exact ⟨f, mem_fieldsOf_of_mem_fieldDecls kind hm hfield (List.of_mem_zip hmem).1, type, _,
      htype, hkey, hgiven⟩
  · obtain ⟨⟨f, declarator⟩, -, rfl⟩ := List.mem_map.1 hw
    exact restores_recordField _ _ _ _ _

/-- Components are written without the array levels after their names, which the index has. -/
theorem exists_field_of_mem_writes_recordComponentFields {key : String} {given : Attributes}
    (hu : .node ⟨.field, key⟩ given ∈ (recordComponentFields index filter d q).writes ctx) :
    ∃ f ∈ fieldsOf .recordKind q d, ∃ (levels : Nat) (type : ResolvedType) (initial : String),
      HasBrackets d f.name levels ∧ index.resolveType f.type ctx.scope = .ok (type.arrays levels) ∧
      key = q ++ "." ++ f.name ∧ given = fieldGiven f.name type.describe initial := by
  rw [recordComponentFields, Walk.mem_writes_all fun w hw => ?_] at hu
  · obtain ⟨w, hw, hu⟩ := hu
    obtain ⟨c, hc, rfl⟩ := List.mem_map.1 hw
    obtain ⟨hc, hformal⟩ := List.mem_filter.1 hc
    have hformal := eq_of_beq hformal
    have hparameter := mem_parameterTrees hc hformal
    split at hu
    · rename_i tree name htree hname
      split at hu
      · rename_i written hwritten
        obtain ⟨type, htype, hkey, hgiven⟩ := given_of_mem_writes_recordField hu
        refine ⟨_, component_mem_fieldsOf hparameter hformal htree hname hwritten, _, type, "",
          ⟨c, hparameter, by rw [hname]; rfl, rfl⟩, ?_, hkey, hgiven⟩
        rw [resolveType_withDimensions, htype]
        rfl
      · exact absurd hu Walk.notMem_writes_skip
    · exact absurd hu Walk.notMem_writes_skip
  · obtain ⟨c, -, rfl⟩ := List.mem_map.1 hw
    split
    · split
      · exact restores_recordField _ _ _ _ _
      · exact Walk.restores_skip
    · exact Walk.restores_skip

/-- **The fields that are written of a type** are ones that the index has, with the same type but
for array levels after the name of a component of a record. -/
theorem TypeWrites.exists_field {kind : TypeKind} {key : String} {given : Attributes}
    (h : TypeWrites index filter path ctx outer q d (.node ⟨.field, key⟩ given))
    (hkind : TypeKind.ofTreeKind? d.kind = some kind) :
    ∃ f ∈ fieldsOf kind q d, ∃ (levels : Nat) (type : ResolvedType) (initial : String),
      (levels = 0 ∨ kind = .recordKind ∧ HasBrackets d f.name levels) ∧
      index.resolveType f.type (ctx.enterClass q (typeParameters d)).scope =
        .ok (type.arrays levels) ∧
      key = q ++ "." ++ f.name ∧ given = fieldGiven f.name type.describe initial := by
  cases h with
  | node hkind hu => cases List.mem_singleton.1 hu
  | supertype hkind hu =>
    obtain ⟨type, relation, name, -, -, hu⟩ := mem_writes_recordSupertypes.1 hu
    rcases List.mem_cons.1 hu with hu | hu
    · cases hu
    · cases List.mem_singleton.1 hu
  | component hrecord hu =>
    cases hkind.symm.trans hrecord
    obtain ⟨f, hf, levels, type, initial, hlevels, hrest⟩ :=
      exists_field_of_mem_writes_recordComponentFields hu
    exact ⟨f, hf, levels, type, initial, .inr ⟨rfl, hlevels⟩, hrest⟩
  | field hm hfield hu =>
    obtain ⟨f, hf, type, initial, hrest⟩ := exists_field_of_mem_writes_recordFields hm hfield hu
    exact ⟨f, hf, 0, type, initial, .inl rfl, hrest⟩
  | method hm hmethod hu =>
    obtain ⟨decl, signature, hdecl, hsignature, hu | hu | hu⟩ := mem_writes_recordMethod.1 hu
    · cases List.mem_singleton.1 hu
    · cases hu
    · cases bodyWrites_of_mem_writes hu with
      | node h => rcases h with h | h <;> cases h

theorem HeadWrites.label_ne_field {file : SourceFile} {key : String} {given : Attributes} :
    ¬HeadWrites file (.node ⟨.field, key⟩ given) := by
  rintro (hu | hu)
  all_goals
    rcases List.mem_cons.1 hu with hu | hu
    · cases hu
    · cases List.mem_singleton.1 hu

/-! ## Files -/

section

variable {files : List SourceFile} {file : SourceFile} (hpaths : files.Pairwise PathsApart)
  (hregular : ∀ file ∈ files, file.Regular)
  (htypes : ((files.flatMap SourceFile.decls).map TypeDecl.qualified).Nodup) (hfile : file ∈ files)

include hpaths hregular htypes hfile

/-- At a type that a walk comes to, the index has its declaration from the tree, and the scope
inside the type is the one that it computes. -/
theorem exists_readFrom_of_reaches (h : file.Reaches (.build files) ctx outer q d) :
    ∃ decl ∈ file.decls, (ProjectIndex.build files).get? q = some decl ∧ decl.qualified = q ∧
      decl.ReadFrom d ∧ file.Declares dotted file.scope.qualify q d ∧
      (ctx.enterClass q (typeParameters d)).scope = (ProjectIndex.build files).memberScope q := by
  have hdeclares := SourceFile.exists_reaches_iff.1 ⟨ctx, outer, h⟩
  rw [walkScope_build hpaths hfile] at hdeclares
  obtain ⟨decl, hdecl, hq, hread⟩ := (hregular file hfile).exists_decl hdeclares
  obtain ⟨-, -, -, -, hscope⟩ := scope_of_reaches hpaths hregular htypes hfile h
  exact ⟨decl, hdecl, hq ▸ get?_build_of_nodup htypes hfile hdecl, hq, hread, hdeclares, hscope⟩

/-- **The scope at the start of a body is the one that the index computes for the member.** -/
theorem scope_of_enters {decl : MethodDecl} {signature : String} {start : Context}
    (h : file.Enters (.build files) q m decl signature start) :
    start.scope = ((ProjectIndex.build files).memberScope q).withTypeVars decl.typeParams ∧
      ∃ types : List ResolvedType, types.length = decl.params.length ∧
        start.locals = List.zipWith ParamDecl.asLocal decl.params types ∧
        signature = q ++ "." ++ decl.name ++ "(" ++
          ", ".intercalate (List.zipWith ParamDecl.shown decl.params types) ++ ")" := by
  obtain ⟨ctx, outer, d, hreach, hm, hdecl, hsignature, rfl⟩ := h
  obtain ⟨-, -, -, -, hscope⟩ := scope_of_reaches hpaths hregular htypes hfile hreach
  obtain ⟨types, htypes, hshown⟩ := exists_types_of_signature hsignature
  have hentered : ((ctx.enterClass q (typeParameters d)).enterExecutable
      ⟨signature, decl.isConstructor⟩ decl.typeParams).scope =
        ((ProjectIndex.build files).memberScope q).withTypeVars decl.typeParams := by
    rw [← hscope]
    rfl
  have hlocals : ctx.locals = [] := by
    obtain ⟨c, -, hreach⟩ := hreach
    exact hreach.locals_eq
  rw [startOfBody_eq, map_asLocal hentered htypes]
  refine ⟨hentered, types, htypes.length_eq.symm, ?_, hshown⟩
  exact (congrArg (· ++ List.zipWith ParamDecl.asLocal decl.params types) hlocals).trans
    (List.nil_append _)

/-- **Bodies and fields have the types that the index has.** In regular files that declare every
type once and have different paths, at the start of every method and constructor that is entered the
scope is the one that the index computes for the member, so the parameters are variables of the
types that the signature shows. A field is written with the type that it has in the index, unless it
is a component of a record with array levels after its name, which are left out. -/
theorem entered_scopes (filter : NamespaceFilter) :
    let index := ProjectIndex.build files
    (∀ q m decl signature start, file.Enters index q m decl signature start →
      start.scope = (index.memberScope q).withTypeVars decl.typeParams ∧
      ∃ types : List ResolvedType, types.length = decl.params.length ∧
        start.locals = List.zipWith ParamDecl.asLocal decl.params types ∧
        signature = q ++ "." ++ decl.name ++ "(" ++
          ", ".intercalate (List.zipWith ParamDecl.shown decl.params types) ++ ")") ∧
    ∀ ok key given, .node ⟨.field, key⟩ given ∈ writtenAll ok (extract index filter file) →
      ∃ decl ∈ file.decls, index.get? decl.qualified = some decl ∧
        ∃ f ∈ decl.fields, ∃ (type : ResolvedType) (initial : String),
          key = decl.qualified ++ "." ++ f.name ∧ given = fieldGiven f.name type.describe initial ∧
          (index.fieldType decl f = .ok type ∨
            decl.kind = .recordKind ∧
              ∃ d levels, file.Declares dotted file.scope.qualify decl.qualified d ∧
              HasBrackets d f.name levels ∧ 0 < levels ∧
              index.fieldType decl f = .ok (type.arrays levels)) := by
  intro index
  refine ⟨fun q m decl signature start h => scope_of_enters hpaths hregular htypes hfile h,
    fun ok key given hu => ?_⟩
  rcases headWrites_or_typeWrites (writtenAll_subset ok _ hu) with
    hu | ⟨ctx, outer, q, d, hreach, hu⟩
  · exact absurd hu HeadWrites.label_ne_field
  · obtain ⟨decl, hdecl, hget, rfl, hread, hdeclares, hscope⟩ :=
      exists_readFrom_of_reaches hpaths hregular htypes hfile hreach
    obtain ⟨f, hf, levels, type, initial, hlevels, htype, hkey, hgiven⟩ :=
      hu.exists_field hread.kind
    rw [hscope] at htype
    refine ⟨decl, hdecl, hget, f, hread.fields ▸ hf, type, initial, hkey, hgiven, ?_⟩
    rcases Nat.eq_zero_or_pos levels with rfl | hpos
    · exact .inl htype
    · obtain ⟨hrecord, hbrackets⟩ := hlevels.resolve_left (Nat.ne_of_gt hpos)
      exact .inr ⟨hrecord, d, levels, hdeclares, hbrackets, hpos, htype⟩

end

/-- `class A<T> { int f; <U> void m(T t, B... bs) {} }` and `class B {}` in one file, without the
parts that nothing reads. -/
def genericFile : SourceFile where
  path := "/p/A.java"
  root := .mk "program" true "" "" 1 1
    [.mk "class_declaration" true "" "" 1 1
      [.mk "identifier" true "name" "A" 1 1 [],
       .mk "type_parameters" true "type_parameters" "" 1 1
        [.mk "type_parameter" true "" "" 1 1 [.mk "type_identifier" true "" "T" 1 1 []]],
       .mk "class_body" true "body" "" 1 1
        [.mk "field_declaration" true "" "" 1 1
          [.mk "integral_type" true "type" "int" 1 1 [],
           .mk "variable_declarator" true "declarator" "" 1 1
             [.mk "identifier" true "name" "f" 1 1 []]],
         .mk "method_declaration" true "" "" 1 1
          [.mk "type_parameters" true "type_parameters" "" 1 1
            [.mk "type_parameter" true "" "" 1 1 [.mk "type_identifier" true "" "U" 1 1 []]],
           .mk "void_type" true "type" "void" 1 1 [],
           .mk "identifier" true "name" "m" 1 1 [],
           .mk "formal_parameters" true "parameters" "" 1 1
            [.mk "formal_parameter" true "" "" 1 1
              [.mk "type_identifier" true "type" "T" 1 1 [],
                .mk "identifier" true "name" "t" 1 1 []],
             .mk "spread_parameter" true "" "" 1 1
              [.mk "type_identifier" true "" "B" 1 1 [],
               .mk "variable_declarator" true "" "" 1 1
                 [.mk "identifier" true "name" "bs" 1 1 []]]],
           .mk "block" true "body" "" 1 1 []]]],
     .mk "class_declaration" true "" "" 1 1
      [.mk "identifier" true "name" "B" 1 1 [], .mk "class_body" true "body" "" 1 1 []]]

/-- The method is entered with a type variable and any number of arguments, and the
field has its type. -/
theorem entered_scopes_genericFile :
    let index := ProjectIndex.build [genericFile]
    [genericFile].Pairwise PathsApart ∧ (∀ file ∈ [genericFile], file.Regular) ∧
      (([genericFile].flatMap SourceFile.decls).map TypeDecl.qualified).Nodup ∧
      (∃ m decl start, genericFile.Enters index "A" m decl "A.m(T, B...)" start ∧
        start.scope = (index.memberScope "A").withTypeVars decl.typeParams ∧
        ∃ types : List ResolvedType, types.length = decl.params.length ∧
          start.locals = List.zipWith ParamDecl.asLocal decl.params types ∧
          "A.m(T, B...)" = "A" ++ "." ++ decl.name ++ "(" ++
            ", ".intercalate (List.zipWith ParamDecl.shown decl.params types) ++ ")") ∧
      .node ⟨.field, "A.f"⟩ (fieldGiven "f" "int" "") ∈
        writtenAll (fun _ => true) (extract index ⟨[]⟩ genericFile) ∧
      ∃ decl f type, index.get? decl.qualified = some decl ∧ f ∈ decl.fields ∧
        "A.f" = decl.qualified ++ "." ++ f.name ∧ index.fieldType decl f = .ok type ∧
        type.describe = "int" := by
  intro index
  have hpaths : [genericFile].Pairwise PathsApart := by decide +kernel
  have hregular : ∀ file ∈ [genericFile], file.Regular := by decide +kernel
  have htypes : (([genericFile].flatMap SourceFile.decls).map TypeDecl.qualified).Nodup := by
    decide +kernel
  obtain ⟨hscopes, hfields⟩ := entered_scopes hpaths hregular htypes List.mem_cons_self ⟨[]⟩
  have hmember : .edge ⟨.classType, "A"⟩ ⟨.method, "A.m(T, B...)"⟩ .hasMethod ∈
      writtenAll (fun _ => true) (extract index ⟨[]⟩ genericFile) := by decide +kernel
  have hfield : .node ⟨.field, "A.f"⟩ (fieldGiven "f" "int" "") ∈
      writtenAll (fun _ => true) (extract index ⟨[]⟩ genericFile) := by decide +kernel
  have hrecord : ∀ decl ∈ genericFile.decls, decl.kind ≠ .recordKind := by decide +kernel
  refine ⟨hpaths, hregular, htypes, ?_, hfield, ?_⟩
  · obtain ⟨ctx, outer, q, d, hreach, hlinks⟩ := (mem_written_iff_typeLinks (by decide)).1 hmember
    generalize hrelation : Relation.hasMethod = relation at hlinks
    cases hlinks with
    | @member m decl signature hm hdecl hsignature =>
      have henters : genericFile.Enters index "A" m decl "A.m(T, B...)" _ :=
        ⟨ctx, outer, d, hreach, hm, hdecl, hsignature, rfl⟩
      exact ⟨m, decl, _, henters, hscopes _ _ _ _ _ henters⟩
    | other h => exact absurd (hrelation ▸ by decide) h
  · obtain ⟨decl, hdecl, hget, f, hf, type, initial, hkey, hgiven, htype | ⟨hkind, -⟩⟩ :=
      hfields _ _ _ hfield
    · have hdescribe := congrArg (fun given => given.get? "type") hgiven
      simp only [get?_type_fieldGiven, Option.some.injEq, Value.text.injEq] at hdescribe
      exact ⟨decl, f, type, hget, hf, hkey, htype, hdescribe.symm⟩
    · exact absurd hkind (hrecord decl hdecl)

/-- `record R(int x[]) {}`, without the parts that nothing reads. -/
def bracketedFile : SourceFile where
  path := "/p/R.java"
  root := .mk "program" true "" "" 1 1
    [.mk "record_declaration" true "" "" 1 1
      [.mk "identifier" true "name" "R" 1 1 [],
       .mk "formal_parameters" true "parameters" "" 1 1
        [.mk "formal_parameter" true "" "" 1 1
          [.mk "integral_type" true "type" "int" 1 1 [],
           .mk "identifier" true "name" "x" 1 1 [],
           .mk "dimensions" true "dimensions" "[]" 1 1 []]],
       .mk "class_body" true "body" "" 1 1 []]]

/-- Paths, names and types are as they should be, names resolve, and the component is written as an
`int` where the index has an array of them. -/
theorem not_described_bracketedFile :
    let index := ProjectIndex.build [bracketedFile]
    [bracketedFile].Pairwise PathsApart ∧ (∀ file ∈ [bracketedFile], file.Regular) ∧
      (([bracketedFile].flatMap SourceFile.decls).map TypeDecl.qualified).Nodup ∧
      (∀ t, ¬index.CircularHeader t) ∧ ¬index.NamelessOuter ∧
      .node ⟨.field, "R.x"⟩ (fieldGiven "x" "int" "") ∈
        writtenAll (fun _ => true) (extract index ⟨[]⟩ bracketedFile) ∧
      ((index.get? "R").map fun decl => decl.fields.map fun f =>
        (f.name, (index.fieldType decl f).map ResolvedType.describe)) = some [("x", .ok "int[]")] ∧
      ¬∀ key given, .node ⟨.field, key⟩ given ∈
          writtenAll (fun _ => true) (extract index ⟨[]⟩ bracketedFile) →
        ∃ decl ∈ bracketedFile.decls, ∃ f ∈ decl.fields, ∃ type,
          key = decl.qualified ++ "." ++ f.name ∧ index.fieldType decl f = .ok type ∧
          given.get? "type" = some (.text type.describe) := by
  intro index
  obtain ⟨hheaders, houter⟩ :=
    not_circularHeader_and_not_namelessOuter [bracketedFile] (by decide +kernel)
  have hfield : .node ⟨.field, "R.x"⟩ (fieldGiven "x" "int" "") ∈
      writtenAll (fun _ => true) (extract index ⟨[]⟩ bracketedFile) := by decide +kernel
  refine ⟨by decide +kernel, by decide +kernel, by decide +kernel, hheaders, houter, hfield,
    by decide +kernel, fun h => ?_⟩
  obtain ⟨decl, hdecl, f, hf, type, -, htype, hgiven⟩ := h _ _ hfield
  have hnone : ∀ decl ∈ bracketedFile.decls, ∀ f ∈ decl.fields,
      (index.fieldType decl f).map (fun type => Value.text type.describe) ≠ .ok (.text "int") := by
    decide +kernel
  rw [get?_type_fieldGiven] at hgiven
  refine hnone decl hdecl f hf ?_
  rw [htype, Option.some.inj hgiven]
  rfl

end CodeGraph.Java
