import CodeGraph.Proofs.Indexing.Order
import CodeGraph.Proofs.Java.Headers

/-!
# Supertypes in the graph and in the index

The clauses in the header of a type are resolved twice: in the header for the hierarchies of the
index, and in the body, once the walk has entered the type, for the relationships of the graph.

* `mem_links_iff_clauses`: the relationships of a type to its supertypes.
* `supertypes_written`: where they lead, what the index has, and that both are the same unless a
  clause begins with a name that the type shadows.

A class whose own member has the name of the class that it extends is one where they are not
(`not_hasSupertype_iff_shadowedSuperclass`).
-/

namespace CodeGraph.Java

open ProjectIndex

/-- The class to which a clause of this type is written to lead. -/
def ResolvedType.className (resolved : ResolvedType) : String :=
  resolved.qualified?.getD resolved.describe

/-- A relationship of the graph leads from the type to the class as a supertype of it. -/
def HasSupertype (g : Graph) (q n : String) : Prop :=
  ∃ relation, (relation = .extends ∨ relation = .implements) ∧
    some ⟨⟨.classType, q⟩, ⟨.classType, n⟩, relation⟩ ∈ g.links

theorem supertypeName_eq_ok_iff {index : ProjectIndex} {ctx : Context} {t : Tree} {name : String} :
    supertypeName index ctx t = .ok name ↔ ∃ type resolved, WrittenType.ofTree? t = some type ∧
      index.resolveType type ctx.scope = .ok resolved ∧ name = resolved.className := by
  unfold supertypeName
  cases WrittenType.ofTree? t with
  | none => simp
  | some type =>
    cases hresolved : index.resolveType type ctx.scope with
    | error e => simp [hresolved, bind, Except.bind]
    | ok resolved =>
      simp [hresolved, bind, Except.bind, pure, Except.pure, ResolvedType.className, eq_comm]

/-- The clauses of a declaration are the types that its tree names. -/
theorem TypeDecl.DeclaredBy.mem_clauses_iff {decl : TypeDecl} {d : Tree} (h : decl.DeclaredBy d)
    {type : WrittenType} {relation : Relation} :
    (type, relation) ∈ decl.clauses ↔ ∃ t, (t ∈ superclassTree? d ∧ relation = .extends ∨
      t ∈ interfaceTrees d decl.kind ∧ relation = interfaceRelation decl.kind) ∧
        WrittenType.ofTree? t = some type := by
  rw [TypeDecl.clauses, h.superclass, h.interfaces]
  simp only [List.mem_append, List.mem_map, Option.mem_toList, Option.mem_def,
    Option.bind_eq_some_iff, List.mem_filterMap, Prod.mk.injEq]
  constructor
  · rintro (⟨type, ⟨t, ht, htype⟩, rfl, rfl⟩ | ⟨type, ⟨t, ht, htype⟩, rfl, rfl⟩)
    · exact ⟨t, .inl ⟨ht, rfl⟩, htype⟩
    · exact ⟨t, .inr ⟨ht, rfl⟩, htype⟩
  · rintro ⟨t, ⟨ht, rfl⟩ | ⟨ht, rfl⟩, htype⟩
    · exact .inl ⟨type, ⟨t, ht, htype⟩, rfl, rfl⟩
    · exact .inr ⟨type, ⟨t, ht, htype⟩, rfl, rfl⟩

/-- A clause stands for extending or for implementing. -/
theorem relation_of_mem_clauses {decl : TypeDecl} {c : WrittenType × Relation}
    (h : c ∈ decl.clauses) :
    c.2 = .extends ∨ c.2 = .implements := by
  rcases List.mem_append.1 h with h | h
  · obtain ⟨type, -, rfl⟩ := List.mem_map.1 h
    exact .inl rfl
  · obtain ⟨type, -, rfl⟩ := List.mem_map.1 h
    show interfaceRelation decl.kind = _ ∨ _
    unfold interfaceRelation
    split
    · exact .inl rfl
    · exact .inr rfl

variable {filter : NamespaceFilter} {files : List SourceFile} {file : SourceFile} {decl : TypeDecl}

section

variable (hpaths : files.Pairwise PathsApart) (hregular : ∀ file ∈ files, file.Regular)
  (htypes : ((files.flatMap SourceFile.decls).map TypeDecl.qualified).Nodup)
  (hjava : ∀ file ∈ files, Path.isJavaSource file.path = true)
  (hsmall : (indexedGraph filter files).nodes.size < 0xffffffff) (hfile : file ∈ files)
  (hdecl : decl ∈ file.decls)

include hpaths hregular htypes hjava hsmall hfile hdecl

/-- **The relationships of a type to its supertypes** lead where its clauses resolve in the body. -/
theorem mem_links_iff_clauses {target : NodeKey} {relation : Relation}
    (hrelation : relation = .extends ∨ relation = .implements) :
    some ⟨⟨.classType, decl.qualified⟩, target, relation⟩ ∈ (indexedGraph filter files).links ↔
      ∃ type resolved, (type, relation) ∈ decl.clauses ∧
        (ProjectIndex.build files).resolveType type
          ((ProjectIndex.build files).memberScope decl.qualified) =
          .ok resolved ∧ target = ⟨.classType, resolved.className⟩ := by
  have hown : relation ∈ ownRelations := by rcases hrelation with rfl | rfl <;> decide
  have hget := get?_build_of_nodup htypes hfile hdecl
  rw [mem_links_iff_typeLinks hjava hsmall hown]
  constructor
  · rintro ⟨file', hfile', ctx, outer, q, d, hreach, hlinks⟩
    generalize hstart : (⟨.classType, decl.qualified⟩ : NodeKey) = start at hlinks
    cases hlinks with
    | supertype hkind hclause hname =>
      cases hstart
      obtain ⟨decl', -, hget', hdeclared, hscope⟩ :=
        scope_of_reaches hpaths hregular htypes hfile' hreach
      cases hget.symm.trans hget'
      cases hkind.symm.trans hdeclared.kind
      obtain ⟨type, resolved, htype, hresolved, rfl⟩ := supertypeName_eq_ok_iff.1 hname
      exact ⟨type, resolved, hdeclared.mem_clauses_iff.2 ⟨_, hclause, htype⟩,
        hscope ▸ hresolved, rfl⟩
    | member hm hdecl hsignature =>
      revert hrelation
      unfold MethodDecl.membership
      split <;> rintro (h | h) <;> cases h
    | other hother => exact absurd hown hother
  · rintro ⟨type, resolved, hclause, hresolved, rfl⟩
    obtain ⟨ctx, outer, d, hreach⟩ := exists_reaches_of_mem_decls hpaths hregular hfile hdecl
    obtain ⟨decl', -, hget', hdeclared, hscope⟩ :=
      scope_of_reaches hpaths hregular htypes hfile hreach
    cases hget.symm.trans hget'
    obtain ⟨t, ht, htype⟩ := hdeclared.mem_clauses_iff.1 hclause
    exact ⟨file, hfile, ctx, outer, decl.qualified, d, hreach, .supertype hdeclared.kind ht
      (supertypeName_eq_ok_iff.2 ⟨type, resolved, htype, hscope ▸ hresolved, rfl⟩)⟩

/-- **Supertypes in the graph and in the index.** The relationships of a type to its supertypes lead
where its clauses resolve in the body, the supertypes that the index has are the classes to which
they resolve in the header. If they all resolve to classes there and none begins with a name that
the type shadows, both are the same. -/
theorem supertypes_written :
    let index := ProjectIndex.build files
    let q := decl.qualified
    (∀ n, HasSupertype (indexedGraph filter files) q n ↔ ∃ c ∈ decl.clauses, ∃ resolved,
      index.resolveType c.1 (index.memberScope q) = .ok resolved ∧ n = resolved.className) ∧
    (∀ n, n ∈ index.supertypes q ↔ ∃ c ∈ decl.clauses, ∃ args,
      index.resolveType c.1 (index.headerScope q) = .ok (.reference n args)) ∧
    ((∀ c ∈ decl.clauses,
        (∃ n args, index.resolveType c.1 (index.headerScope q) = .ok (.reference n args)) ∧
          ∀ name ∈ c.1.leading?, ¬index.Shadows q name) →
      ∀ n, HasSupertype (indexedGraph filter files) q n ↔ n ∈ index.supertypes q) := by
  intro index q
  have hget : index.get? q = some decl := get?_build_of_nodup htypes hfile hdecl
  have hwritten (n : String) : HasSupertype (indexedGraph filter files) q n ↔
      ∃ c ∈ decl.clauses, ∃ resolved, index.resolveType c.1 (index.memberScope q) = .ok resolved ∧
        n = resolved.className := by
    constructor
    · rintro ⟨relation, hrelation, hlink⟩
      obtain ⟨type, resolved, hclause, hresolved, htarget⟩ :=
        (mem_links_iff_clauses hpaths hregular htypes hjava hsmall hfile hdecl hrelation).1 hlink
      exact ⟨_, hclause, resolved, hresolved, (NodeKey.mk.inj htarget).2⟩
    · rintro ⟨c, hc, resolved, hresolved, rfl⟩
      have hrelation := relation_of_mem_clauses hc
      exact ⟨c.2, hrelation, (mem_links_iff_clauses hpaths hregular htypes hjava hsmall hfile hdecl
        hrelation).2 ⟨c.1, resolved, hc, hresolved, rfl⟩⟩
  refine ⟨hwritten, fun n => mem_supertypes_iff hget, fun hclauses n => ?_⟩
  rw [hwritten, mem_supertypes_iff hget]
  refine exists_congr fun c => and_congr_right fun hc => ?_
  obtain ⟨⟨n', args, hheader⟩, hshadows⟩ := hclauses c hc
  obtain ⟨r, hbody, hsame⟩ := qualified?_resolveType_memberScope hget rfl hheader hshadows
  have hname : r.className = n' := by
    rw [ResolvedType.className, hsame]
    rfl
  constructor
  · rintro ⟨resolved, hresolved, rfl⟩
    cases hresolved.symm.trans hbody
    exact ⟨args, hname ▸ hheader⟩
  · rintro ⟨args', hheader'⟩
    cases hheader.symm.trans hheader'
    exact ⟨r, hbody, hname.symm⟩

end

/-- In `class A extends T {}` the name `T` is neither `A` nor a member of it. -/
theorem supertypes_written_extendingFiles :
    extendingFiles.Pairwise PathsApart ∧ (∀ file ∈ extendingFiles, file.Regular) ∧
      ((extendingFiles.flatMap SourceFile.decls).map TypeDecl.qualified).Nodup ∧
      (∀ file ∈ extendingFiles, Path.isJavaSource file.path = true) ∧
      (indexedGraph ⟨[]⟩ extendingFiles).nodes.size < 0xffffffff ∧
      "a.b.T" ∈ (ProjectIndex.build extendingFiles).supertypes "a.b.A" ∧
      HasSupertype (indexedGraph ⟨[]⟩ extendingFiles) "a.b.A" "a.b.T" := by
  have hpaths : extendingFiles.Pairwise PathsApart := by decide +kernel
  have hregular : ∀ file ∈ extendingFiles, file.Regular := by decide +kernel
  have htypes : ((extendingFiles.flatMap SourceFile.decls).map TypeDecl.qualified).Nodup := by
    decide +kernel
  have hjava : ∀ file ∈ extendingFiles, Path.isJavaSource file.path = true := by decide +kernel
  have hsmall : (indexedGraph ⟨[]⟩ extendingFiles).nodes.size < 0xffffffff := by decide +kernel
  obtain ⟨file, hfile, decl, hdecl, hq, hclauses⟩ : ∃ file ∈ extendingFiles, ∃ decl ∈ file.decls,
      decl.qualified = "a.b.A" ∧ ∀ c ∈ decl.clauses,
        (ProjectIndex.build extendingFiles).resolveType c.1
            ((ProjectIndex.build extendingFiles).headerScope decl.qualified) =
              .ok (.reference "a.b.T" []) ∧
          ∀ name ∈ c.1.leading?,
            ¬(ProjectIndex.build extendingFiles).Shadows decl.qualified name := by
    decide +kernel
  have hsupertypes : "a.b.T" ∈ (ProjectIndex.build extendingFiles).supertypes "a.b.A" := by
    decide +kernel
  refine ⟨hpaths, hregular, htypes, hjava, hsmall, hsupertypes, ?_⟩
  have hsame := (supertypes_written hpaths hregular htypes hjava hsmall hfile hdecl).2.2
    fun c hc => ⟨⟨_, _, (hclauses c hc).1⟩, (hclauses c hc).2⟩
  rw [hq] at hsame
  exact (hsame "a.b.T").2 hsupertypes

/-- `class A extends Inner { class Inner {} }` and `class Inner {}`, each in a file of its own,
without the parts that nothing reads. -/
def shadowedSuperclass : List SourceFile :=
  [⟨"/p/A.java", .mk "program" true "" "" 1 1
    [.mk "class_declaration" true "" "" 1 1
      [.mk "identifier" true "name" "A" 1 1 [],
       .mk "superclass" true "superclass" "" 1 1 [.mk "type_identifier" true "" "Inner" 1 1 []],
       .mk "class_body" true "body" "" 1 1
        [.mk "class_declaration" true "" "" 1 1
          [.mk "identifier" true "name" "Inner" 1 1 [], .mk "class_body" true "body" "" 1 1 []]]]]⟩,
   ⟨"/p/Inner.java", .mk "program" true "" "" 1 1
    [.mk "class_declaration" true "" "" 1 1
      [.mk "identifier" true "name" "Inner" 1 1 [], .mk "class_body" true "body" "" 1 1 []]]⟩]

/-- Paths and types are distinct, names resolve and the only clause of `A` resolves to a class. In
the graph `A` extends its own member `A.Inner`, in the index the class `Inner`. -/
theorem not_hasSupertype_iff_shadowedSuperclass :
    let index := ProjectIndex.build shadowedSuperclass
    shadowedSuperclass.Pairwise PathsApart ∧ (∀ file ∈ shadowedSuperclass, file.Regular) ∧
      ((shadowedSuperclass.flatMap SourceFile.decls).map TypeDecl.qualified).Nodup ∧
      (∀ file ∈ shadowedSuperclass, Path.isJavaSource file.path = true) ∧
      (∀ t, ¬index.CircularHeader t) ∧ ¬index.NamelessOuter ∧
      (indexedGraph ⟨[]⟩ shadowedSuperclass).nodes.size < 0xffffffff ∧
      (index.get? "A").map (fun decl => decl.clauses.map fun c =>
        index.resolveType c.1 (index.headerScope "A")) = some [.ok (.ofClass "Inner")] ∧
      (index.get? "A").map (fun decl => decl.clauses.map fun c =>
        index.resolveType c.1 (index.memberScope "A")) = some [.ok (.ofClass "A.Inner")] ∧
      ¬∀ n, HasSupertype (indexedGraph ⟨[]⟩ shadowedSuperclass) "A" n ↔
        n ∈ index.supertypes "A" := by
  have hregular : ∀ file ∈ shadowedSuperclass, file.Regular := by decide +kernel
  have hanswered : ∀ q ∈ (ProjectIndex.build shadowedSuperclass).types.keys,
      ((ProjectIndex.build shadowedSuperclass).hierarchy? q).isSome := by decide +kernel
  have hmember : HasSupertype (indexedGraph ⟨[]⟩ shadowedSuperclass) "A" "A.Inner" :=
    ⟨.extends, .inl rfl, by decide +kernel⟩
  have hother : "A.Inner" ∉ (ProjectIndex.build shadowedSuperclass).supertypes "A" := by
    decide +kernel
  exact ⟨by decide +kernel, hregular, by decide +kernel, by decide +kernel,
    not_circularHeader_of_answered hanswered, not_namelessOuter_build hregular, by decide +kernel,
    by decide +kernel, by decide +kernel, fun h => hother ((h "A.Inner").1 hmember)⟩

end CodeGraph.Java
