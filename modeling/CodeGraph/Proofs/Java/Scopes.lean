import CodeGraph.Proofs.Java.Hierarchy
import CodeGraph.Proofs.Java.OuterTypes
import CodeGraph.Proofs.Java.Written

/-!
# The scopes of declared types

The scope inside a type is computed twice. The walk of a file has it at hand when it has
entered the type and the types around it; the index steps outward from the type and
reads it off the declarations it comes by. In regular files that declare every type
once, both come to the same scope.

* `Around.length_le`, `chain_eq`: the steps that the index takes are enough to come
  to the outermost type.
* `exists_decl_of_reaches`: at every type that a walk comes to, it stands in the types around it.
* `scope_of_reaches`: so the scope inside the type is the one that the index computes.
-/

namespace CodeGraph.Java

/-! ## The types around a type -/

namespace ProjectIndex

variable {index : ProjectIndex} {outer : Option String} {ds : List TypeDecl} {d : TypeDecl}
  {q : String}

/-- `Around index outer ds`: the type `outer`, if there is one, and those around it are declared by
`ds`, innermost first. -/
inductive Around (index : ProjectIndex) : Option String → List TypeDecl → Prop
  | outermost : Around index none []
  | within {o : String} {d : TypeDecl} {ds : List TypeDecl} (hd : index.get? o = some d)
      (h : Around index d.outer ds) : Around index (some o) (d :: ds)

theorem Around.outward_eq (h : Around index outer ds) (ho : outer = some q) {fuel : Nat}
    (hfuel : ds.length ≤ fuel) : index.outward fuel q = ds := by
  induction h generalizing q fuel with
  | outermost => cases ho
  | @within o d ds hd h ih =>
    cases ho
    obtain ⟨fuel, rfl⟩ : ∃ more, fuel = more + 1 := ⟨fuel - 1, by simp at hfuel; omega⟩
    cases houter : d.outer with
    | none =>
      rw [houter] at h
      cases h
      exact outward_of_outer_eq_none hd houter fuel
    | some outer => rw [outward_of_outer_eq_some hd houter, ih houter (by simpa using hfuel)]

theorem Around.mem_keys (h : Around index outer ds) (hw : WellNamed index.types) (hd : d ∈ ds) :
    d.qualified ∈ index.types.keys := by
  induction h with
  | outermost => cases hd
  | within hget h ih =>
    rcases List.mem_cons.1 hd with rfl | hd
    · rw [(hw _ _ hget).1]
      exact Naming.mem_keys_of_contains (Option.isSome_of_eq_some hget)
    · exact ih hd

/-- Names get shorter on the way outward. -/
theorem Around.length_lt (h : Around index outer ds) (hw : WellNamed index.types)
    (hnames : ¬index.NamelessOuter) {decl : TypeDecl} {q : String}
    (hdecl : index.get? q = some decl) (ho : outer = decl.outer) (hd : d ∈ ds) :
    d.qualified.length < q.length := by
  induction h generalizing q decl with
  | outermost => cases hd
  | @within o e ds hget h ih =>
    have hlt : o.length < q.length := length_outer_lt hw hnames hdecl ho.symm
    rcases List.mem_cons.1 hd with rfl | hd
    · rwa [(hw _ _ hget).1]
    · exact (ih hget rfl hd).trans hlt

theorem Around.nodup (h : Around index outer ds) (hw : WellNamed index.types)
    (hnames : ¬index.NamelessOuter) : (ds.map TypeDecl.qualified).Nodup := by
  induction h with
  | outermost => exact List.nodup_nil
  | @within o d ds hget h ih =>
    refine List.nodup_cons.2 ⟨fun hmem => ?_, ih⟩
    obtain ⟨e, he, heq⟩ := List.mem_map.1 hmem
    have hlt : e.qualified.length < o.length := h.length_lt hw hnames hget rfl he
    rw [heq, (hw _ _ hget).1] at hlt
    exact lt_irrefl _ hlt

/-- There are no more types around a type than types. -/
theorem Around.length_le (h : Around index outer ds) (hw : WellNamed index.types)
    (hnames : ¬index.NamelessOuter) : ds.length ≤ index.typeCount := by
  have hsubset : (ds.map TypeDecl.qualified).toFinset ⊆ index.types.keys.toFinset := by
    intro name hname
    obtain ⟨d, hd, rfl⟩ := List.mem_map.1 (List.mem_toFinset.1 hname)
    exact List.mem_toFinset.2 (h.mem_keys hw hd)
  calc ds.length = (ds.map TypeDecl.qualified).toFinset.card := by
        rw [List.toFinset_card_of_nodup (h.nodup hw hnames), List.length_map]
    _ ≤ index.types.keys.toFinset.card := Finset.card_le_card hsubset
    _ ≤ index.typeCount := Naming.card_keys_le index

/-- The index comes to all the types around a type. -/
theorem Around.chain_eq (h : Around index (some q) ds) (hw : WellNamed index.types)
    (hnames : ¬index.NamelessOuter) : index.chain q = ds.reverse := by
  rw [chain, h.outward_eq rfl (Nat.le_succ_of_le (h.length_le hw hnames))]

/-- The type itself is the last of its chain. -/
theorem exists_chain_eq (hd : index.get? q = some d) :
    ∃ outside, index.chain q = outside ++ [d] := by
  unfold chain
  simp only [outward, hd, List.reverse_cons]
  exact ⟨_, rfl⟩

/-- Inside a type, the type itself is the innermost one around, and in its header it is not. -/
theorem memberScope_eq (hd : index.get? q = some d) : index.memberScope q =
    { index.headerScope q with enclosing := (index.headerScope q).enclosing ++ [d.qualified] } := by
  obtain ⟨outside, hchain⟩ := exists_chain_eq hd
  simp [memberScope, headerScope, scopeOf, hchain]

/-- If every type is declared once, the index has each from its declaration. -/
theorem get?_build_of_nodup {files : List SourceFile} {file : SourceFile}
    (htypes : ((files.flatMap SourceFile.decls).map TypeDecl.qualified).Nodup)
    (hfile : file ∈ files) (hd : d ∈ file.decls) : (build files).get? d.qualified = some d := by
  have hmem : d ∈ files.flatMap SourceFile.decls := List.mem_flatMap.2 ⟨file, hfile, hd⟩
  obtain ⟨e, he⟩ := Option.isSome_iff_exists.1 (contains_build_iff.2 ⟨file, hfile, d, hd, rfl⟩)
  obtain ⟨heq, file', hfile', he'⟩ := get?_build_eq_some he
  rw [he, List.inj_on_of_nodup_map htypes (List.mem_flatMap.2 ⟨file', hfile', he'⟩) hmem heq]

theorem not_namelessOuter_build {files : List SourceFile} (h : ∀ file ∈ files, file.Regular) :
    ¬(build files).NamelessOuter := by
  rintro ⟨d, hd, -⟩
  obtain ⟨hempty, file, hfile, hd⟩ := get?_build_eq_some hd
  obtain ⟨qualifier, hq⟩ := exists_eq_joinName (h file hfile).first hd
  exact joinName_ne qualifier ((h file hfile).names d hd) (hq.symm.trans hempty)

end ProjectIndex

open ProjectIndex

/-! ## Where a walk stands -/

/-- The walk stands in the types of `ds`, innermost first, all in the file of a path. -/
structure Context.StandsIn (index : ProjectIndex) (path : String) (ctx : Context)
    (outer : Option String) (ds : List TypeDecl) : Prop where
  around : Around index outer ds
  file : ∀ d ∈ ds, d.file = path
  classes : ctx.classes = ds.reverse.map TypeDecl.qualified
  typeVars : ctx.typeVars = ds.reverse.flatMap TypeDecl.typeParams

namespace Context.StandsIn

variable {index : ProjectIndex} {path : String} {ctx : Context} {outer : Option String}
  {ds : List TypeDecl} {d : TypeDecl} {q : String}

theorem ofFile (index : ProjectIndex) (path : String) (scope : FileScope) :
    (Context.ofFile scope).StandsIn index path none [] :=
  ⟨.outermost, by simp, rfl, rfl⟩

/-- Entering a type. -/
theorem enterClass (h : ctx.StandsIn index path outer ds) (hd : index.get? q = some d)
    (hq : d.qualified = q) (houter : d.outer = outer) (hfile : d.file = path) :
    (ctx.enterClass q d.typeParams).StandsIn index path (some q) (d :: ds) where
  around := .within hd (houter ▸ h.around)
  file := List.forall_mem_cons.2 ⟨hfile, h.file⟩
  classes := by simp [Context.enterClass, Context.mark, h.classes, hq]
  typeVars := by simp [Context.enterClass, Context.mark, h.typeVars]

/-- The types around the place where a walk stands make up its scope. -/
theorem scope_eq (h : ctx.StandsIn index path (some q) ds) (hw : WellNamed index.types)
    (hnames : ¬index.NamelessOuter) (hscope : index.fileScope? path = some ctx.file) :
    ctx.scope = index.memberScope q := by
  have hhead : (ds.reverse.head?.bind fun d => index.fileScope? d.file) = some ctx.file := by
    have hne : ds.reverse ≠ [] := by
      cases h.around
      simp
    rw [List.head?_eq_some_head hne, Option.bind_some,
      h.file _ (List.mem_reverse.1 (List.head_mem hne)), hscope]
  rw [memberScope, h.around.chain_eq hw hnames, scopeOf, hhead, Option.getD_some, Nat.sub_zero,
    List.take_length, ← h.classes, ← h.typeVars]
  rfl

end Context.StandsIn

/-! ## Types that a walk comes to -/

variable {index : ProjectIndex} {ctx ctx' : Context} {outer outer' : Option String} {t d : Tree}
  {q : String}

theorem ownDecl_mem_collectType {path qualifier : String} {kind : TypeKind} {n : Tree}
    (hkind : TypeKind.ofTreeKind? t.kind = some kind) (hn : t.child? "name" = some n) :
    ownDecl path qualifier outer kind n t ∈ collectType path qualifier outer t := by
  rw [collectType_eq hkind hn]
  exact List.mem_append_right _ List.mem_cons_self

/-- **At every type that a walk comes to, it stands in the types around it,** and the index has the
type from the tree at which the walk has arrived. -/
theorem Reaches.exists_standsIn {path qualifier : String} {ds : List TypeDecl}
    (h : Reaches ctx outer t ctx' outer' q d) (hstands : ctx.StandsIn index path outer ds)
    (hname : nameUnder ctx.file outer = joinName qualifier)
    (hdecls : ∀ decl ∈ collectType path qualifier outer t,
      index.get? decl.qualified = some decl ∧ decl.name ≠ "") :
    ∃ ds' kind n qualifier', ctx'.StandsIn index path outer' ds' ∧
      TypeKind.ofTreeKind? d.kind = some kind ∧ q = joinName qualifier' n.text ∧
      ownDecl path qualifier' outer' kind n d ∈ collectType path qualifier outer t := by
  induction h generalizing qualifier ds with
  | @self ctx outer t n kind hkind hn =>
    exact ⟨ds, kind, n, qualifier, hstands, hkind, congrFun hname n.text,
      ownDecl_mem_collectType hkind hn⟩
  | @member ctx ctx' outer outer' t n m d kind q hkind hn hm h ih =>
    have hinner {decl : TypeDecl} (hdecl : decl ∈ collectType path (joinName qualifier n.text)
        (some (joinName qualifier n.text)) m) : decl ∈ collectType path qualifier outer t := by
      rw [collectType_eq hkind hn]
      exact List.mem_append_left _ (List.mem_flatMap.2 ⟨m, hm, hdecl⟩)
    -- the type that is entered on the way
    obtain ⟨hget, hne⟩ := hdecls _ (ownDecl_mem_collectType hkind hn)
    rw [congrFun hname n.text] at ih
    obtain ⟨ds', kind', n', qualifier', hstands', hkind', hq, hmem⟩ :=
      ih (hstands.enterClass hget rfl rfl rfl) (joinName_of_ne (joinName_ne qualifier hne)).symm
        fun decl hdecl => hdecls decl (hinner hdecl)
    exact ⟨ds', kind', n', qualifier', hstands', hkind', hq, hinner hmem⟩

/-- The index has a declaration from this tree, clauses included. -/
structure TypeDecl.DeclaredBy (decl : TypeDecl) (d : Tree) : Prop where
  kind : TypeKind.ofTreeKind? d.kind = some decl.kind
  superclass : decl.superclass = (superclassTree? d).bind WrittenType.ofTree?
  interfaces : decl.interfaces = (interfaceTrees d decl.kind).filterMap WrittenType.ofTree?

variable {files : List SourceFile} {file : SourceFile}

section

variable (hpaths : files.Pairwise PathsApart) (hregular : ∀ file ∈ files, file.Regular)
  (htypes : ((files.flatMap SourceFile.decls).map TypeDecl.qualified).Nodup)

include hpaths hregular htypes

/-- **The scope inside a type that a walk comes to is the one that the index computes,** and the
index has the type from the tree at which the walk has arrived. -/
theorem scope_of_reaches (hfile : file ∈ files) (h : file.Reaches (.build files) ctx outer q d) :
    ∃ decl ∈ file.decls, (ProjectIndex.build files).get? q = some decl ∧ decl.DeclaredBy d ∧
      (ctx.enterClass q (typeParameters d)).scope = (ProjectIndex.build files).memberScope q := by
  obtain ⟨c, hc, h⟩ := h
  rw [walkScope_build hpaths hfile] at h
  have hdecls {decl : TypeDecl}
      (hdecl : decl ∈ collectType file.path (file.scope.package.getD "") none c) :
      decl ∈ file.decls := by
    rw [decls_eq (hregular file hfile).first]
    exact List.mem_flatMap.2 ⟨c, hc, hdecl⟩
  have hpackage : file.scope.package ≠ some "" := by
    obtain ⟨kind, n, hkind, hn⟩ := h.declares.exists_kind_name
    exact (hregular file hfile).package
      (List.ne_nil_of_mem (hdecls (ownDecl_mem_collectType hkind hn)))
  obtain ⟨ds, kind, n, qualifier, hstands, hkind, rfl, hown⟩ :=
    h.exists_standsIn (.ofFile (.build files) file.path file.scope) (qualify_eq_joinName hpackage)
      fun decl hdecl => ⟨get?_build_of_nodup htypes hfile (hdecls hdecl),
        (hregular file hfile).names decl (hdecls hdecl)⟩
  have hget := get?_build_of_nodup htypes hfile (hdecls hown)
  refine ⟨_, hdecls hown, hget, ⟨hkind, rfl, rfl⟩, ?_⟩
  refine (hstands.enterClass hget rfl rfl rfl).scope_eq (wellNamed_build files)
    (not_namelessOuter_build hregular) ?_
  rw [fileScope?_build hpaths hfile]
  exact congrArg some h.file_eq.symm

omit htypes in
/-- A walk comes to every declared type. -/
theorem exists_reaches_of_mem_decls (hfile : file ∈ files) {decl : TypeDecl}
    (hdecl : decl ∈ file.decls) :
    ∃ ctx outer d, file.Reaches (.build files) ctx outer decl.qualified d := by
  obtain ⟨d, hd, -⟩ := (hregular file hfile).exists_declares hdecl
  rw [← walkScope_build hpaths hfile] at hd
  obtain ⟨ctx, outer, h⟩ := SourceFile.exists_reaches_iff.2 hd
  exact ⟨ctx, outer, d, h⟩

end

end CodeGraph.Java
