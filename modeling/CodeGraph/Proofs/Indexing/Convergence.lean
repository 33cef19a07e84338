import CodeGraph.Proofs.Indexing.Owners
import CodeGraph.Proofs.Java.Resolution

/-!
# Stubs and declarations

A class or method known only by reference is a node without attributes of its own, and meets
its declaration, wherever that is, in the same node. `Converged` says that this works out:
the classes with a kind are the types of the index, and every call leads to a method of such
a type, written with its code as a member of the type, unless the method is the accessor that
a record component brings.

* `converged_of_regular`: it does for regular files.
* `package_ne_of_converged`: if no name of a type has a dot, it does only if packages have names.
* `converged_iff_packagesNamed`: both together.

A package declaration without a name, such as a parser leaves it behind after an error, is no
package to the index and the empty one to the graph (`not_converged_missingPackage`).
-/

namespace CodeGraph.Java

open ProjectIndex

/-- A method of a record that only a component brings: no method without parameters
is declared under its name. -/
def ImplicitAccessor (kind : TypeKind) (d : Tree) (m : MethodDecl) : Prop :=
  m ∈ (recordComponents d kind).map accessor ∧
    ∀ x ∈ typeMembers d, ∀ m', methodDecl? x = some m' → m'.isConstructor = false →
      m'.name = m.name →
      m'.params ≠ []

/-- A call leads to a method, no constructor, of an indexed type. It carries its code and is a
member of the type, or it is an implicit accessor. -/
structure Arrives (filter : NamespaceFilter) (files : List SourceFile) (target : NodeKey)
    (decl : TypeDecl) (m : MethodDecl) : Prop where
  indexed : (build files).get? decl.qualified = some decl
  declared : m ∈ decl.methods
  isMethod : m.isConstructor = false
  signature : ∃ signature, (build files).signature decl.qualified m = .ok signature ∧
    target = ⟨.method, signature⟩
  written : ((indexedGraph filter files).attribute? target "code").isSome ∧
      some ⟨⟨.classType, decl.qualified⟩, target, .hasMethod⟩ ∈ (indexedGraph filter files).links ∨
    ∃ file ∈ files, ∃ d, file.Declares dotted file.scope.qualify decl.qualified d ∧
      decl.ReadFrom d ∧
      ImplicitAccessor decl.kind d m

/-- References and declarations meet. -/
structure Converged (filter : NamespaceFilter) (files : List SourceFile) : Prop where
  kinds : ∀ q, ⟨.classType, q⟩ ∈ (indexedGraph filter files).keys →
    (((indexedGraph filter files).attribute? ⟨.classType, q⟩ "kind").isSome ↔
      (build files).contains q)
  calls : ∀ caller target, some ⟨caller, target, .callsMethod⟩ ∈ (indexedGraph filter files).links →
    ∃ decl m, Arrives filter files target decl m

variable {index : ProjectIndex} {filter : NamespaceFilter} {files : List SourceFile} {u : Upsert}

/-! ## What is written -/

/-- Only calls write relationships between methods. -/
theorem exists_isCallee_of_mem_upserts {file : SourceFile} {caller target : NodeKey}
    {ok : NodeKey → Bool} (h : .edge caller target .callsMethod ∈ file.upserts index filter ok) :
    ∃ callee, index.IsCallee callee ∧ target = ⟨.method, callee⟩ := by
  cases origin_of_mem_upserts h with
  | edge hne => exact absurd rfl hne
  | call hcallee => exact ⟨_, hcallee, rfl⟩

/-- In the index no name without a dot stands after an empty qualifier and a dot. -/
theorem dotted_ne_qualified {file : SourceFile} (hfirst : PackageFirst file.root)
    (hdots : ∀ decl ∈ file.decls, '.' ∉ decl.name.toList) {decl : TypeDecl}
    (hdecl : decl ∈ file.decls) {name : String} (hname : '.' ∉ name.toList) :
    decl.qualified ≠ dotted "" name := by
  intro heq
  obtain ⟨qualifier, hq⟩ := exists_eq_joinName hfirst hdecl
  rw [heq] at hq
  by_cases hempty : qualifier = ""
  · rw [joinName, if_pos (by simpa using hempty)] at hq
    exact hdots decl hdecl (hq ▸ by simp [dotted])
  · rw [joinName_of_ne hempty] at hq
    exact hempty (eq_of_dotted_eq hname (hdots decl hdecl) hq).symm

/-- Without parameters only the name counts. -/
theorem signature_eq_of_params_eq_nil {q : String} {m m' : MethodDecl} (hname : m'.name = m.name)
    (hm : m.params = []) (hm' : m'.params = []) : index.signature q m' = index.signature q m := by
  rw [ProjectIndex.signature, ProjectIndex.signature, hm, hm', hname]
  rfl

section

variable (hpaths : files.Pairwise PathsApart)
  (hjava : ∀ file ∈ files, Path.isJavaSource file.path = true)
  (hsmall : (indexedGraph filter files).nodes.size < 0xffffffff)

include hpaths hjava hsmall

/-! ## Types -/

/-- A declared type has a kind in the graph. -/
theorem isSome_kind_of_declares {file : SourceFile} (hfile : file ∈ files) {q : String} {d : Tree}
    (hd : file.Declares dotted file.scope.qualify q d) :
    ((indexedGraph filter files).attribute? ⟨.classType, q⟩ "kind").isSome := by
  have hname : "kind" ≠ Label.classType.keyAttribute := by decide
  rw [← walkScope_build hpaths hfile] at hd
  obtain ⟨kind, hmem⟩ := mem_written_of_declares hd
  rw [Graph.attribute?_of_applyAll?_empty hname (applyAll?_upsertsOf hsmall)]
  exact isSome_lastGiven?_of_mem (mem_upsertsOf_of_mem_extract hjava hfile hmem) rfl

/-- **The classes with a kind are the types of the index.** -/
theorem isSome_kind_iff (hregular : ∀ file ∈ files, file.Regular) (q : String) :
    ((indexedGraph filter files).attribute? ⟨.classType, q⟩ "kind").isSome ↔
    (build files).contains q := by
  rw [contains_build_iff]
  constructor
  · intro h
    have hname : "kind" ≠ Label.classType.keyAttribute := by decide
    rw [Graph.attribute?_of_applyAll?_empty hname (applyAll?_upsertsOf hsmall)] at h
    obtain ⟨v, hv⟩ := Option.isSome_iff_exists.1 h
    obtain ⟨given, hmem, hgiven⟩ := exists_of_lastGiven?_eq_some hv
    obtain ⟨file, hfile, hmem⟩ := List.mem_flatMap.1 hmem
    cases owns_of_mem_upserts (hregular file hfile) (walkScope_build hpaths hfile) hmem hgiven with
    | classType hdecl => exact ⟨file, hfile, _, hdecl, rfl⟩
  · rintro ⟨file, hfile, decl, hdecl, rfl⟩
    obtain ⟨d, hd, -⟩ := (hregular file hfile).exists_declares hdecl
    exact isSome_kind_of_declares hpaths hjava hsmall hfile hd

/-! ## Calls -/

/-- A method in the body of a declared type has its code and is a member of the type. -/
theorem written_of_mem_typeMembers {file : SourceFile} (hfile : file ∈ files) {q signature : String}
    {d x : Tree} {m : MethodDecl} (hd : file.Declares dotted file.scope.qualify q d)
    (hx : x ∈ typeMembers d) (hm : methodDecl? x = some m) (hmethod : m.isConstructor = false)
    (hsignature : (build files).signature q m = .ok signature) :
    ((indexedGraph filter files).attribute? ⟨.method, signature⟩ "code").isSome ∧
      some ⟨⟨.classType, q⟩, ⟨.method, signature⟩, .hasMethod⟩ ∈
        (indexedGraph filter files).links := by
  have hname : "code" ≠ Label.method.keyAttribute := by decide
  rw [← walkScope_build hpaths hfile] at hd
  obtain ⟨⟨detail, hnode⟩, hedge⟩ := mem_written_of_mem_typeMembers hd hx hm hsignature
  rw [hmethod] at hedge
  rw [Graph.attribute?_of_applyAll?_empty hname (applyAll?_upsertsOf hsmall),
    Graph.mem_links_of_applyAll?_empty (applyAll?_upsertsOf hsmall) hsmall]
  refine ⟨isSome_lastGiven?_of_mem
    (mem_upsertsOf_of_mem_extract hjava hfile (hnode _ List.mem_cons_self)) ?_,
    mem_upsertsOf_of_mem_extract hjava hfile hedge⟩
  simp [Dict.ofList]

/-- **A call arrives.** The index has the callee from the first declaration of its type, and the
file of that declaration writes it. -/
theorem exists_arrives (hregular : ∀ file ∈ files, file.Regular) {callee : String}
    (h : (build files).IsCallee callee) :
    ∃ decl m, Arrives filter files ⟨.method, callee⟩ decl m := by
  obtain ⟨⟨decl, m⟩, ⟨⟨type, htype⟩, hm, hmethod⟩, hsignature⟩ := h
  obtain ⟨rfl, file, hfile, hdecl⟩ := get?_build_eq_some htype
  obtain ⟨d, hd, hread⟩ := (hregular file hfile).exists_declares hdecl
  have hwritten {x : Tree} {m' : MethodDecl} (hx : x ∈ typeMembers d)
      (hm' : methodDecl? x = some m') (hmethod' : m'.isConstructor = false)
      (hsignature' : (build files).signature decl.qualified m' = .ok callee) :=
    written_of_mem_typeMembers hpaths hjava hsmall hfile hd hx hm' hmethod' hsignature'
  refine ⟨decl, m, htype, hm, hmethod, ⟨callee, hsignature, rfl⟩, ?_⟩
  have hcases := List.mem_append.1 (hread.methods ▸ hm)
  rcases hcases with haccessor | hbody
  · by_cases hexplicit : ∃ x ∈ typeMembers d, ∃ m', methodDecl? x = some m' ∧
      m'.isConstructor = false ∧
        m'.name = m.name ∧ m'.params = []
    · -- the accessor is declared, too
      obtain ⟨x, hx, m', hm', hmethod', hname, hparams⟩ := hexplicit
      have hnone : m.params = [] := by
        obtain ⟨p, -, rfl⟩ := List.mem_map.1 haccessor
        rfl
      exact .inl (hwritten hx hm' hmethod'
        ((signature_eq_of_params_eq_nil hname hnone hparams).trans hsignature))
    · refine .inr ⟨file, hfile, d, hd, hread, haccessor,
        fun x hx m' hm' hmethod' hname hparams => ?_⟩
      exact hexplicit ⟨x, hx, m', hm', hmethod', hname, hparams⟩
  · obtain ⟨x, hx, hm'⟩ := List.mem_filterMap.1 hbody
    exact .inl (hwritten hx hm' hmethod hsignature)

theorem converged_of_regular (hregular : ∀ file ∈ files, file.Regular) :
    Converged filter files where
  kinds q _ := isSome_kind_iff hpaths hjava hsmall hregular q
  calls caller target hlink := by
    rw [Graph.mem_links_of_applyAll?_empty (applyAll?_upsertsOf hsmall) hsmall] at hlink
    obtain ⟨file, hfile, hmem⟩ := List.mem_flatMap.1 hlink
    obtain ⟨callee, hcallee, rfl⟩ := exists_isCallee_of_mem_upserts hmem
    exact exists_arrives hpaths hjava hsmall hregular hcallee

/-! ## Packages without a name -/

theorem package_ne_of_converged (hfirst : ∀ file ∈ files, PackageFirst file.root)
    (hdots : ∀ file ∈ files, ∀ decl ∈ file.decls, '.' ∉ decl.name.toList)
    (h : Converged filter files) {file : SourceFile} (hfile : file ∈ files)
    (hdecls : file.decls ≠ []) : file.scope.package ≠ some "" := by
  intro hpackage
  -- a type at the top of the file
  obtain ⟨decl, hdecl⟩ := List.exists_mem_of_ne_nil _ hdecls
  obtain ⟨d, ⟨c, hc, hd⟩, -⟩ := mem_collectFile (hfirst file hfile) hdecl
  obtain ⟨kind, n, hkind, hn⟩ := hd.exists_kind_name
  obtain ⟨top, htop, -, hread⟩ := exists_mem_collectFile (hfirst file hfile) ⟨c, hc, .self hkind hn⟩
  have hname : n.text = top.name := Option.some.inj (by rw [← hread.name, hn, Option.map_some])
  -- its class has a kind
  have hqualify : file.scope.qualify n.text = dotted "" n.text := by
    rw [FileScope.qualify, hpackage]
    rfl
  have hself : file.Declares dotted file.scope.qualify (dotted "" n.text) c := by
    rw [← hqualify]
    exact ⟨c, hc, .self hkind hn⟩
  have hgiven := isSome_kind_of_declares hpaths hjava hsmall hfile hself
  have hkey : (⟨.classType, dotted "" n.text⟩ : NodeKey) ∈ (indexedGraph filter files).keys := by
    by_contra hnone
    rw [Graph.attribute?_of_notMem hnone] at hgiven
    cases hgiven
  -- but the index does not know it
  obtain ⟨other, hother, decl', hdecl', heq⟩ := contains_build_iff.1 ((h.kinds _ hkey).1 hgiven)
  exact dotted_ne_qualified (hfirst other hother) (hdots other hother) hdecl'
    (hname ▸ hdots file hfile top htop) heq

end

/-- In every file that declares a type, the package declaration has a name if there is one. -/
def PackagesNamed (files : List SourceFile) : Prop :=
  ∀ file ∈ files, file.decls ≠ [] → file.scope.package ≠ some ""

instance (files : List SourceFile) : Decidable (PackagesNamed files) :=
  inferInstanceAs (Decidable (∀ file ∈ files, file.decls ≠ [] → file.scope.package ≠ some ""))

/-- **Stubs and declarations converge** if packages have names, and, as long as no name of a
type has a dot, only then. -/
theorem converged_iff_packagesNamed (hpaths : files.Pairwise PathsApart)
    (hfirst : ∀ file ∈ files, PackageFirst file.root)
    (hnames : ∀ file ∈ files, ∀ decl ∈ file.decls, decl.name ≠ "")
    (hjava : ∀ file ∈ files, Path.isJavaSource file.path = true)
    (hsmall : (indexedGraph filter files).nodes.size < 0xffffffff) :
    (PackagesNamed files → Converged filter files) ∧
      ((∀ file ∈ files, ∀ decl ∈ file.decls, '.' ∉ decl.name.toList) →
        (Converged filter files ↔ PackagesNamed files)) := by
  have hconverged (h : PackagesNamed files) : Converged filter files :=
    converged_of_regular hpaths hjava hsmall
      fun file hfile => ⟨hfirst file hfile, hnames file hfile, h file hfile⟩
  refine ⟨hconverged, fun hdots => ⟨fun h file hfile hdecls => ?_, hconverged⟩⟩
  exact package_ne_of_converged hpaths hjava hsmall hfirst hdots h hfile hdecls

/-- `class A { void m(B b) { b.n(); } }` and `class B { void n() {} }`, each in a file of its own,
without the parts that nothing reads. -/
def callingFiles : List SourceFile :=
  [⟨"/p/A.java", .mk "program" true "" "" 1 1
    [.mk "class_declaration" true "" "" 1 1
      [.mk "identifier" true "name" "A" 1 1 [],
       .mk "class_body" true "body" "" 1 1
        [.mk "method_declaration" true "" "" 1 1
          [.mk "void_type" true "type" "void" 1 1 [],
           .mk "identifier" true "name" "m" 1 1 [],
           .mk "formal_parameters" true "parameters" "" 1 1
            [.mk "formal_parameter" true "" "" 1 1
              [.mk "type_identifier" true "type" "B" 1 1 [],
                .mk "identifier" true "name" "b" 1 1 []]],
           .mk "block" true "body" "" 1 1
            [.mk "expression_statement" true "" "" 1 1
              [.mk "method_invocation" true "" "" 1 1
                [.mk "identifier" true "object" "b" 1 1 [],
                 .mk "identifier" true "name" "n" 1 1 [],
                 .mk "argument_list" true "arguments" "" 1 1 []]]]]]]]⟩,
   ⟨"/p/B.java", .mk "program" true "" "" 1 1
    [.mk "class_declaration" true "" "" 1 1
      [.mk "identifier" true "name" "B" 1 1 [],
       .mk "class_body" true "body" "" 1 1
        [.mk "method_declaration" true "" "" 1 1
          [.mk "void_type" true "type" "void" 1 1 [],
           .mk "identifier" true "name" "n" 1 1 [],
           .mk "formal_parameters" true "parameters" "" 1 1 [],
           .mk "block" true "body" "" 1 1 []]]]]⟩]

/-- The call is written before the method that it leads to is declared. -/
theorem converged_callingFiles :
    callingFiles.Pairwise PathsApart ∧ (∀ file ∈ callingFiles, PackageFirst file.root) ∧
      (∀ file ∈ callingFiles, ∀ decl ∈ file.decls, decl.name ≠ "") ∧
      (∀ file ∈ callingFiles, Path.isJavaSource file.path = true) ∧
      (indexedGraph ⟨[]⟩ callingFiles).nodes.size < 0xffffffff ∧ PackagesNamed callingFiles ∧
      some ⟨⟨.method, "A.m(B)"⟩, ⟨.method, "B.n()"⟩, .callsMethod⟩ ∈
        (indexedGraph ⟨[]⟩ callingFiles).links ∧
      Converged ⟨[]⟩ callingFiles := by
  have hpaths : callingFiles.Pairwise PathsApart := by decide +kernel
  have hfirst : ∀ file ∈ callingFiles, PackageFirst file.root := by decide +kernel
  have hnames : ∀ file ∈ callingFiles, ∀ decl ∈ file.decls, decl.name ≠ "" := by decide +kernel
  have hjava : ∀ file ∈ callingFiles, Path.isJavaSource file.path = true := by decide +kernel
  have hsmall : (indexedGraph ⟨[]⟩ callingFiles).nodes.size < 0xffffffff := by decide +kernel
  have hpackages : PackagesNamed callingFiles := by decide +kernel
  exact ⟨hpaths, hfirst, hnames, hjava, hsmall, hpackages, by decide +kernel,
    (converged_iff_packagesNamed hpaths hfirst hnames hjava hsmall).1 hpackages⟩

/-- `@Deprecated package ; class A {}`, where the parser supplies the name that is
missing with no text. -/
def missingPackage : SourceFile where
  path := "/p/A.java"
  root := .mk "program" true "" "" 1 1
    [.mk "package_declaration" true "" "" 1 1
      [.mk "marker_annotation" true "" "" 1 1 [.mk "identifier" true "name" "Deprecated" 1 1 []],
       .mk "identifier" true "" "" 1 1 []],
     .mk "class_declaration" true "" "" 1 1
      [.mk "identifier" true "name" "A" 1 1 [], .mk "class_body" true "body" "" 1 1 []]]

/-- The package comes first, the type has a name, names resolve, and the graph has a declared class
`.A` where the index has a type `A`. -/
theorem not_converged_missingPackage :
    PackageFirst missingPackage.root ∧ (∀ decl ∈ missingPackage.decls, decl.name ≠ "") ∧
      Path.isJavaSource missingPackage.path = true ∧
      (∀ t, ¬(build [missingPackage]).CircularHeader t) ∧ ¬(build [missingPackage]).NamelessOuter ∧
      (indexedGraph ⟨[]⟩ [missingPackage]).attribute? ⟨.classType, ".A"⟩ "kind" =
        some (.text "class") ∧
      ¬(build [missingPackage]).contains ".A" ∧ (build [missingPackage]).contains "A" ∧
      ¬Converged ⟨[]⟩ [missingPackage] := by
  obtain ⟨hheaders, houter⟩ := not_circularHeader_and_not_namelessOuter [missingPackage]
    (by decide +kernel)
  have hkind : (indexedGraph ⟨[]⟩ [missingPackage]).attribute? ⟨.classType, ".A"⟩ "kind" =
      some (.text "class") := by decide +kernel
  have hnode : (⟨.classType, ".A"⟩ : NodeKey) ∈ (indexedGraph ⟨[]⟩ [missingPackage]).keys := by
    decide +kernel
  have hunknown : ¬(build [missingPackage]).contains ".A" := by decide +kernel
  exact ⟨by decide +kernel, by decide +kernel, by decide +kernel, hheaders, houter, hkind, hunknown,
    by decide +kernel, fun h => hunknown ((h.kinds ".A" hnode).1 (by rw [hkind]; rfl))⟩

end CodeGraph.Java
