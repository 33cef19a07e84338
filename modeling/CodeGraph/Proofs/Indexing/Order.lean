import CodeGraph.Proofs.Indexing.Owners
import CodeGraph.Proofs.Java.Resolution

/-!
# The order of files

Files with different paths that declare different types have the same index in every order, so each
of them says the same about the code. Which nodes and relationships there are then does not depend
on the order, nor does any report (`SameShape`). An attribute does if two files give it different
values (`Agree`), as the last one stays.

* `orderFree_iff_agree`: this is the only way in which the order matters.
* `agree_of_plainPackage`: files whose packages are not empty and have no parenthesis agree.
* `orderFree_of_pairwise`: both together.

A package may have a parenthesis, because the text of a comment between its parts belongs to its
name. Then methods of different types may have one signature (`not_orderFree_commentedPackages`).
-/

namespace CodeGraph.Java

open ProjectIndex

/-- Two lists of files lead to the same nodes and relationships, whatever their ids, and to the same
reports. -/
structure SameShape (filter : NamespaceFilter) (files files' : List SourceFile) : Prop where
  keys : ∀ key, key ∈ (indexedGraph filter files).keys ↔ key ∈ (indexedGraph filter files').keys
  links : ∀ l, some l ∈ (indexedGraph filter files).links ↔
      some l ∈ (indexedGraph filter files').links
  reports : ∀ x, x ∈ files.zip (indexFiles filter files).2 ↔
      x ∈ files'.zip (indexFiles filter files').2

/-- They lead to the same nodes with the same attributes, too. -/
structure SameOutcome (filter : NamespaceFilter) (files files' : List SourceFile) : Prop extends
    SameShape filter files files' where
  nodes : ∀ n, n ∈ (indexedGraph filter files).nodes ↔ n ∈ (indexedGraph filter files').nodes

/-- The order of the files does not matter. -/
def OrderFree (filter : NamespaceFilter) (files : List SourceFile) : Prop :=
  ∀ files', files.Perm files' → SameOutcome filter files files'

/-- There is no attribute that the two files give different values. The key attribute of a
node is not theirs to give. -/
def Agree (index : ProjectIndex) (filter : NamespaceFilter) (a b : SourceFile) : Prop :=
  ∀ key name v w, name ≠ key.label.keyAttribute →
    lastGiven? (a.upserts index filter fun _ => true) key name = some v →
    lastGiven? (b.upserts index filter fun _ => true) key name = some w → v = w

instance (index : ProjectIndex) (filter : NamespaceFilter) : Std.Symm (Agree index filter) :=
  ⟨fun _ _ h key name v w hname hv hw => (h key name w v hname hw hv).symm⟩

variable {filter : NamespaceFilter} {files files' : List SourceFile}

/-! ## What a permutation keeps -/

theorem upsertsOf_perm (hperm : files.Perm files') (hbuild : build files = build files') :
    (upsertsOf filter files).Perm (upsertsOf filter files') := by
  rw [upsertsOf, upsertsOf, hbuild]
  exact hperm.flatMap_right _

/-- The graph is as small in every order. -/
theorem size_indexedGraph_lt (hperm : files.Perm files') (hbuild : build files = build files')
    (hsmall : (indexedGraph filter files).nodes.size < 0xffffffff) :
    (indexedGraph filter files').nodes.size < 0xffffffff := by
  have hsubset : (indexedGraph filter files').keys ⊆ (indexedGraph filter files).keys := by
    intro key hkey
    obtain ⟨given, hmem⟩ := exists_mem_upsertsOf hkey
    exact (Graph.mem_keys_of_applyAll?_empty (applyAll?_upsertsOf hsmall)).2
      ⟨given, (upsertsOf_perm hperm hbuild).mem_iff.2 hmem⟩
  have hle : (indexedGraph filter files').keys.length ≤ (indexedGraph filter files).keys.length :=
    (List.subperm_of_subset (wellFormed_indexedGraph filter files').nodes_unique hsubset).length_le
  rw [Graph.length_keys, Graph.length_keys] at hle
  exact Nat.lt_of_le_of_lt hle hsmall

theorem sameShape_of_perm (hperm : files.Perm files') (hbuild : build files = build files')
    (hsmall : (indexedGraph filter files).nodes.size < 0xffffffff) :
    SameShape filter files files' := by
  have hsmall' := size_indexedGraph_lt hperm hbuild hsmall
  have hus : (upsertsOf filter files).Perm (upsertsOf filter files') := upsertsOf_perm hperm hbuild
  refine ⟨fun key => ?_, fun l => ?_, fun x => ?_⟩
  · rw [Graph.mem_keys_of_applyAll?_empty (applyAll?_upsertsOf hsmall),
      Graph.mem_keys_of_applyAll?_empty (applyAll?_upsertsOf hsmall')]
    exact exists_congr fun given => hus.mem_iff
  · rw [Graph.mem_links_of_applyAll?_empty (applyAll?_upsertsOf hsmall) hsmall,
      Graph.mem_links_of_applyAll?_empty (applyAll?_upsertsOf hsmall') hsmall']
    exact hus.mem_iff
  · rw [(indexFiles_spec (Graph.names_true (Nat.le_of_lt hsmall))).2,
      (indexFiles_spec (Graph.names_true (Nat.le_of_lt hsmall'))).2,
      ← hbuild, ← List.map_prod_left_eq_zip, ← List.map_prod_left_eq_zip]
    exact (hperm.map _).mem_iff

/-! ## Attributes -/

/-- If no two files give different values, an attribute has the value that any file gives it. -/
theorem lastGiven?_flatMap_eq_some {upserts : SourceFile → List Upsert} {key : NodeKey}
    {name : String} (h : files.Pairwise fun a b => ∀ v w, lastGiven? (upserts a) key name = some v →
      lastGiven? (upserts b) key name = some w → v = w) {v : Value} :
    lastGiven? (files.flatMap upserts) key name = some v ↔
      ∃ a ∈ files, lastGiven? (upserts a) key name = some v := by
  induction files generalizing v with
  | nil => simp [lastGiven?]
  | cons a files ih =>
    obtain ⟨ha, hfiles⟩ := List.pairwise_cons.1 h
    rw [List.flatMap_cons, lastGiven?_append, List.exists_mem_cons_iff, Option.or_eq_some_iff]
    constructor
    · rintro (hv | ⟨-, hv⟩)
      · exact .inr ((ih hfiles).1 hv)
      · exact .inl hv
    · rintro (hv | hv)
      · cases hrest : lastGiven? (files.flatMap upserts) key name with
        | none => exact .inr ⟨rfl, hv⟩
        | some w =>
          obtain ⟨b, hb, hw⟩ := (ih hfiles).1 hrest
          rw [ha b hb v w hv hw]
          exact .inl rfl
      · exact .inl ((ih hfiles).2 hv)

theorem orderFree_of_agree (hpaths : files.Pairwise PathsApart) (htypes : files.Pairwise TypesApart)
    (hsmall : (indexedGraph filter files).nodes.size < 0xffffffff)
    (hagree : files.Pairwise (Agree (build files) filter)) : OrderFree filter files := by
  intro files' hperm
  have hbuild := build_perm hperm hpaths htypes
  have hsmall' := size_indexedGraph_lt hperm hbuild hsmall
  have hshape := sameShape_of_perm hperm hbuild hsmall
  refine ⟨hshape, Graph.mem_nodes_iff_of_applyAll?_empty (applyAll?_upsertsOf hsmall)
    (applyAll?_upsertsOf hsmall') (fun key => ?_) fun key name hname => Option.ext fun v => ?_⟩
  · exact exists_congr fun given => (upsertsOf_perm hperm hbuild).mem_iff
  · rw [upsertsOf, upsertsOf, ← hbuild,
      lastGiven?_flatMap_eq_some (hagree.imp fun h v w => h key name v w hname),
      lastGiven?_flatMap_eq_some ((hperm.pairwise hagree fun h => Std.Symm.symm _ _ h).imp
        fun h v w => h key name v w hname)]
    exact exists_congr fun a => and_congr_left fun _ => hperm.mem_iff

/-- Of the last two files the last one has its way. -/
theorem lastGiven?_upsertsOf_concat {rest : List SourceFile} {a b : SourceFile} {key : NodeKey}
    {name : String} {w : Value}
    (hb : lastGiven? (b.upserts (build (rest ++ [a, b])) filter fun _ => true) key name = some w) :
    lastGiven? (upsertsOf filter (rest ++ [a, b])) key name = some w := by
  rw [upsertsOf, List.flatMap_append, lastGiven?_append, List.flatMap_cons, lastGiven?_append,
    List.flatMap_singleton, hb]
  rfl

theorem agree_of_orderFree (hpaths : files.Pairwise PathsApart) (htypes : files.Pairwise TypesApart)
    (hsmall : (indexedGraph filter files).nodes.size < 0xffffffff)
    (horder : OrderFree filter files) :
    files.Pairwise (Agree (build files) filter) := by
  refine List.pairwise_iff_forall_sublist.2 fun {a b} hsub key name v w hname hv hw => ?_
  obtain ⟨rest, hrest⟩ := hsub.exists_perm_append
  have hab : files.Perm (rest ++ [a, b]) := hrest.trans List.perm_append_comm
  have hba : files.Perm (rest ++ [b, a]) := hab.trans ((List.Perm.swap b a []).append_left rest)
  -- with either one last, its value stays
  have hlast {x y : SourceFile} (hperm : files.Perm (rest ++ [x, y])) {u : Value}
      (hu : lastGiven? (y.upserts (build files) filter fun _ => true) key name = some u) :
      (indexedGraph filter (rest ++ [x, y])).attribute? key name = some u := by
    have hbuild := build_perm hperm hpaths htypes
    rw [Graph.attribute?_of_applyAll?_empty hname
      (applyAll?_upsertsOf (size_indexedGraph_lt hperm hbuild hsmall))]
    exact lastGiven?_upsertsOf_concat (hbuild ▸ hu)
  have hsame {files' : List SourceFile} (hperm : files.Perm files') :=
    (wellFormed_indexedGraph filter files).attribute?_congr (wellFormed_indexedGraph filter files')
      (horder files' hperm).nodes key name
  exact Option.some.inj (calc
    some v = (indexedGraph filter (rest ++ [b, a])).attribute? key name := (hlast hba hv).symm
    _ = (indexedGraph filter files).attribute? key name := (hsame hba).symm
    _ = (indexedGraph filter (rest ++ [a, b])).attribute? key name := hsame hab
    _ = some w := hlast hab hw)

/-- **The order matters exactly if two files give an attribute different values.** -/
theorem orderFree_iff_agree (hpaths : files.Pairwise PathsApart)
    (htypes : files.Pairwise TypesApart)
    (hsmall : (indexedGraph filter files).nodes.size < 0xffffffff) :
    OrderFree filter files ↔ files.Pairwise (Agree (build files) filter) :=
  ⟨agree_of_orderFree hpaths htypes hsmall, orderFree_of_agree hpaths htypes hsmall⟩

/-! ## Plain packages -/

/-- Files of plain packages have no node to which both give attributes. -/
theorem agree_of_plainPackage {index : ProjectIndex} {a b : SourceFile} (hpaths : PathsApart a b)
    (htypes : TypesApart a b) (ha : PackageFirst a.root ∧ a.PlainNames ∧ a.PlainPackage)
    (hb : PackageFirst b.root ∧ b.PlainNames ∧ b.PlainPackage)
    (hsa : walkScope index a = a.scope) (hsb : walkScope index b = b.scope) :
    Agree index filter a b := by
  intro key name v w _ hv hw
  have howns {file : SourceFile} (h : PackageFirst file.root ∧ file.PlainNames ∧ file.PlainPackage)
      (hscope : walkScope index file = file.scope) {v : Value}
      (hv : lastGiven? (file.upserts index filter fun _ => true) key name = some v) :
        file.Owns key := by
    obtain ⟨hfirst, hnames, hpackage⟩ := h
    obtain ⟨given, hmem, hgiven⟩ := exists_of_lastGiven?_eq_some hv
    exact owns_of_mem_upserts (hpackage.regular hfirst hnames) hscope hmem hgiven
  exact absurd rfl (ne_of_owns hpaths htypes ha.2.1 hb.2.1
    (fun decl hdecl => ha.2.2.notMem_qualified ha.1 ha.2.1 hdecl)
    (fun decl hdecl => hb.2.2.notMem_qualified hb.1 hb.2.1 hdecl) (howns ha hsa hv)
      (howns hb hsb hw))

theorem pairwise_agree_of_plainPackage (hpaths : files.Pairwise PathsApart)
    (htypes : files.Pairwise TypesApart) (hfirst : ∀ file ∈ files, PackageFirst file.root)
    (hnames : ∀ file ∈ files, file.PlainNames) (hpackages : ∀ file ∈ files, file.PlainPackage) :
    files.Pairwise (Agree (build files) filter) := by
  refine (hpaths.and htypes).imp_of_mem fun {a b} ha hb hab => ?_
  exact agree_of_plainPackage hab.1 hab.2 ⟨hfirst a ha, hnames a ha, hpackages a ha⟩
    ⟨hfirst b hb, hnames b hb, hpackages b hb⟩ (walkScope_build hpaths ha)
      (walkScope_build hpaths hb)

/-- **The order of files does not matter** to nodes, relationships and reports, if paths and
types are distinct; to attributes, exactly as long as no two files give one different
values; and so to nothing at all if names are plain and packages, where there are any, are
not empty and have no parenthesis. -/
theorem orderFree_of_pairwise (hpaths : files.Pairwise PathsApart)
    (htypes : files.Pairwise TypesApart) (hfirst : ∀ file ∈ files, PackageFirst file.root)
    (hnames : ∀ file ∈ files, file.PlainNames)
    (hsmall : (indexedGraph filter files).nodes.size < 0xffffffff) :
    (∀ files', files.Perm files' → SameShape filter files files') ∧
      (OrderFree filter files ↔ files.Pairwise (Agree (build files) filter)) ∧
      ((∀ file ∈ files, file.PlainPackage) → OrderFree filter files) := by
  refine ⟨fun files' hperm => sameShape_of_perm hperm (build_perm hperm hpaths htypes) hsmall,
    orderFree_iff_agree hpaths htypes hsmall, fun hpackages => ?_⟩
  exact orderFree_of_agree hpaths htypes hsmall
    (pairwise_agree_of_plainPackage hpaths htypes hfirst hnames hpackages)

/-- `class A extends T {}` and `class T {}` of one package, each in a file of its own. -/
def extendingFiles : List SourceFile :=
  [⟨"/p/A.java", .mk "program" true "" "" 1 1
    [.mk "package_declaration" true "" "" 1 1 [.mk "scoped_identifier" true "" "a.b" 1 1 []],
     .mk "class_declaration" true "" "" 1 1
      [.mk "identifier" true "name" "A" 1 1 [],
       .mk "superclass" true "superclass" "" 1 1 [.mk "type_identifier" true "" "T" 1 1 []],
       .mk "class_body" true "body" "" 1 1 []]]⟩,
   ⟨"/p/T.java", .mk "program" true "" "" 1 1
    [.mk "package_declaration" true "" "" 1 1 [.mk "scoped_identifier" true "" "a.b" 1 1 []],
     .mk "class_declaration" true "" "" 1 1
      [.mk "identifier" true "name" "T" 1 1 [], .mk "class_body" true "body" "" 1 1 []]]⟩]

/-- A class may be known by reference first or be declared first. -/
theorem orderFree_extendingFiles :
    extendingFiles.Pairwise PathsApart ∧ extendingFiles.Pairwise TypesApart ∧
      (∀ file ∈ extendingFiles, PackageFirst file.root) ∧
      (∀ file ∈ extendingFiles, file.PlainNames) ∧
      (∀ file ∈ extendingFiles, file.PlainPackage) ∧
      (indexedGraph ⟨[]⟩ extendingFiles).nodes.size < 0xffffffff ∧
      OrderFree ⟨[]⟩ extendingFiles := by
  have hpaths : extendingFiles.Pairwise PathsApart := by decide +kernel
  have htypes : extendingFiles.Pairwise TypesApart := by decide +kernel
  have hfirst : ∀ file ∈ extendingFiles, PackageFirst file.root := by decide +kernel
  have hnames : ∀ file ∈ extendingFiles, file.PlainNames := by decide +kernel
  have hpackages : ∀ file ∈ extendingFiles, file.PlainPackage := by decide +kernel
  have hsmall : (indexedGraph ⟨[]⟩ extendingFiles).nodes.size < 0xffffffff := by decide +kernel
  exact ⟨hpaths, htypes, hfirst, hnames, hpackages, hsmall,
    (orderFree_of_pairwise hpaths htypes hfirst hnames hsmall).2.2 hpackages⟩

/-- A file with a package, an import and `class type { void method(j x) {} }`, without
the parts that nothing reads. -/
def methodFile (path package imported type method : String) : SourceFile where
  path := path
  root := .mk "program" true "" "" 1 1
    [.mk "package_declaration" true "" "" 1 1 [.mk "scoped_identifier" true "" package 1 1 []],
     .mk "import_declaration" true "" "" 1 1 [.mk "scoped_identifier" true "" imported 1 1 []],
     .mk "class_declaration" true "" "" 1 1
      [.mk "identifier" true "name" type 1 1 [],
       .mk "class_body" true "body" "" 1 1
        [.mk "method_declaration" true "" "" 1 1
          [.mk "void_type" true "type" "void" 1 1 [],
           .mk "identifier" true "name" method 1 1 [],
           .mk "formal_parameters" true "parameters" "" 1 1
            [.mk "formal_parameter" true "" "" 1 1
              [.mk "type_identifier" true "type" "j" 1 1 [],
                .mk "identifier" true "name" "x" 1 1 []]],
           .mk "block" true "body" "" 1 1 []]]]]

/-- Two files with comments in their packages and in an import. The methods `m` and `n2` are in
types of different names and have one signature. -/
def commentedPackages : List SourceFile :=
  [methodFile "/p/A.java" "a.//\nb" "zzz.//i.T2.n2(\nk.j" "A" "m",
   methodFile "/p/T2.java" "a.//b.A.m(zzz.//\ni" "k.j" "T2" "n2"]

/-- Names and paths are as they should be, names resolve, and the order matters all the same: the
method that was written last keeps its file and its code. -/
theorem not_orderFree_commentedPackages :
    commentedPackages.Pairwise PathsApart ∧ commentedPackages.Pairwise TypesApart ∧
      (∀ file ∈ commentedPackages, PackageFirst file.root) ∧
      (∀ file ∈ commentedPackages, file.PlainNames) ∧
      (∀ t, ¬(build commentedPackages).CircularHeader t) ∧
      ¬(build commentedPackages).NamelessOuter ∧
      ¬OrderFree ⟨[]⟩ commentedPackages := by
  obtain ⟨hheaders, houter⟩ := not_circularHeader_and_not_namelessOuter commentedPackages
    (by decide +kernel)
  refine ⟨by decide +kernel, by decide +kernel, by decide +kernel, by decide +kernel,
    hheaders, houter,
    fun horder => ?_⟩
  have hsame := (wellFormed_indexedGraph ⟨[]⟩ commentedPackages).attribute?_congr
    (wellFormed_indexedGraph ⟨[]⟩ commentedPackages.reverse)
    (horder _ (List.reverse_perm _).symm).nodes ⟨.method, "a.//b.A.m(zzz.//i.T2.n2(k.j)"⟩ "file"
  have hforward : (indexedGraph ⟨[]⟩ commentedPackages).attribute?
      ⟨.method, "a.//b.A.m(zzz.//i.T2.n2(k.j)"⟩ "file" = some (.text "/p/T2.java") := by
        decide +kernel
  have hbackward : (indexedGraph ⟨[]⟩ commentedPackages.reverse).attribute?
      ⟨.method, "a.//b.A.m(zzz.//i.T2.n2(k.j)"⟩ "file" = some (.text "/p/A.java") := by
        decide +kernel
  rw [hforward, hbackward] at hsame
  exact absurd hsame (by decide)

end CodeGraph.Java
