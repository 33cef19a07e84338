import CodeGraph.Proofs.Indexing.Order

/-!
# Methods and the types that have them

A type has its methods and constructors by relationships to their nodes, which are identified by
their signatures. Members of one signature share a node, and if they differ in their type or one of
them is a constructor and the other is not, the node is entered more than once.

* `mem_memberships_iff`: the relationships that enter a method.
* `length_memberships_le_one_iff`: when every method is entered at most once.
* `signature_eq_iff`: with plain names, members of one signature agree in type, name and parameters.
* `pairwise_signatures_iff`: when no two members of a type share a signature.
* `memberships_of_indexed`: all this together, and that with plain names only a constructor and a
  method with the same name and the same parameters are in the way.

Such a method is legal in Java (`not_length_memberships_le_one_constructorNamesake`).
-/

namespace CodeGraph

/-- The relationships by which types have the method of a signature. -/
def Graph.memberships (g : Graph) (signature : String) : List Link :=
  (g.links.filterMap id).filter fun l =>
    l.target = ⟨.method, signature⟩ ∧ (l.relation = .hasMethod ∨ l.relation = .hasConstructor)

theorem Graph.mem_memberships {g : Graph} {signature : String} {l : Link} :
    l ∈ g.memberships signature ↔ some l ∈ g.links ∧ l.target = ⟨.method, signature⟩ ∧
      (l.relation = .hasMethod ∨ l.relation = .hasConstructor) := by
  simp [memberships]

theorem Graph.WellFormed.nodup_memberships {g : Graph} (h : g.WellFormed) (signature : String) :
    (g.memberships signature).Nodup :=
  h.nodup_filterMap_links.filter _

theorem length_le_one_iff_of_nodup {α : Type} {l : List α} (h : l.Nodup) :
    l.length ≤ 1 ↔ ∀ a ∈ l, ∀ b ∈ l, a = b := by
  match l with
  | [] => simp
  | [a] => simp
  | a :: b :: l =>
    have hne : a ≠ b := fun hab => (List.nodup_cons.1 h).1 (hab ▸ List.mem_cons_self)
    refine ⟨fun hlength => by simp at hlength, fun hall => absurd (hall a ?_ b ?_) hne⟩
    · exact List.mem_cons_self
    · exact List.mem_cons_of_mem _ List.mem_cons_self

namespace Java

open ProjectIndex

/-- The parameters of a method as its signature shows them. -/
def ProjectIndex.parameters (index : ProjectIndex) (q : String) (m : MethodDecl) :
    Except Unresolved String :=
  (m.params.mapM (index.describeParam q m.typeParams)).map (", ".intercalate ·)

/-- The methods and constructors in the body of a declaration. -/
def bodyMethods (d : Tree) : List MethodDecl := (typeMembers d).filterMap methodDecl?

/-- Both are known and read the same. -/
def ReadSame (a b : Except Unresolved String) : Prop := ∃ text, a = .ok text ∧ b = .ok text

/-- Among the types that the files declare, the one that is called `q` has the member `m` of this
signature. -/
def DeclaresMember (files : List SourceFile) (q : String) (m : MethodDecl)
    (signature : String) : Prop :=
  ∃ file ∈ files, ∃ d, file.Declares dotted (walkScope (.build files) file).qualify q d ∧
    ∃ x ∈ typeMembers d, methodDecl? x = some m ∧
      (ProjectIndex.build files).signature q m = .ok signature

variable {index : ProjectIndex} {filter : NamespaceFilter} {files : List SourceFile}
  {q q' signature : String} {m m' : MethodDecl}

/-! ## Signatures -/

theorem signature_eq_ok_iff : index.signature q m = .ok signature ↔
    ∃ params, index.parameters q m = .ok params ∧
      signature = dotted q m.name ++ "(" ++ (params ++ ")") := by
  unfold ProjectIndex.signature ProjectIndex.parameters
  cases m.params.mapM (index.describeParam q m.typeParams) with
  | error e => simp [Except.map, bind, Except.bind]
  | ok params =>
    simp [Except.map, bind, Except.bind, pure, Except.pure, dotted, String.append_assoc, eq_comm]

/-- A signature can be taken apart if the name of the type has no parenthesis and the name of the
method neither that nor a dot. -/
theorem parts_eq_of_signature_eq {name name' params params' : String} (hq : '(' ∉ q.toList)
    (hq' : '(' ∉ q'.toList) (hname : PlainName name) (hname' : PlainName name')
    (h : dotted q name ++ "(" ++ params = dotted q' name' ++ "(" ++ params') :
    q = q' ∧ name = name' ∧ params = params' := by
  have hcall : dotted q name = dotted q' name' :=
    eq_of_append_paren_eq (notMem_dotted (by decide) hq hname.2.2)
      (notMem_dotted (by decide) hq' hname'.2.2) h
  obtain rfl : q = q' := eq_of_dotted_eq hname.2.1 hname'.2.1 hcall
  have hnames : name = name' := (String.append_right_inj _).1 hcall
  rw [hcall] at h
  exact ⟨rfl, hnames, (String.append_right_inj _).1 h⟩

/-! ## Relationships -/

theorem membership_injective {m m' : MethodDecl} :
    m.membership = m'.membership ↔ m.isConstructor = m'.isConstructor := by
  unfold MethodDecl.membership
  cases m.isConstructor <;> cases m'.isConstructor <;> decide

theorem isConstructor_iff_membership : m.isConstructor = true ↔ m.membership = .hasConstructor := by
  unfold MethodDecl.membership
  cases m.isConstructor <;> decide

theorem membership_cases (m : MethodDecl) :
    m.membership = .hasMethod ∨ m.membership = .hasConstructor := by
  unfold MethodDecl.membership
  split
  · exact .inr rfl
  · exact .inl rfl

section

variable (hjava : ∀ file ∈ files, Path.isJavaSource file.path = true)
  (hsmall : (indexedGraph filter files).nodes.size < 0xffffffff)

include hjava hsmall

/-- **The relationships that enter a method** come from the types that declare a
member of its signature. -/
theorem mem_memberships_iff {l : Link} : l ∈ (indexedGraph filter files).memberships signature ↔
    ∃ q m, DeclaresMember files q m signature ∧
      l = ⟨⟨.classType, q⟩, ⟨.method, signature⟩, m.membership⟩ := by
  obtain ⟨start, target, relation⟩ := l
  rw [Graph.mem_memberships]
  constructor
  · rintro ⟨hlink, rfl, hrelation⟩
    have hown : relation ∈ ownRelations := by rcases hrelation with rfl | rfl <;> decide
    obtain ⟨file, hfile, ctx, outer, q, d, hreach, hlinks⟩ :=
      (mem_links_iff_typeLinks hjava hsmall hown).1 hlink
    generalize htarget : (⟨.method, signature⟩ : NodeKey) = target at hlinks
    cases hlinks with
    | supertype => cases htarget
    | other hother => exact absurd hown hother
    | @member x m _ hx hm hsignature =>
      cases htarget
      have hd := SourceFile.exists_reaches_iff.1 ⟨ctx, outer, hreach⟩
      exact ⟨q, m, ⟨file, hfile, d, hd, x, hx, hm, hsignature⟩, rfl⟩
  · rintro ⟨q, m, ⟨file, hfile, d, hd, x, hx, hm, hsignature⟩, heq⟩
    cases heq
    have hown : m.membership ∈ ownRelations := by
      rcases membership_cases m with h | h <;> rw [h] <;> decide
    obtain ⟨ctx, outer, hreach⟩ := SourceFile.exists_reaches_iff.2 hd
    exact ⟨(mem_links_iff_typeLinks hjava hsmall hown).2
      ⟨file, hfile, ctx, outer, q, d, hreach, .member hx hm hsignature⟩, rfl, membership_cases m⟩

/-- **Every method is entered at most once** exactly if members of one signature agree in their type
and in being constructors. -/
theorem length_memberships_le_one_iff :
    (∀ signature, ((indexedGraph filter files).memberships signature).length ≤ 1) ↔
      ∀ q q' m m' signature, DeclaresMember files q m signature →
        DeclaresMember files q' m' signature →
        q = q' ∧ m.isConstructor = m'.isConstructor := by
  simp only [length_le_one_iff_of_nodup
    ((wellFormed_indexedGraph filter files).nodup_memberships _), mem_memberships_iff hjava hsmall]
  constructor
  · intro h q q' m m' signature hm hm'
    have heq := h signature _ ⟨q, m, hm, rfl⟩ _ ⟨q', m', hm', rfl⟩
    simp only [Link.mk.injEq, NodeKey.mk.injEq, true_and, membership_injective] at heq
    exact heq
  · rintro h signature _ ⟨q, m, hm, rfl⟩ _ ⟨q', m', hm', rfl⟩
    obtain ⟨rfl, hconstructor⟩ := h q q' m m' signature hm hm'
    rw [membership_injective.2 hconstructor]

end

/-! ## Plain names -/

/-- A member of a file with plain names has a type without parenthesis and a plain name. -/
theorem DeclaresMember.plain (hpaths : files.Pairwise PathsApart)
    (hplain : ∀ file ∈ files, PackageFirst file.root ∧ file.PlainNames ∧ file.PlainPackage)
    (h : DeclaresMember files q m signature) : '(' ∉ q.toList ∧ PlainName m.name := by
  obtain ⟨file, hfile, d, hd, x, hx, hm, -⟩ := h
  obtain ⟨hfirst, hnames, hpackage⟩ := hplain file hfile
  rw [walkScope_build hpaths hfile] at hd
  obtain ⟨decl, hdecl, rfl, hread⟩ := (hpackage.regular hfirst hnames).exists_decl hd
  refine ⟨hpackage.notMem_qualified hfirst hnames hdecl, hnames.methods decl hdecl m ?_⟩
  rw [hread.methods]
  exact List.mem_append_right _ (List.mem_filterMap.2 ⟨x, hx, hm⟩)

/-- **With plain names a signature tells members apart**: those of one signature agree in
type, name and parameters. -/
theorem signature_eq_iff {signature' : String} (hpaths : files.Pairwise PathsApart)
    (hplain : ∀ file ∈ files, PackageFirst file.root ∧ file.PlainNames ∧ file.PlainPackage)
    (h : DeclaresMember files q m signature) (h' : DeclaresMember files q' m' signature') :
    signature = signature' ↔ q = q' ∧ m.name = m'.name ∧
      (ProjectIndex.build files).parameters q m = (ProjectIndex.build files).parameters q' m' := by
  obtain ⟨hq, hname⟩ := h.plain hpaths hplain
  obtain ⟨hq', hname'⟩ := h'.plain hpaths hplain
  obtain ⟨-, -, -, -, -, -, -, hsignature⟩ := h
  obtain ⟨-, -, -, -, -, -, -, hsignature'⟩ := h'
  obtain ⟨params, hparams, rfl⟩ := signature_eq_ok_iff.1 hsignature
  obtain ⟨params', hparams', rfl⟩ := signature_eq_ok_iff.1 hsignature'
  rw [hparams, hparams']
  constructor
  · intro heq
    obtain ⟨hqs, hnames, hrest⟩ := parts_eq_of_signature_eq hq hq' hname hname' heq
    exact ⟨hqs, hnames, congrArg _ ((String.append_left_inj _).1 hrest)⟩
  · rintro ⟨rfl, hnames, hrest⟩
    cases hrest
    rw [hnames]

/-- **No two members of a type are merged** exactly if those of one name have
different parameters. -/
theorem pairwise_signatures_iff {file : SourceFile} {d : Tree} (hpaths : files.Pairwise PathsApart)
    (hplain : ∀ file ∈ files, PackageFirst file.root ∧ file.PlainNames ∧ file.PlainPackage)
    (hfile : file ∈ files)
    (hd : file.Declares dotted (walkScope (.build files) file).qualify q d) :
    ((bodyMethods d).Pairwise fun m m' =>
        ¬ReadSame ((build files).signature q m) ((build files).signature q m')) ↔
      (bodyMethods d).Pairwise fun m m' => m.name = m'.name →
        ¬ReadSame ((build files).parameters q m) ((build files).parameters q m') := by
  have hmember {m : MethodDecl} (hm : m ∈ bodyMethods d) {signature : String}
      (h : (build files).signature q m = .ok signature) : DeclaresMember files q m signature := by
    obtain ⟨x, hx, hm⟩ := List.mem_filterMap.1 hm
    exact ⟨file, hfile, d, hd, x, hx, hm, h⟩
  refine List.Pairwise.iff_of_mem fun {m m'} hm hm' => ?_
  rw [← not_and, not_iff_not]
  constructor
  · rintro ⟨signature, h, h'⟩
    obtain ⟨-, hname, hsame⟩ :=
      (signature_eq_iff hpaths hplain (hmember hm h) (hmember hm' h')).1 rfl
    obtain ⟨params, hparams, -⟩ := signature_eq_ok_iff.1 h
    exact ⟨hname, params, hparams, hsame.symm.trans hparams⟩
  · rintro ⟨hname, params, hparams, hparams'⟩
    exact ⟨_, signature_eq_ok_iff.2 ⟨params, hparams, rfl⟩,
      signature_eq_ok_iff.2 ⟨params, hparams', by rw [hname]⟩⟩

/-- **Methods and the types that have them.** Each member that the files declare brings one
relationship from its type to the node of its signature, and each method is entered at most once
exactly if members of one signature agree in their type and in being constructors. If names and
packages are plain, signatures are equal exactly if types, names and parameters are, so that only a
constructor and a method of one name with the same parameters are in the way, and no two members of
a type are merged exactly if those of one name have different parameters. -/
theorem memberships_of_indexed (hjava : ∀ file ∈ files, Path.isJavaSource file.path = true)
    (hsmall : (indexedGraph filter files).nodes.size < 0xffffffff) :
    (∀ signature l, l ∈ (indexedGraph filter files).memberships signature ↔
      ∃ q m, DeclaresMember files q m signature ∧
        l = ⟨⟨.classType, q⟩, ⟨.method, signature⟩, m.membership⟩) ∧
    ((∀ signature, ((indexedGraph filter files).memberships signature).length ≤ 1) ↔
      ∀ q q' m m' signature, DeclaresMember files q m signature →
        DeclaresMember files q' m' signature →
        q = q' ∧ m.isConstructor = m'.isConstructor) ∧
    (files.Pairwise PathsApart →
      (∀ file ∈ files, PackageFirst file.root ∧ file.PlainNames ∧ file.PlainPackage) →
      (∀ q q' m m' signature signature', DeclaresMember files q m signature →
        DeclaresMember files q' m' signature' →
        (signature = signature' ↔ q = q' ∧ m.name = m'.name ∧
          (ProjectIndex.build files).parameters q m =
            (ProjectIndex.build files).parameters q' m')) ∧
      ((∀ signature, ((indexedGraph filter files).memberships signature).length ≤ 1) ↔
        ∀ q m m' signature signature', DeclaresMember files q m signature →
          DeclaresMember files q m' signature' → m.isConstructor = true → m'.isConstructor = false →
          ¬(m.name = m'.name ∧
            (ProjectIndex.build files).parameters q m =
              (ProjectIndex.build files).parameters q m')) ∧
      ∀ file ∈ files, ∀ q d, file.Declares dotted (walkScope (.build files) file).qualify q d →
        (((bodyMethods d).Pairwise fun m m' =>
            ¬ReadSame ((build files).signature q m) ((build files).signature q m')) ↔
          (bodyMethods d).Pairwise fun m m' => m.name = m'.name →
            ¬ReadSame ((build files).parameters q m) ((build files).parameters q m'))) := by
  refine ⟨fun signature l => mem_memberships_iff hjava hsmall,
    length_memberships_le_one_iff hjava hsmall, fun hpaths hplain =>
      ⟨fun q q' m m' signature signature' h h' => signature_eq_iff hpaths hplain h h', ?_,
        fun file hfile q d hd => pairwise_signatures_iff hpaths hplain hfile hd⟩⟩
  rw [length_memberships_le_one_iff hjava hsmall]
  constructor
  · rintro hall q m m' signature signature' h h' hm hm' ⟨hname, hparams⟩
    obtain rfl : signature = signature' :=
      (signature_eq_iff hpaths hplain h h').2 ⟨rfl, hname, hparams⟩
    have hsame := (hall q q m m' signature h h').2
    rw [hm, hm'] at hsame
    cases hsame
  · intro hapart q q' m m' signature h h'
    obtain ⟨rfl, hname, hparams⟩ := (signature_eq_iff hpaths hplain h h').1 rfl
    refine ⟨rfl, ?_⟩
    cases hm : m.isConstructor <;> cases hm' : m'.isConstructor
    · rfl
    · exact absurd ⟨hname.symm, hparams.symm⟩ (hapart q m' m signature signature h' h hm' hm)
    · exact absurd ⟨hname, hparams⟩ (hapart q m m' signature signature h h' hm hm')
    · rfl

/-- `class A { A(int x) {} void method(int x) {} }`, without the parts that nothing reads. -/
def constructingFile (method : String) : SourceFile where
  path := "/p/A.java"
  root := .mk "program" true "" "" 1 1
    [.mk "class_declaration" true "" "" 1 1
      [.mk "identifier" true "name" "A" 1 1 [],
       .mk "class_body" true "body" "" 1 1
        [.mk "constructor_declaration" true "" "" 1 1
          [.mk "identifier" true "name" "A" 1 1 [],
           .mk "formal_parameters" true "parameters" "" 1 1
            [.mk "formal_parameter" true "" "" 1 1
              [.mk "integral_type" true "type" "int" 1 1 [],
                .mk "identifier" true "name" "x" 1 1 []]],
           .mk "constructor_body" true "body" "" 1 1 []],
         .mk "method_declaration" true "" "" 1 1
          [.mk "void_type" true "type" "void" 1 1 [],
           .mk "identifier" true "name" method 1 1 [],
           .mk "formal_parameters" true "parameters" "" 1 1
            [.mk "formal_parameter" true "" "" 1 1
              [.mk "integral_type" true "type" "int" 1 1 [],
                .mk "identifier" true "name" "x" 1 1 []]],
           .mk "block" true "body" "" 1 1 []]]]]

/-- A constructor and a method `m` of the same parameters are two members with a node each. -/
theorem memberships_of_indexed_constructingFile :
    let files := [constructingFile "m"]
    (∀ file ∈ files, Path.isJavaSource file.path = true) ∧
      (indexedGraph ⟨[]⟩ files).nodes.size < 0xffffffff ∧ files.Pairwise PathsApart ∧
      (∀ file ∈ files, PackageFirst file.root ∧ file.PlainNames ∧ file.PlainPackage) ∧
      ∃ m m', DeclaresMember files "A" m "A.A(int)" ∧ DeclaresMember files "A" m' "A.m(int)" ∧
        m.isConstructor = true ∧ m'.isConstructor = false ∧
        ¬(m.name = m'.name ∧
          (ProjectIndex.build files).parameters "A" m =
            (ProjectIndex.build files).parameters "A" m') := by
  intro files
  have hjava : ∀ file ∈ files, Path.isJavaSource file.path = true := by decide +kernel
  have hsmall : (indexedGraph ⟨[]⟩ files).nodes.size < 0xffffffff := by decide +kernel
  have hpaths : files.Pairwise PathsApart := by decide +kernel
  have hplain : ∀ file ∈ files, PackageFirst file.root ∧ file.PlainNames ∧ file.PlainPackage := by
    decide +kernel
  obtain ⟨hlinks, -, hapart⟩ := memberships_of_indexed hjava hsmall
  have hfirst : ⟨⟨.classType, "A"⟩, ⟨.method, "A.A(int)"⟩, .hasConstructor⟩ ∈
      (indexedGraph ⟨[]⟩ files).memberships "A.A(int)" := by decide +kernel
  have hsecond : ⟨⟨.classType, "A"⟩, ⟨.method, "A.m(int)"⟩, .hasMethod⟩ ∈
      (indexedGraph ⟨[]⟩ files).memberships "A.m(int)" := by decide +kernel
  obtain ⟨q, m, hm, heq⟩ := (hlinks _ _).1 hfirst
  obtain ⟨q', m', hm', heq'⟩ := (hlinks _ _).1 hsecond
  simp only [Link.mk.injEq, NodeKey.mk.injEq, true_and] at heq heq'
  obtain ⟨rfl, hconstructor⟩ := heq
  obtain ⟨rfl, hmethod⟩ := heq'
  have hm'' : m'.isConstructor = false := by
    rw [Bool.eq_false_iff, Ne, isConstructor_iff_membership, ← hmethod]
    decide
  refine ⟨hjava, hsmall, hpaths, hplain, m, m', hm, hm',
    isConstructor_iff_membership.2 hconstructor.symm, hm'', fun ⟨hname, hparams⟩ => ?_⟩
  have hsame := ((hapart hpaths hplain).1 _ _ _ _ _ _ hm hm').2 ⟨rfl, hname, hparams⟩
  exact absurd hsame (by decide)

/-- `class A { A(int x) {} void A(int x) {} }`: types are declared once, names and packages are
plain, names resolve, and both the constructor and the method lead to one node. -/
theorem not_length_memberships_le_one_constructorNamesake :
    let files := [constructingFile "A"]
    (∀ file ∈ files, Path.isJavaSource file.path = true) ∧
      ((files.flatMap SourceFile.decls).map TypeDecl.qualified).Nodup ∧
      (∀ file ∈ files, PackageFirst file.root ∧ file.PlainNames ∧ file.PlainPackage) ∧
      (∀ t, ¬(ProjectIndex.build files).CircularHeader t) ∧
        ¬(ProjectIndex.build files).NamelessOuter ∧
      (indexedGraph ⟨[]⟩ files).nodes.size < 0xffffffff ∧
      (indexedGraph ⟨[]⟩ files).memberships "A.A(int)" =
        [⟨⟨.classType, "A"⟩, ⟨.method, "A.A(int)"⟩, .hasConstructor⟩,
         ⟨⟨.classType, "A"⟩, ⟨.method, "A.A(int)"⟩, .hasMethod⟩] ∧
      ¬∀ signature, ((indexedGraph ⟨[]⟩ files).memberships signature).length ≤ 1 := by
  intro files
  obtain ⟨hheaders, houter⟩ := not_circularHeader_and_not_namelessOuter files (by decide +kernel)
  have htwo : (indexedGraph ⟨[]⟩ files).memberships "A.A(int)" =
      [⟨⟨.classType, "A"⟩, ⟨.method, "A.A(int)"⟩, .hasConstructor⟩,
       ⟨⟨.classType, "A"⟩, ⟨.method, "A.A(int)"⟩, .hasMethod⟩] := by decide +kernel
  refine ⟨by decide +kernel, by decide +kernel, by decide +kernel, hheaders, houter,
    by decide +kernel, htwo,
    fun h => ?_⟩
  have hone := h "A.A(int)"
  rw [htwo] at hone
  exact absurd hone (by decide)

end Java

end CodeGraph
