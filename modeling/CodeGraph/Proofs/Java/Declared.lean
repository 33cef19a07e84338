import CodeGraph.Java.Index
import Mathlib.Data.List.Perm.Basic
import Mathlib.Data.List.Pairwise

/-!
# What files declare

`Declares` walks into a tree from type to member type and names each type it comes to.
Reading a file into the project index and writing it to the graph both walk this way and
differ only in how they join names: the index drops an empty qualifier (`joinName`), the
graph does not (`dotted`). The two agree if names are not empty (`declares_iff`), and so on
every file that is `SourceFile.Regular`.

* `mem_collectFile`, `exists_mem_collectFile`: the declarations that a file adds to the index.
* `get?_build`, `fileScope?_build`: what the index of a list of files holds.
* `build_perm`: if no type is declared in two files, their order does not matter.
-/

namespace CodeGraph.Java

/-! ## Types inside types -/

/-- The members of the body of a declaration, if it has one. -/
def typeMembers (t : Tree) : List Tree := (t.child? "body").elim [] bodyMembers

/-- A name after a qualifier and a dot. -/
def dotted (qualifier name : String) : String := qualifier ++ "." ++ name

/-- `Declares join name t q d`: the type that `t` declares is qualified by `name`, the types inside
others by `join`, and among all these `d` declares the one that is called `q`. -/
inductive Declares (join : String → String → String) :
    (String → String) → Tree → String → Tree → Prop
  | self {name : String → String} {t n : Tree} {kind : TypeKind}
      (hkind : TypeKind.ofTreeKind? t.kind = some kind) (hname : t.child? "name" = some n) :
      Declares join name t (name n.text) t
  | member {name : String → String} {t n m d : Tree} {kind : TypeKind} {q : String}
      (hkind : TypeKind.ofTreeKind? t.kind = some kind) (hname : t.child? "name" = some n)
      (hm : m ∈ typeMembers t) (h : Declares join (join (name n.text)) m q d) :
      Declares join name t q d

variable {join : String → String → String} {name : String → String} {t d : Tree} {q : String}

/-- A tree in which something is declared itself declares a type. -/
theorem Declares.exists_kind_name (h : Declares join name t q d) :
    ∃ kind n, TypeKind.ofTreeKind? t.kind = some kind ∧ t.child? "name" = some n := by
  cases h with
  | self hkind hname => exact ⟨_, _, hkind, hname⟩
  | member hkind hname => exact ⟨_, _, hkind, hname⟩

theorem Declares.declaresType (h : Declares join name t q d) : declaresType t = true := by
  obtain ⟨kind, -, hkind, -⟩ := h.exists_kind_name
  rw [Java.declaresType, hkind]
  rfl

theorem Declares.isSome_ofTreeKind? (h : Declares join name t q d) :
    (TypeKind.ofTreeKind? d.kind).isSome := by
  induction h with
  | self hkind => rw [hkind]; rfl
  | member _ _ _ _ ih => exact ih

theorem size_lt_of_mem_typeMembers {m : Tree} (h : m ∈ typeMembers t) : m.size < t.size := by
  unfold typeMembers at h
  cases hbody : t.child? "body" with
  | none => rw [hbody] at h; cases h
  | some body =>
    rw [hbody] at h
    exact Nat.lt_trans (size_lt_of_mem_bodyMembers h) (Tree.size_lt_of_child? hbody)

theorem joinName_of_ne {qualifier : String} (h : qualifier ≠ "") :
    joinName qualifier = dotted qualifier := by
  funext name
  rw [joinName, if_neg (by simpa using h)]
  rfl

theorem joinName_ne (qualifier : String) {name : String} (h : name ≠ "") :
    joinName qualifier name ≠ "" := by
  unfold joinName
  split
  · exact h
  · intro heq
    exact absurd (congrArg String.length heq) (by simp)

theorem dotted_ne (qualifier name : String) : dotted qualifier name ≠ "" := by
  intro heq
  exact absurd (congrArg String.length heq) (by simp [dotted])

/-- A qualified name ends in the name of the declaration. -/
theorem Declares.exists_eq_join {qualifier : String} (h : Declares join (join qualifier) t q d) :
    ∃ qualifier n, d.child? "name" = some n ∧ q = join qualifier n.text := by
  generalize hname : join qualifier = name at h
  induction h generalizing qualifier with
  | self hkind hn => exact ⟨qualifier, _, hn, congrFun hname.symm _⟩
  | member hkind hn hm hd ih => exact ih rfl

/-- The declarations that are come to have names that are not empty. -/
def NamesNonempty (name : String → String) (t : Tree) : Prop :=
  ∀ q d n, Declares joinName name t q d → d.child? "name" = some n → n.text ≠ ""

/-- Below a declaration the index joins names by a dot, too. -/
theorem NamesNonempty.join_eq (h : NamesNonempty name t) (hname : ∀ n, n ≠ "" → name n ≠ "")
    {n : Tree} {kind : TypeKind} (hkind : TypeKind.ofTreeKind? t.kind = some kind)
    (hn : t.child? "name" = some n) :
    joinName (name n.text) = dotted (name n.text) :=
  joinName_of_ne (hname _ (h _ t n (.self hkind hn) hn))

theorem NamesNonempty.member (h : NamesNonempty name t) {n m : Tree} {kind : TypeKind}
    (hkind : TypeKind.ofTreeKind? t.kind = some kind) (hn : t.child? "name" = some n)
    (hm : m ∈ typeMembers t) : NamesNonempty (joinName (name n.text)) m :=
  fun q d n' hd => h q d n' (.member hkind hn hm hd)

/-- Without empty names the index and the graph name the same types. -/
theorem declares_iff (h : NamesNonempty name t) (hname : ∀ n, n ≠ "" → name n ≠ "") :
    Declares joinName name t q d ↔ Declares dotted name t q d := by
  constructor
  · intro hd
    induction hd with
    | self hkind hn => exact .self hkind hn
    | member hkind hn hm hd ih =>
      refine .member hkind hn hm ?_
      rw [← h.join_eq hname hkind hn]
      exact ih (h.member hkind hn hm) fun n hne => joinName_ne _ hne
  · intro hd
    induction hd with
    | self hkind hn => exact .self hkind hn
    | member hkind hn hm hd ih =>
      have heq := h.join_eq hname hkind hn
      have hmember := h.member hkind hn hm
      rw [heq] at hmember
      refine .member hkind hn hm ?_
      rw [heq]
      exact ih hmember fun n _ => dotted_ne _ n

/-! ## Declarations of a tree -/

/-- The fields of a declaration: record components, then the fields in the body. -/
def fieldsOf (kind : TypeKind) (qualified : String) (d : Tree) : List FieldDecl :=
  (recordComponents d kind).map (fun p => ⟨p.name, p.type⟩) ++
    (typeMembers d).flatMap (memberFields qualified)

/-- The methods of a declaration: accessors of record components, then the methods in the body. -/
def methodsOf (kind : TypeKind) (d : Tree) : List MethodDecl :=
  (recordComponents d kind).map accessor ++ (typeMembers d).filterMap methodDecl?

theorem mem_fieldsOf_of_mem_fieldDecls (kind : TypeKind) {m : Tree} {f : FieldDecl}
    (hm : m ∈ typeMembers d)
    (hfield : m.kind = "field_declaration" ∨ m.kind = "constant_declaration")
    (hf : f ∈ fieldDecls m) :
    f ∈ fieldsOf kind q d := by
  have hfields : memberFields q m = fieldDecls m := by
    rcases hfield with hfield | hfield <;> simp [memberFields, hfield]
  exact List.mem_append_right _ (List.mem_flatMap.2 ⟨m, hm, hfields ▸ hf⟩)

theorem mem_parameterTrees {c : Tree} (hc : c ∈ (d.child? "parameters").elim [] Tree.named)
    (hformal : c.kind = "formal_parameter") : c ∈ parameterTrees d := by
  unfold parameterTrees
  cases hparams : d.child? "parameters" with
  | none => rw [hparams] at hc; cases hc
  | some list =>
    rw [hparams] at hc
    exact List.mem_filter.2 ⟨hc, by rw [hformal]; rfl⟩

/-- A component of a record is a field, with the array levels after its name. -/
theorem component_mem_fieldsOf {c type name : Tree} {written : WrittenType}
    (hc : c ∈ parameterTrees d) (hformal : c.kind = "formal_parameter")
    (htype : c.child? "type" = some type) (hname : c.child? "name" = some name)
    (hwritten : WrittenType.ofTree? type = some written) :
    ⟨name.text, written.withDimensions (countDimensions (c.child? "dimensions"))⟩ ∈
      fieldsOf .recordKind q d := by
  let component : ParamDecl :=
    ⟨name.text, written.withDimensions (countDimensions (c.child? "dimensions")), false⟩
  have hparam : paramDecl? c = some component := by
    have hne : c.kind ≠ "spread_parameter" := by rw [hformal]; decide
    simp [paramDecl?, hne, htype, hwritten, hname, component]
  have hcomponent : component ∈ recordComponents d .recordKind := by
    rw [recordComponents, if_pos rfl]
    exact List.mem_filterMap.2 ⟨c, hc, hparam⟩
  exact List.mem_append_left _ (List.mem_map.2 ⟨component, hcomponent, rfl⟩)

/-- The index has its declaration from this tree. -/
structure TypeDecl.ReadFrom (decl : TypeDecl) (d : Tree) : Prop where
  kind : TypeKind.ofTreeKind? d.kind = some decl.kind
  name : (d.child? "name").map Tree.text = some decl.name
  fields : decl.fields = fieldsOf decl.kind decl.qualified d
  methods : decl.methods = methodsOf decl.kind d

/-- Without a kind or a name a tree introduces nothing. -/
theorem collectType_of_none {file qualifier : String} {outer : Option String}
    (h : TypeKind.ofTreeKind? t.kind = none ∨ t.child? "name" = none) :
    collectType file qualifier outer t = [] := by
  rw [collectType]
  split
  · rename_i hkind hn
    rcases h with h | h
    · rw [h] at hkind; cases hkind
    · rw [h] at hn; cases hn
  · rfl

theorem collectType_of_not_declaresType {file qualifier : String} {outer : Option String}
    (h : declaresType t = false) : collectType file qualifier outer t = [] :=
  collectType_of_none (.inl (by simpa [declaresType] using h))

/-- The declaration that a tree itself introduces. -/
def ownDecl (file qualifier : String) (outer : Option String) (kind : TypeKind) (n t : Tree) :
    TypeDecl where
  qualified := joinName qualifier n.text
  name := n.text
  kind := kind
  file := file
  outer := outer
  nested := ((typeMembers t).filter declaresType).filterMap fun m => (m.child? "name").map Tree.text
  typeParams := typeParameters t
  superclass := (superclassTree? t).bind WrittenType.ofTree?
  interfaces := (interfaceTrees t kind).filterMap WrittenType.ofTree?
  fields := fieldsOf kind (joinName qualifier n.text) t
  methods := methodsOf kind t

/-- The declarations inside come first, the one of the tree itself last. -/
theorem collectType_eq {file qualifier : String} {outer : Option String} {kind : TypeKind}
    {n : Tree} (hkind : TypeKind.ofTreeKind? t.kind = some kind) (hn : t.child? "name" = some n) :
    collectType file qualifier outer t =
      (typeMembers t).flatMap
          (collectType file (joinName qualifier n.text) (some (joinName qualifier n.text))) ++
        [ownDecl file qualifier outer kind n t] := by
  rw [collectType, hkind, hn]
  dsimp only
  split
  · rename_i hbody
    have hmembers : typeMembers t = [] := by rw [typeMembers, hbody]; rfl
    rw [ownDecl, fieldsOf, methodsOf, hmembers]
    simp
  · rename_i body hbody
    have hmembers : typeMembers t = bodyMembers body := by rw [typeMembers, hbody]; rfl
    rw [ownDecl, fieldsOf, methodsOf, hmembers]
    congr 1
    conv_rhs => rw [← List.attach_map_subtype_val (bodyMembers body), List.flatMap_map]
    congr 1
    funext m
    split
    · rfl
    · rename_i hm
      rw [collectType_of_not_declaresType (by simpa using hm)]

theorem readFrom_ownDecl {file qualifier : String} {outer : Option String} {kind : TypeKind}
    {n : Tree} (hkind : TypeKind.ofTreeKind? t.kind = some kind) (hn : t.child? "name" = some n) :
    (ownDecl file qualifier outer kind n t).ReadFrom t :=
  ⟨hkind, by rw [hn]; rfl, rfl, rfl⟩

theorem mem_collectType {file qualifier : String} {outer : Option String} {decl : TypeDecl}
    (h : decl ∈ collectType file qualifier outer t) :
    ∃ d, Declares joinName (joinName qualifier) t decl.qualified d ∧ decl.ReadFrom d := by
  induction hsize : t.size using Nat.strongRecOn generalizing t qualifier outer with
  | _ size ih =>
    subst hsize
    cases hkind : TypeKind.ofTreeKind? t.kind with
    | none => rw [collectType_of_none (.inl hkind)] at h; cases h
    | some kind =>
      cases hn : t.child? "name" with
      | none => rw [collectType_of_none (.inr hn)] at h; cases h
      | some n =>
        rw [collectType_eq hkind hn] at h
        rcases List.mem_append.1 h with h | h
        · obtain ⟨m, hm, h⟩ := List.mem_flatMap.1 h
          obtain ⟨d, hd, hread⟩ := ih m.size (size_lt_of_mem_typeMembers hm) h rfl
          exact ⟨d, .member hkind hn hm hd, hread⟩
        · cases List.mem_singleton.1 h
          exact ⟨t, .self hkind hn, readFrom_ownDecl hkind hn⟩

theorem exists_mem_collectType (file : String) {qualifier : String} (outer : Option String)
    (h : Declares joinName (joinName qualifier) t q d) :
    ∃ decl ∈ collectType file qualifier outer t, decl.qualified = q ∧ decl.ReadFrom d := by
  generalize hname : joinName qualifier = name at h
  induction h generalizing qualifier outer with
  | self hkind hn =>
    subst hname
    refine ⟨ownDecl file qualifier outer _ _ _, ?_, rfl, readFrom_ownDecl hkind hn⟩
    rw [collectType_eq hkind hn]
    exact List.mem_append_right _ List.mem_cons_self
  | @member name t n m d kind q hkind hn hm hd ih =>
    subst hname
    obtain ⟨decl, hdecl, hrest⟩ := ih (some (joinName qualifier n.text)) rfl
    refine ⟨decl, ?_, hrest⟩
    rw [collectType_eq hkind hn]
    exact List.mem_append_left _ (List.mem_flatMap.2 ⟨m, hm, hdecl⟩)

/-! ## Files -/

/-- No package declaration follows the declaration of a type. -/
def PackageFirst (root : Tree) : Prop :=
  root.named.Pairwise fun a b => b.kind = "package_declaration" → declaresType a = false

instance (root : Tree) : Decidable (PackageFirst root) :=
  inferInstanceAs (Decidable (List.Pairwise _ _))

/-- The package and imports of a file. -/
def SourceFile.scope (file : SourceFile) : FileScope := (collectFile file.path file.root).1

/-- The declarations of a file. -/
def SourceFile.decls (file : SourceFile) : List TypeDecl := (collectFile file.path file.root).2

/-- Among the types that a file declares, `d` declares the one that is called `q`. -/
def SourceFile.Declares (join : String → String → String) (name : String → String)
    (file : SourceFile) (q : String) (d : Tree) : Prop :=
  ∃ c ∈ file.root.named, Java.Declares join name c q d

theorem package_collectChild_of_ne {file : String} {acc : FileScope × List TypeDecl} {c : Tree}
    (h : c.kind ≠ "package_declaration") : (collectChild file acc c).1.package = acc.1.package := by
  obtain ⟨scope, decls⟩ := acc
  unfold collectChild
  dsimp only
  split
  · rename_i hkind
    exact absurd hkind h
  · split
    · rfl
    · split
      · rfl
      · split <;> rfl
  · rfl

/-- With package declarations first, all types of a file are in the package that the
file ends up with. -/
theorem foldl_collectChild (file : String) {cs : List Tree}
    (h : cs.Pairwise fun a b => b.kind = "package_declaration" → declaresType a = false)
    (acc : FileScope × List TypeDecl) :
    (cs.foldl (collectChild file) acc).2 = acc.2 ++ cs.flatMap
      (collectType file ((cs.foldl (collectChild file) acc).1.package.getD "") none) := by
  induction cs generalizing acc with
  | nil => simp
  | cons c cs ih =>
    obtain ⟨hc, hcs⟩ := List.pairwise_cons.1 h
    rw [List.foldl_cons, ih hcs, List.flatMap_cons, ← List.append_assoc]
    congr 1
    by_cases hdeclares : declaresType c = true
    · -- no package declaration is left
      have hpackage (acc : FileScope × List TypeDecl) :
          (cs.foldl (collectChild file) acc).1.package = acc.1.package := by
        have hne : ∀ b ∈ cs, b.kind ≠ "package_declaration" := fun b hb hkind =>
          absurd hdeclares (by rw [hc b hb hkind]; decide)
        clear h ih hc hcs
        induction cs generalizing acc with
        | nil => rfl
        | cons b cs ih =>
          rw [List.foldl_cons, ih _ fun b' hb' => hne b' (List.mem_cons_of_mem _ hb'),
            package_collectChild_of_ne (hne b List.mem_cons_self)]
      have hkind : ∀ kind, TypeKind.ofTreeKind? kind = none → c.kind ≠ kind := by
        rintro _ hnone rfl
        rw [declaresType, hnone] at hdeclares
        cases hdeclares
      have hchild : collectChild file acc c =
          (acc.1, acc.2 ++ collectType file (acc.1.package.getD "") none c) := by
        obtain ⟨scope, decls⟩ := acc
        unfold collectChild
        dsimp only
        split
        · rename_i heq
          exact absurd heq (hkind _ rfl)
        · rename_i heq
          exact absurd heq (hkind _ rfl)
        · rfl
      rw [hpackage, hchild]
    · have hnone := Bool.not_eq_true _ ▸ hdeclares
      rw [collectType_of_not_declaresType hnone, List.append_nil]
      obtain ⟨scope, decls⟩ := acc
      unfold collectChild
      dsimp only
      split
      · rfl
      · split
        · rfl
        · split
          · rfl
          · split <;> rfl
      · rw [collectType_of_not_declaresType hnone, List.append_nil]

theorem decls_eq {file : SourceFile} (h : PackageFirst file.root) :
    file.decls = file.root.named.flatMap
      (collectType file.path (file.scope.package.getD "") none) := by
  have hfold := foldl_collectChild file.path h ({}, [])
  rwa [List.nil_append] at hfold

/-- A declaration of a file is read from a tree that the file declares under its name. -/
theorem mem_collectFile {file : SourceFile} (h : PackageFirst file.root) {decl : TypeDecl}
    (hdecl : decl ∈ file.decls) :
    ∃ d, file.Declares joinName (joinName (file.scope.package.getD "")) decl.qualified d ∧
      decl.ReadFrom d := by
  rw [decls_eq h] at hdecl
  obtain ⟨c, hc, hdecl⟩ := List.mem_flatMap.1 hdecl
  obtain ⟨d, hd, hread⟩ := mem_collectType hdecl
  exact ⟨d, ⟨c, hc, hd⟩, hread⟩

/-- A qualified name is a name that is joined to something. -/
theorem exists_eq_joinName {file : SourceFile} (h : PackageFirst file.root) {decl : TypeDecl}
    (hdecl : decl ∈ file.decls) : ∃ qualifier, decl.qualified = joinName qualifier decl.name := by
  obtain ⟨d, ⟨c, -, hd⟩, hread⟩ := mem_collectFile h hdecl
  obtain ⟨qualifier, n, hn, hq⟩ := hd.exists_eq_join
  have hname : n.text = decl.name := Option.some.inj (by rw [← hread.name, hn, Option.map_some])
  exact ⟨qualifier, hname ▸ hq⟩

theorem exists_mem_collectFile {file : SourceFile} (h : PackageFirst file.root)
    (hd : file.Declares joinName (joinName (file.scope.package.getD "")) q d) :
    ∃ decl ∈ file.decls, decl.qualified = q ∧ decl.ReadFrom d := by
  obtain ⟨c, hc, hd⟩ := hd
  obtain ⟨decl, hdecl, hrest⟩ := exists_mem_collectType file.path none hd
  exact ⟨decl, by rw [decls_eq h]; exact List.mem_flatMap.2 ⟨c, hc, hdecl⟩, hrest⟩

/-- A file that declares a type, however it is named, has declarations. -/
theorem SourceFile.Declares.decls_ne_nil {file : SourceFile} (h : file.Declares join name q d)
    (hfirst : PackageFirst file.root) : file.decls ≠ [] := by
  obtain ⟨c, hc, hd⟩ := h
  obtain ⟨kind, n, hkind, hn⟩ := hd.exists_kind_name
  obtain ⟨decl, hdecl, -⟩ := exists_mem_collectFile hfirst ⟨c, hc, .self hkind hn⟩
  exact List.ne_nil_of_mem hdecl

theorem qualify_eq_joinName {scope : FileScope} (h : scope.package ≠ some "") :
    scope.qualify = joinName (scope.package.getD "") := by
  funext name
  unfold FileScope.qualify
  cases hpackage : scope.package with
  | none => rfl
  | some package =>
    have hne : package ≠ "" := fun heq => h (hpackage.trans (congrArg some heq))
    exact (congrFun (joinName_of_ne hne) name).symm

/-- A file whose package declarations come first and that has no empty names. -/
structure SourceFile.Regular (file : SourceFile) : Prop where
  first : PackageFirst file.root
  names : ∀ decl ∈ file.decls, decl.name ≠ ""
  package : file.decls ≠ [] → file.scope.package ≠ some ""

instance (file : SourceFile) : Decidable file.Regular :=
  decidable_of_iff (PackageFirst file.root ∧ (∀ decl ∈ file.decls, decl.name ≠ "") ∧
      (file.decls ≠ [] → file.scope.package ≠ some ""))
    ⟨fun h => ⟨h.1, h.2.1, h.2.2⟩, fun h => ⟨h.first, h.names, h.package⟩⟩

/-- A regular file names the same types in the index and in the graph. -/
theorem SourceFile.Regular.declares_iff {file : SourceFile} (h : file.Regular) :
    file.Declares joinName (joinName (file.scope.package.getD "")) q d ↔
      file.Declares dotted file.scope.qualify q d := by
  have hiff (hne : file.decls ≠ []) :
      file.Declares joinName (joinName (file.scope.package.getD "")) q d ↔
        file.Declares dotted file.scope.qualify q d := by
    rw [qualify_eq_joinName (h.package hne)]
    refine exists_congr fun c => and_congr_right fun hc =>
      Java.declares_iff ?_ fun n => joinName_ne _
    intro q' d' n hd hn
    obtain ⟨decl, hdecl, -, hread⟩ := exists_mem_collectFile h.first ⟨c, hc, hd⟩
    have hname : n.text = decl.name := Option.some.inj (by rw [← hread.name, hn, Option.map_some])
    rw [hname]
    exact h.names decl hdecl
  exact ⟨fun hd => (hiff (hd.decls_ne_nil h.first)).1 hd, fun hd =>
    (hiff (hd.decls_ne_nil h.first)).2 hd⟩

/-- What the graph names is in the index. -/
theorem SourceFile.Regular.exists_decl {file : SourceFile} (h : file.Regular)
    (hd : file.Declares dotted file.scope.qualify q d) :
    ∃ decl ∈ file.decls, decl.qualified = q ∧ decl.ReadFrom d :=
  exists_mem_collectFile h.first (h.declares_iff.2 hd)

/-- What is in the index the graph names. -/
theorem SourceFile.Regular.exists_declares {file : SourceFile} (h : file.Regular) {decl : TypeDecl}
    (hdecl : decl ∈ file.decls) :
    ∃ d, file.Declares dotted file.scope.qualify decl.qualified d ∧ decl.ReadFrom d := by
  obtain ⟨d, hd, hread⟩ := mem_collectFile h.first hdecl
  exact ⟨d, h.declares_iff.1 hd, hread⟩

/-! ## The index of a list of files -/

namespace ProjectIndex

theorem get?_addType (types : Dict TypeDecl) (decl : TypeDecl) (q : String) :
    (addType types decl).get? q =
      (types.get? q).or (if decl.qualified = q then some decl else none) := by
  unfold addType
  by_cases hq : decl.qualified = q
  · subst hq
    cases hold : types.get? decl.qualified with
    | none => simp
    | some old => simp [hold]
  · rw [if_neg hq, Option.or_none]
    split
    · rfl
    · exact Dict.get?_insert_of_ne hq types decl

theorem get?_foldl_addType (decls : List TypeDecl) (types : Dict TypeDecl) (q : String) :
    (decls.foldl addType types).get? q = (types.get? q).or (decls.find? (·.qualified == q)) := by
  induction decls generalizing types with
  | nil => simp
  | cons decl decls ih =>
    rw [List.foldl_cons, ih, get?_addType, Option.or_assoc, List.find?_cons]
    by_cases hq : decl.qualified = q
    · simp [hq]
    · have hq' : (decl.qualified == q) = false := by simpa using hq
      simp [hq, hq']

theorem get?_foldl_addFile (files : List SourceFile) (index : ProjectIndex) (q : String) :
    (files.foldl addFile index).get? q =
      (index.get? q).or ((files.flatMap SourceFile.decls).find? (·.qualified == q)) := by
  induction files generalizing index with
  | nil => simp
  | cons file files ih =>
    rw [List.foldl_cons, ih, List.flatMap_cons, List.find?_append, ← Option.or_assoc]
    congr 1
    exact get?_foldl_addType file.decls index.types q

/-- The index holds the first declaration of each name. -/
theorem get?_build (files : List SourceFile) (q : String) :
    (build files).get? q = (files.flatMap SourceFile.decls).find? (·.qualified == q) := by
  rw [build, get?_foldl_addFile]
  rfl

theorem get?_build_eq_some {files : List SourceFile} {q : String} {decl : TypeDecl}
    (h : (build files).get? q = some decl) :
    decl.qualified = q ∧ ∃ file ∈ files, decl ∈ file.decls := by
  rw [get?_build] at h
  exact ⟨by simpa using List.find?_some h, List.mem_flatMap.1 (List.mem_of_find?_eq_some h)⟩

theorem contains_build_iff {files : List SourceFile} {q : String} :
    (build files).contains q ↔ ∃ file ∈ files, ∃ decl ∈ file.decls, decl.qualified = q := by
  rw [contains, get?_build, List.find?_isSome]
  simp only [List.mem_flatMap, beq_iff_eq]
  constructor
  · rintro ⟨decl, ⟨file, hfile, hdecl⟩, hq⟩
    exact ⟨file, hfile, decl, hdecl, hq⟩
  · rintro ⟨file, hfile, decl, hdecl, hq⟩
    exact ⟨decl, ⟨file, hfile, hdecl⟩, hq⟩

/-- The files have different paths, whatever their spelling. -/
def PathsApart (a b : SourceFile) : Prop := Path.normal a.path ≠ Path.normal b.path

/-- No type is declared in both files. -/
def TypesApart (a b : SourceFile) : Prop := ∀ x ∈ a.decls, ∀ y ∈ b.decls, x.qualified ≠ y.qualified

instance (a b : SourceFile) : Decidable (PathsApart a b) := inferInstanceAs (Decidable (_ ≠ _))

instance (a b : SourceFile) : Decidable (TypesApart a b) :=
  inferInstanceAs (Decidable (∀ x ∈ a.decls, ∀ y ∈ b.decls, x.qualified ≠ y.qualified))

instance : Std.Symm PathsApart := ⟨fun _ _ h => Ne.symm h⟩

instance : Std.Symm TypesApart := ⟨fun _ _ h x hx y hy => (h y hy x hx).symm⟩

/-- The scope of a file stays as long as no other file has its path. -/
theorem files_foldl_addFile {files : List SourceFile} {file : SourceFile}
    (h : ∀ other ∈ files, Path.normal other.path = Path.normal file.path → other = file)
    {index : ProjectIndex} (hindex : index.files.get? (Path.normal file.path) = some file.scope) :
    (files.foldl addFile index).files.get? (Path.normal file.path) = some file.scope := by
  induction files generalizing index with
  | nil => exact hindex
  | cons other files ih =>
    refine ih (fun other' hother' => h other' (List.mem_cons_of_mem _ hother')) ?_
    by_cases hpath : Path.normal other.path = Path.normal file.path
    · cases h other List.mem_cons_self hpath
      exact Dict.get?_insert_self _ _ _
    · exact (Dict.get?_insert_of_ne hpath _ _).trans hindex

/-- The index holds the scope of every file whose path no other file has. -/
theorem fileScope?_build_of_unique {files : List SourceFile} {file : SourceFile}
    (hfile : file ∈ files) (h : ∀ other ∈ files, Path.normal other.path = Path.normal file.path →
      other = file) :
    (build files).fileScope? file.path = some file.scope := by
  obtain ⟨front, back, rfl⟩ := List.append_of_mem hfile
  rw [build, List.foldl_append, List.foldl_cons]
  exact files_foldl_addFile
    (fun other hother => h other (List.mem_append_right _ (List.mem_cons_of_mem _ hother)))
    (Dict.get?_insert_self _ _ _)

/-- With distinct paths the index holds the scope of every file. -/
theorem fileScope?_build {files : List SourceFile} (h : files.Pairwise PathsApart)
    {file : SourceFile} (hfile : file ∈ files) :
    (build files).fileScope? file.path = some file.scope :=
  fileScope?_build_of_unique hfile fun other hother hpath => by
    by_contra hne
    exact h.forall hother hfile hne hpath

theorem ext_parts {index index' : ProjectIndex} (htypes : index.types = index'.types)
    (hfiles : index.files = index'.files) : index = index' := by
  cases index
  cases index'
  cases htypes
  cases hfiles
  rfl

theorem addFile_comm {a b : SourceFile} (hpath : PathsApart a b) (htypes : TypesApart a b)
    (index : ProjectIndex) : (index.addFile a).addFile b = (index.addFile b).addFile a := by
  have htypes' : ((index.addFile a).addFile b).types = ((index.addFile b).addFile a).types := by
    refine Dict.ext_get? fun q => ?_
    have hget (x y : SourceFile) : ((index.addFile x).addFile y).types.get? q =
        (index.types.get? q).or ((x.decls.find? (·.qualified == q)).or
          (y.decls.find? (·.qualified == q))) := by
      rw [← Option.or_assoc, ← get?_foldl_addType, ← get?_foldl_addType]
      rfl
    rw [hget a b, hget b a]
    congr 1
    cases ha : a.decls.find? (·.qualified == q) with
    | none => simp
    | some x =>
      have hb : b.decls.find? (·.qualified == q) = none := by
        refine List.find?_eq_none.2 fun y hy hyq => ?_
        have hxq := List.find?_some ha
        exact htypes x (List.mem_of_find?_eq_some ha) y hy
          ((eq_of_beq hxq).trans (eq_of_beq hyq).symm)
      rw [hb]
      rfl
  have hfiles' : ((index.addFile a).addFile b).files = ((index.addFile b).addFile a).files := by
    refine Dict.ext_get? fun path => ?_
    simp only [addFile, Dict.get?_insert]
    split
    · split
      · exact absurd (‹Path.normal a.path = path›.trans ‹Path.normal b.path = path›.symm) hpath
      · rfl
    · rfl
  exact ext_parts htypes' hfiles'

/-- **The order of files does not matter to the index** if their paths and their
types are distinct. -/
theorem build_perm {files files' : List SourceFile} (hperm : files.Perm files')
    (hpaths : files.Pairwise PathsApart) (htypes : files.Pairwise TypesApart) :
    build files = build files' := by
  refine hperm.foldl_eq' (fun a ha b hb index => ?_) empty
  by_cases hab : a = b
  · rw [hab]
  · exact addFile_comm (hpaths.forall ha hb hab) (htypes.forall ha hb hab) index

end ProjectIndex

end CodeGraph.Java
