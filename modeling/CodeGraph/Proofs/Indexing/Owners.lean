import CodeGraph.Proofs.Indexing.Passes

/-!
# Whose node is whose

A file gives attributes to its own node and to those of the types, methods and fields that it
declares (`owns_of_mem_upserts`), and to no other. The key of a method is the qualified name of its
type, a dot, its name and its parameters in parentheses, the key of a field the same without
parameters. Such a key can be taken apart again if names are plain and packages have no parenthesis,
so files that declare different types then own different nodes (`ne_of_owns`).
-/

namespace CodeGraph.Java

/-! ## Taking keys apart -/

theorem eq_of_append_cons_eq {α : Type} [DecidableEq α] {a : α} {l l' r r' : List α}
    (h : l ++ a :: r = l' ++ a :: r') (hl : a ∉ l) (hl' : a ∉ l') : l = l' := by
  have htake {l r : List α} (hl : a ∉ l) : (l ++ a :: r).takeWhile (· ≠ a) = l := by
    have hne (b : α) (hb : b ∈ l) : b ≠ a := fun heq => hl (heq ▸ hb)
    rw [List.takeWhile_append_of_pos fun b hb => by simpa using hne b hb,
      List.takeWhile_cons_of_neg (by simp), List.append_nil]
  rw [← htake (r := r) hl, h, htake hl']

/-- What stands before the first parenthesis is determined. -/
theorem eq_of_append_paren_eq {s s' r r' : String} (hs : '(' ∉ s.toList) (hs' : '(' ∉ s'.toList)
    (h : s ++ "(" ++ r = s' ++ "(" ++ r') : s = s' := by
  have hlist := congrArg String.toList h
  simp only [String.toList_append, List.append_assoc] at hlist
  exact String.toList_inj.1 (eq_of_append_cons_eq hlist hs hs')

/-- What stands before the last dot is determined. -/
theorem eq_of_dotted_eq {s s' n n' : String} (hn : '.' ∉ n.toList) (hn' : '.' ∉ n'.toList)
    (h : s ++ "." ++ n = s' ++ "." ++ n') : s = s' := by
  have hlist := congrArg (List.reverse ∘ String.toList) h
  simp only [Function.comp_apply, String.toList_append, List.reverse_append] at hlist
  have hname : n = n' := String.toList_inj.1 (List.reverse_inj.1
    (eq_of_append_cons_eq (a := '.') hlist (by simpa using hn) (by simpa using hn')))
  subst hname
  have hlist' := congrArg String.toList h
  simp only [String.toList_append] at hlist'
  exact String.toList_inj.1 (List.append_cancel_right (List.append_cancel_right hlist'))

/-! ## Plain names -/

/-- A name that is not empty and has neither a dot nor a parenthesis. -/
def PlainName (name : String) : Prop := name ≠ "" ∧ '.' ∉ name.toList ∧ '(' ∉ name.toList

instance (name : String) : Decidable (PlainName name) := inferInstanceAs (Decidable (_ ∧ _))

namespace SourceFile

/-- The types that a file declares, their methods and their fields have plain names. -/
structure PlainNames (file : SourceFile) : Prop where
  types : ∀ decl ∈ file.decls, PlainName decl.name
  methods : ∀ decl ∈ file.decls, ∀ m ∈ decl.methods, PlainName m.name
  fields : ∀ decl ∈ file.decls, ∀ f ∈ decl.fields, PlainName f.name

instance (file : SourceFile) : Decidable file.PlainNames :=
  decidable_of_iff (∀ decl ∈ file.decls, PlainName decl.name ∧
    (∀ m ∈ decl.methods, PlainName m.name) ∧
      ∀ f ∈ decl.fields, PlainName f.name)
    ⟨fun h => ⟨fun decl hdecl => (h decl hdecl).1, fun decl hdecl => (h decl hdecl).2.1,
      fun decl hdecl => (h decl hdecl).2.2⟩,
    fun h decl hdecl => ⟨h.types decl hdecl, h.methods decl hdecl, h.fields decl hdecl⟩⟩

/-- The package of a file, if it has one, is not empty and has no parenthesis. -/
def PlainPackage (file : SourceFile) : Prop :=
  ∀ package ∈ file.scope.package, package ≠ "" ∧ '(' ∉ package.toList

instance (file : SourceFile) : Decidable file.PlainPackage :=
  inferInstanceAs (Decidable (∀ package ∈ file.scope.package, package ≠ "" ∧ '(' ∉ package.toList))

end SourceFile

theorem notMem_dotted {c : Char} {qualifier name : String} (hdot : c ≠ '.')
    (hqualifier : c ∉ qualifier.toList) (hname : c ∉ name.toList) :
    c ∉ (dotted qualifier name).toList := by
  simp [dotted, hdot, hqualifier, hname]

theorem notMem_joinName {c : Char} {qualifier name : String} (hdot : c ≠ '.')
    (hqualifier : c ∉ qualifier.toList) (hname : c ∉ name.toList) :
    c ∉ (joinName qualifier name).toList := by
  by_cases hempty : qualifier = ""
  · rwa [joinName, if_pos (by simpa using hempty)]
  · rw [joinName_of_ne hempty]
    exact notMem_dotted hdot hqualifier hname

/-- A character that stands in no name stands in no qualified name. -/
theorem Declares.notMem {c : Char} {name : String → String} {t d : Tree} {q : String}
    (hdot : c ≠ '.') (hname : ∀ n, c ∉ n.toList → c ∉ (name n).toList)
    (hnames : ∀ q d n, Declares joinName name t q d → d.child? "name" = some n → c ∉ n.text.toList)
    (h : Declares joinName name t q d) : c ∉ q.toList := by
  induction h with
  | self hkind hn => exact hname _ (hnames _ _ _ (.self hkind hn) hn)
  | member hkind hn hm hd ih =>
    have hself := hname _ (hnames _ _ _ (.self hkind hn) hn)
    exact ih (fun n hn' => notMem_joinName hdot hself hn') fun q d n hd' =>
      hnames q d n (.member hkind hn hm hd')

theorem SourceFile.PlainPackage.regular {file : SourceFile} (h : file.PlainPackage)
    (hfirst : PackageFirst file.root) (hnames : file.PlainNames) : file.Regular :=
  ⟨hfirst, fun decl hdecl => (hnames.types decl hdecl).1, fun _ hempty => (h "" hempty).1 rfl⟩

theorem SourceFile.PlainPackage.notMem_qualified {file : SourceFile} (h : file.PlainPackage)
    (hfirst : PackageFirst file.root) (hnames : file.PlainNames) {decl : TypeDecl}
    (hdecl : decl ∈ file.decls) : '(' ∉ decl.qualified.toList := by
  obtain ⟨d, ⟨c, hc, hd⟩, -⟩ := mem_collectFile hfirst hdecl
  have hpackage : '(' ∉ (file.scope.package.getD "").toList := by
    cases hscope : file.scope.package with
    | none => simp
    | some package => exact (h package hscope).2
  refine hd.notMem (by decide) (fun n hn => notMem_joinName (by decide) hpackage hn)
    fun q' d' n hd' hn => ?_
  obtain ⟨decl', hdecl', -, hread⟩ := exists_mem_collectFile hfirst ⟨c, hc, hd'⟩
  have hname : n.text = decl'.name := Option.some.inj (by rw [← hread.name, hn, Option.map_some])
  rw [hname]
  exact (hnames.types decl' hdecl').2.2

/-! ## Owners -/

/-- The keys of the nodes to which a file may give attributes. -/
inductive SourceFile.Owns (file : SourceFile) : NodeKey → Prop
  | file : Owns file ⟨.file, file.path⟩
  | classType {decl : TypeDecl} (hdecl : decl ∈ file.decls) : Owns file ⟨.classType, decl.qualified⟩
  | method {decl : TypeDecl} {m : MethodDecl} (hdecl : decl ∈ file.decls) (hm : m ∈ decl.methods)
      (params : String) : Owns file ⟨.method, decl.qualified ++ "." ++ m.name ++ "(" ++ params⟩
  | field {decl : TypeDecl} {f : FieldDecl} (hdecl : decl ∈ file.decls) (hf : f ∈ decl.fields) :
      Owns file (.ofField decl.qualified f.name)

variable {index : ProjectIndex} {filter : NamespaceFilter} {ok : NodeKey → Bool}

theorem exists_eq_of_signature_eq_ok {q signature : String} {m : MethodDecl}
    (h : index.signature q m = .ok signature) :
    ∃ params, signature = q ++ "." ++ m.name ++ "(" ++ params := by
  unfold ProjectIndex.signature at h
  cases hparams : m.params.mapM (index.describeParam q m.typeParams) with
  | error e => rw [hparams] at h; cases h
  | ok params =>
    rw [hparams] at h
    cases h
    exact ⟨", ".intercalate params ++ ")", String.append_assoc⟩

/-- **A file gives attributes only to nodes of its own.** -/
theorem owns_of_mem_upserts {file : SourceFile} (hfile : file.Regular)
    (hscope : walkScope index file = file.scope) {key : NodeKey} {given : Attributes}
    (hmem : .node key given ∈ file.upserts index filter ok) {name : String} {v : Value}
    (hgiven : given.get? name = some v) : file.Owns key := by
  have hread {q : String} {d : Tree} (h : file.Declares dotted (walkScope index file).qualify q d) :
      ∃ decl ∈ file.decls, decl.qualified = q ∧ decl.ReadFrom d := by
    rw [hscope] at h
    exact hfile.exists_decl h
  cases origin_of_mem_upserts hmem with
  | stub => cases hgiven
  | file => exact .file
  | classType h =>
    obtain ⟨decl, hdecl, rfl, -⟩ := hread h
    exact .classType hdecl
  | method h hm hmethod hsignature =>
    obtain ⟨decl, hdecl, rfl, hdread⟩ := hread h
    obtain ⟨params, rfl⟩ := exists_eq_of_signature_eq_ok hsignature
    refine .method hdecl ?_ params
    rw [hdread.methods]
    exact List.mem_append_right _ (List.mem_filterMap.2 ⟨_, hm, hmethod⟩)
  | field h hkind hf =>
    obtain ⟨decl, hdecl, rfl, hdread⟩ := hread h
    cases hkind.symm.trans hdread.kind
    exact .field hdecl (hdread.fields ▸ hf)

/-- **Files of different types own different nodes** if their names are plain. -/
theorem ne_of_owns {a b : SourceFile} (hpaths : ProjectIndex.PathsApart a b)
    (htypes : ProjectIndex.TypesApart a b) (ha : a.PlainNames) (hb : b.PlainNames)
    (hqa : ∀ decl ∈ a.decls, '(' ∉ decl.qualified.toList)
    (hqb : ∀ decl ∈ b.decls, '(' ∉ decl.qualified.toList) {k l : NodeKey} (hk : a.Owns k)
    (hl : b.Owns l) :
    k ≠ l := by
  intro heq
  cases hk with
  | file =>
    cases hl with
    | file => exact hpaths (congrArg Path.normal (NodeKey.mk.inj heq).2)
    | _ => cases congrArg NodeKey.label heq
  | classType hx =>
    cases hl with
    | classType hy => exact htypes _ hx _ hy (NodeKey.mk.inj heq).2
    | _ => cases congrArg NodeKey.label heq
  | @method x m hx hm params =>
    cases hl with
    | @method y m' hy hm' params' =>
      have hplain := (ha.methods x hx m hm).2
      have hplain' := (hb.methods y hy m' hm').2
      have hcall : dotted x.qualified m.name = dotted y.qualified m'.name :=
        eq_of_append_paren_eq (notMem_dotted (by decide) (hqa x hx) hplain.2)
          (notMem_dotted (by decide) (hqb y hy) hplain'.2) (NodeKey.mk.inj heq).2
      exact htypes x hx y hy (eq_of_dotted_eq hplain.1 hplain'.1 hcall)
    | _ => cases congrArg NodeKey.label heq
  | @field x f hx hf =>
    cases hl with
    | @field y f' hy hf' =>
      exact htypes x hx y hy (eq_of_dotted_eq (ha.fields x hx f hf).2.1 (hb.fields y hy f' hf').2.1
        (NodeKey.mk.inj heq).2)
    | _ => cases congrArg NodeKey.label heq

end CodeGraph.Java
