import CodeGraph.Proofs.Indexing.Passes

/-!
# The types that a file declares, twice

The types of a file are listed twice: the index collects them, those inside a type before the type
itself (`collectType`), and the walk of the file writes them, the type itself first (`recordType`).
Both lists hold the same types under the same names (`Lists`), although the index builds the names
from a qualifier and the walk from the context.

* `Lists`: which declared classes and which pairs of an outer and an inner class steps write, and
  how many classes they count, whichever ids name their nodes.
* `lists_recordType`: the walk of a declaration lists what the index collects from it.
* `processed_types`: so does the walk of a file, in any project in which no other file has its path.
-/

namespace CodeGraph

/-- The class that an upsert declares, with its kind. A class that is only referred
to is given none. -/
def Upsert.declaredClass? : Upsert → Option (String × Value)
  | .node key given =>
    if key.label = .classType then (given.get? "kind").map fun kind => (key.key, kind) else none
  | .edge _ _ _ => none

/-- The outer and the inner class that an upsert relates. -/
def Upsert.nestedPair? : Upsert → Option (String × String)
  | .node _ _ => none
  | .edge start target relation =>
    if start.label = .classType ∧ target.label = .classType ∧ relation = .hasClass then
      some (start.key, target.key)
    else none

/-- The classes that upserts declare. -/
def declaredClasses (us : List Upsert) : List (String × Value) := us.filterMap Upsert.declaredClass?

/-- The pairs of an outer and an inner class that upserts relate. -/
def nestedPairs (us : List Upsert) : List (String × String) := us.filterMap Upsert.nestedPair?

/-- The upsert says nothing of declared classes. -/
def Upsert.Quiet (u : Upsert) : Prop := u.declaredClass? = none ∧ u.nestedPair? = none

/-- Whether the ids of both classes of a pair name them. -/
def bothNamed (ok : NodeKey → Bool) (pair : String × String) : Bool :=
  ok ⟨.classType, pair.1⟩ && ok ⟨.classType, pair.2⟩

theorem declaredClasses_append (us us' : List Upsert) :
    declaredClasses (us ++ us') = declaredClasses us ++ declaredClasses us' :=
  List.filterMap_append

theorem nestedPairs_append (us us' : List Upsert) :
    nestedPairs (us ++ us') = nestedPairs us ++ nestedPairs us' :=
  List.filterMap_append

theorem quiet_stub {label : Label} {key : String} : (Entry.stub label key).Quiet := by
  refine ⟨?_, rfl⟩
  simp [Entry.stub, Upsert.declaredClass?]

theorem quiet_node {key : NodeKey} {given : Attributes} (h : key.label ≠ .classType) :
    (Upsert.node key given).Quiet :=
  ⟨if_neg h, rfl⟩

theorem quiet_edge {start target : NodeKey} {relation : Relation} (h : relation ≠ .hasClass) :
    (Upsert.edge start target relation).Quiet :=
  ⟨rfl, if_neg fun hall => h hall.2.2⟩

theorem quiet_edge_of_label {start target : NodeKey} {relation : Relation}
    (h : start.label ≠ .classType) :
    (Upsert.edge start target relation).Quiet :=
  ⟨rfl, if_neg fun hall => h hall.1⟩

/-- Nothing but a stub and a relationship that nests no class. -/
theorem quiet_stub_edge {label : Label} {key : String} {start target : NodeKey}
    {relation : Relation} (h : relation ≠ .hasClass) :
    ∀ u ∈ [Entry.stub label key, .edge start target relation], u.Quiet := by
  intro u hu
  rcases List.mem_cons.1 hu with rfl | hu
  · exact quiet_stub
  · cases List.mem_singleton.1 hu
    exact quiet_edge h

namespace Java

/-! ## Steps that list classes -/

/-- The step neither declares nor nests nor counts a class, and no step under it does. -/
inductive Step.Quiet : Step → Prop
  | unresolved {line : Nat} {what : Unresolved} : Quiet (.unresolved line what)
  | put {entry : Entry} {tally : Option Tally} {inside : List Step} (hentry : ∀ u ∈ entry, u.Quiet)
      (htally : tally ≠ some .classes) (hinside : ∀ s ∈ inside, Quiet s) :
      Quiet (.put entry tally inside)

/-- Whichever ids name their nodes, the steps declare these classes, relate these pairs of an outer
and an inner class as far as they are named, and count the classes. -/
structure Lists (steps : List Step) (classes : List (String × Value))
    (pairs : List (String × String)) :
    Prop where
  declared (ok : NodeKey → Bool) : (declaredClasses (writtenAll ok steps)).Perm classes
  nested (ok : NodeKey → Bool) : (nestedPairs (writtenAll ok steps)).Perm
    (pairs.filter (bothNamed ok))
  counted (ok : NodeKey → Bool) (r : FileReport) :
    (reportedAll ok steps r).classes = r.classes + classes.length

mutual

theorem Step.Quiet.of_mem_written {s : Step} (h : s.Quiet) {ok : NodeKey → Bool} {u : Upsert}
    (hu : u ∈ s.written ok) : u.Quiet := by
  match s, h with
  | .unresolved line what, _ => cases hu
  | .put entry tally inside, .put hentry _ hinside =>
    rw [Step.written] at hu
    rcases List.mem_append.1 hu with hu | hu
    · exact hentry u (Entry.mem_of_mem_written hu)
    · split at hu
      · exact quiet_of_mem_writtenAll hinside hu
      · cases hu

theorem quiet_of_mem_writtenAll {steps : List Step} (h : ∀ s ∈ steps, s.Quiet) {ok : NodeKey → Bool}
    {u : Upsert} (hu : u ∈ writtenAll ok steps) : u.Quiet := by
  match steps with
  | [] => cases hu
  | s :: rest =>
    rcases List.mem_append.1 hu with hu | hu
    · exact (h s List.mem_cons_self).of_mem_written hu
    · exact quiet_of_mem_writtenAll (fun s' hs' => h s' (List.mem_cons_of_mem _ hs')) hu

end

theorem FileReport.classes_count {tally : Option Tally} (h : tally ≠ some .classes)
    (r : FileReport) :
    (r.count tally).classes = r.classes := by
  cases tally with
  | none => rfl
  | some tally => cases tally with
    | classes => exact absurd rfl h
    | _ => rfl

mutual

theorem Step.Quiet.classes_reported {s : Step} (h : s.Quiet) (ok : NodeKey → Bool)
    (r : FileReport) :
    (s.reported ok r).classes = r.classes := by
  match s, h with
  | .unresolved line what, _ => rfl
  | .put entry tally inside, .put _ htally hinside =>
    rw [Step.reported]
    split
    · rw [classes_reportedAll hinside, FileReport.classes_count htally]
    · rfl

theorem classes_reportedAll {steps : List Step} (h : ∀ s ∈ steps, s.Quiet) (ok : NodeKey → Bool)
    (r : FileReport) : (reportedAll ok steps r).classes = r.classes := by
  match steps with
  | [] => rfl
  | s :: rest =>
    rw [reportedAll, classes_reportedAll fun s' hs' => h s' (List.mem_cons_of_mem _ hs'),
      (h s List.mem_cons_self).classes_reported]

end

namespace Lists

variable {steps steps' : List Step} {classes classes' : List (String × Value)}
  {pairs pairs' : List (String × String)}

theorem of_quiet (h : ∀ s ∈ steps, s.Quiet) : Lists steps [] [] where
  declared ok := by
    rw [declaredClasses, List.filterMap_eq_nil_iff.2 fun u hu => (quiet_of_mem_writtenAll h hu).1]
  nested ok := by
    rw [nestedPairs, List.filterMap_eq_nil_iff.2 fun u hu => (quiet_of_mem_writtenAll h hu).2]
    rfl
  counted ok r := classes_reportedAll h ok r

theorem nil : Lists [] [] [] := of_quiet (List.forall_mem_nil _)

theorem append (h : Lists steps classes pairs) (h' : Lists steps' classes' pairs') :
    Lists (steps ++ steps') (classes ++ classes') (pairs ++ pairs') where
  declared ok := by
    rw [writtenAll_append, declaredClasses_append]
    exact (h.declared ok).append (h'.declared ok)
  nested ok := by
    rw [writtenAll_append, nestedPairs_append, List.filter_append]
    exact (h.nested ok).append (h'.nested ok)
  counted ok r := by
    rw [reportedAll_append, h'.counted, h.counted, List.length_append, Nat.add_assoc]

theorem perm (h : Lists steps classes pairs) (hclasses : classes.Perm classes')
    (hpairs : pairs.Perm pairs') : Lists steps classes' pairs' where
  declared ok := (h.declared ok).trans hclasses
  nested ok := (h.nested ok).trans (hpairs.filter _)
  counted ok r := by rw [h.counted, hclasses.length_eq]

/-- Quiet steps before others list nothing more. -/
theorem quiet_append (h : ∀ s ∈ steps, s.Quiet) (h' : Lists steps' classes pairs) :
    Lists (steps ++ steps') classes pairs :=
  (of_quiet h).append h'

theorem flatMap {α : Type} {xs : List α} {steps : α → List Step}
    {classes : α → List (String × Value)}
    {pairs : α → List (String × String)} (h : ∀ x ∈ xs, Lists (steps x) (classes x) (pairs x)) :
    Lists (xs.flatMap steps) (xs.flatMap classes) (xs.flatMap pairs) := by
  induction xs with
  | nil => exact .nil
  | cons x xs ih =>
    exact (h x List.mem_cons_self).append (ih fun y hy => h y (List.mem_cons_of_mem _ hy))

/-- A declared class and what is listed under it. Its node is written whatever ids there are. -/
theorem classType (q : String) (kind : TypeKind) (h : Lists steps classes pairs) :
    Lists [.put (Entry.classType q kind.name) (some .classes) steps]
      ((q, .text kind.name) :: classes) pairs where
  declared ok := by
    rw [writtenAll, writtenAll, List.append_nil]
    exact (h.declared ok).cons _
  nested ok := by
    rw [writtenAll, writtenAll, List.append_nil]
    exact h.nested ok
  counted ok r := by
    have hinside : reportedAll ok [.put (Entry.classType q kind.name) (some .classes) steps] r =
        reportedAll ok steps (r.count (some .classes)) := rfl
    rw [hinside, h.counted, List.length_cons, FileReport.count, Nat.add_assoc, Nat.add_comm 1]

/-- An inner class is related to the outer one if both are named. -/
theorem nestedClass (outer inner : String) :
    Lists [.put (Entry.nestedClass outer inner) none []] [] [(outer, inner)] := by
  have hwritten (ok : NodeKey → Bool) :
      writtenAll ok [.put (Entry.nestedClass outer inner) none []] =
      if bothNamed ok (outer, inner) then Entry.nestedClass outer inner else [] := by
    simp only [writtenAll, Step.written, ite_self, List.append_nil]
    exact List.takeWhile_cons
  refine ⟨fun ok => ?_, fun ok => ?_, fun ok r => ?_⟩
  · rw [hwritten]
    split <;> rfl
  · rw [hwritten, List.filter_singleton]
    cases bothNamed ok (outer, inner) <;> exact .refl _
  · rw [reportedAll, reportedAll, Step.reported]
    split <;> rfl

end Lists

/-! ## Parts of a declaration that list nothing -/

variable {index : ProjectIndex} {filter : NamespaceFilter} {path : String} {scope : FileScope}
  {executable : Option Executable} {outer : Option String} {q : String} {t m : Tree} {ctx : Context}

theorem quiet_put {entry : Entry} {tally : Option Tally} (htally : tally ≠ some .classes)
    (h : ∀ u ∈ entry, u.Quiet) : (Walk.put entry tally).Keeps scope executable Step.Quiet :=
  .put (.put h htally (List.forall_mem_nil _))

theorem quiet_say_unresolved {line : Nat} {what : Unresolved} :
    (Walk.say [.unresolved line what]).Keeps scope executable Step.Quiet :=
  .say fun s hs => by
    cases List.mem_singleton.1 hs
    exact .unresolved

theorem quiet_of_bodyStep {s : Step} (h : BodyStep index executable s) : s.Quiet := by
  cases h with
  | unresolved => exact .unresolved
  | call => exact .put (quiet_stub_edge (by decide)) (by decide) (List.forall_mem_nil _)
  | use => exact .put (quiet_stub_edge (by decide)) (by decide) (List.forall_mem_nil _)

theorem quiet_recordSupertypes (t : Tree) (kind : TypeKind) (q : String) :
    (recordSupertypes index t kind q).Keeps scope executable Step.Quiet := by
  have hone {entry : String → Entry} (h : ∀ name, ∀ u ∈ entry name, u.Quiet) (type : Tree) :
      (recordSupertype index entry type).Keeps scope executable Step.Quiet := by
    refine .ask fun ctx _ _ => ?_
    split
    · exact quiet_put (by decide) (h _)
    · exact quiet_say_unresolved
  have hextends (name : String) : ∀ u ∈ Entry.classExtends q name, u.Quiet :=
    quiet_stub_edge (by decide)
  have himplements (name : String) : ∀ u ∈ Entry.classImplements q name, u.Quiet :=
    quiet_stub_edge (by decide)
  refine .andThen (.all fun w hw => ?_) (.all fun w hw => ?_)
  · obtain ⟨type, -, rfl⟩ := List.mem_map.1 hw
    exact hone hextends type
  · obtain ⟨type, -, rfl⟩ := List.mem_map.1 hw
    split
    · exact hone hextends type
    · exact hone himplements type

theorem quiet_fieldEntry {name initial : String} {type : ResolvedType} {entry : Entry}
    (h : fieldEntry? filter q name initial type = some entry) : ∀ u ∈ entry, u.Quiet := by
  have hplain (detail : FieldDetail) : ∀ u ∈ Entry.fieldOf q detail, u.Quiet := by
    intro u hu
    rcases List.mem_cons.1 hu with rfl | hu
    · exact quiet_node fun h => by cases h
    · cases List.mem_singleton.1 hu
      exact quiet_edge (by decide)
  unfold fieldEntry? at h
  split at h
  · cases h
    exact hplain _
  · split at h
    · cases h
      exact hplain _
    · cases h
      rw [Entry.typedFieldOf, List.append_assoc]
      exact List.forall_mem_append.2 ⟨hplain _, quiet_stub_edge (by decide)⟩
  · cases h

theorem quiet_recordField (name initial : String) (type : WrittenType) :
    (recordField index filter t q name type initial).Keeps scope executable Step.Quiet := by
  refine .ask fun ctx _ _ => ?_
  split
  · exact quiet_say_unresolved
  · split
    · exact quiet_put (by decide) (quiet_fieldEntry ‹_›)
    · exact .skip

theorem quiet_recordFields : (recordFields index filter m q).Keeps scope executable Step.Quiet := by
  refine .all fun w hw => ?_
  obtain ⟨⟨f, d⟩, -, rfl⟩ := List.mem_map.1 hw
  exact quiet_recordField _ _ _

theorem quiet_components (t : Tree) (kind : TypeKind) (q : String) :
    Walk.Keeps scope executable Step.Quiet
      (if kind = .recordKind then recordComponentFields index filter t q else .skip) := by
  split
  · obtain ⟨ws, heq, hws⟩ := recordComponentFields_cases index filter t q
      (P := Walk.Keeps scope executable Step.Quiet) .skip fun c name type => quiet_recordField _ _ _
    rw [heq]
    exact .all hws
  · exact .skip

theorem quiet_recordExecutable (decl : MethodDecl) (signature : String) :
    (recordExecutable index filter m decl signature).Keeps scope executable Step.Quiet := by
  refine .inExecutable decl.typeParams (.andThen (declareParams_keeps _ _) ?_)
  split
  · exact (visit_keeps filter false _).mono fun s hs => quiet_of_bodyStep hs
  · exact .skip

theorem quiet_membership (decl : MethodDecl) {start target : NodeKey} :
    (Upsert.edge start target decl.membership).Quiet := by
  unfold MethodDecl.membership
  split
  · exact quiet_edge (by decide)
  · exact quiet_edge (by decide)

theorem quiet_recordMethod :
    (recordMethod index filter path m q).Keeps scope executable Step.Quiet := by
  cases hdecl : methodDecl? m with
  | none =>
    rw [recordMethod, hdecl]
    exact quiet_say_unresolved
  | some decl =>
    cases hsignature : index.signature q decl with
    | error e =>
      rw [recordMethod, hdecl]
      dsimp only
      rw [hsignature]
      exact quiet_say_unresolved
    | ok signature =>
      have hnode : ∀ u ∈ Entry.method signature (methodDetail path m decl), u.Quiet :=
        List.forall_mem_singleton.2 (quiet_node fun h => by cases h)
      have hmember :
          (Walk.put [.edge ⟨.classType, q⟩ ⟨.method, signature⟩ decl.membership] none).Keeps scope
            executable Step.Quiet :=
        quiet_put (by decide) (List.forall_mem_singleton.2 (quiet_membership decl))
      rw [recordMethod_eq hdecl hsignature]
      exact .guarded (.andThen hmember (quiet_recordExecutable decl signature))
        fun inside hinside => .put hnode (by decide) hinside

/-! ## Declarations -/

/-- What a declaration in the index lists: its name and kind, and the type around it. -/
def classesOf (decls : List TypeDecl) : List (String × Value) :=
  decls.map fun d => (d.qualified, .text d.kind.name)

/-- The types around types, each with the type in it. -/
def pairsOf (decls : List TypeDecl) : List (String × String) :=
  decls.filterMap fun d => d.outer.map fun outer => (outer, d.qualified)

theorem lists_recordNesting (outer : Option String) (q : String) (ctx : Context) :
    Lists (recordNesting outer q ctx).2 [] (outer.map fun outer => (outer, q)).toList := by
  cases outer with
  | none => exact .nil
  | some outer => exact .nestedClass outer q

/-- A member that declares no type lists none. -/
theorem quiet_recordMember (h : declaresType m = false) :
    (recordMember index filter path q m).Keeps scope executable Step.Quiet := by
  unfold recordMember
  split
  case h_1 | h_2 => exact quiet_recordFields
  case h_3 | h_4 => exact quiet_recordMethod
  case h_5 =>
    rw [recordType_of_none (.inl (by simpa [declaresType] using h))]
    exact .skip

/-- Before its members the walk of a declaration lists the type around it. -/
theorem lists_headSteps (kind : TypeKind) :
    Lists (headSteps index filter path outer t kind q ctx) []
      (outer.map fun outer => (outer, q)).toList := by
  have hplace : ∀ s ∈ [Step.put (Entry.classIn path q) none []], s.Quiet :=
    (quiet_put (by decide) (fun u hu => by
      cases List.mem_singleton.1 hu
      exact quiet_edge_of_label fun h => by cases h) ctx rfl rfl).2
  have hclauses : ∀ s ∈ (recordSupertypes index t kind q (ctx.enterClass q (typeParameters t))).2,
      s.Quiet :=
    (quiet_recordSupertypes t kind q _ rfl rfl).2
  have hcomponents :
      ∀ s ∈ ((if kind = .recordKind then recordComponentFields index filter t q else .skip :
      Walk) (ctx.enterClass q (typeParameters t))).2, s.Quiet :=
    (quiet_components t kind q _ rfl rfl).2
  exact ((Lists.quiet_append hplace (lists_recordNesting outer q ctx)).append
    (.of_quiet (List.forall_mem_append.2 ⟨hclauses, hcomponents⟩))).perm (.refl _)
      (.of_eq (List.append_nil _))

/-- The walk of a declaration lists the type and the type around it, and what the members list. -/
theorem lists_recordType_of_members {kind : TypeKind} {n : Tree} {classes : List (String × Value)}
    {pairs : List (String × String)} (hkind : TypeKind.ofTreeKind? t.kind = some kind)
    (hn : t.child? "name" = some n) (hq : q = nameUnder ctx.file outer n.text)
    (h : Lists ((typeMembers t).flatMap fun m =>
      (recordMember index filter path q m (ctx.enterClass q (typeParameters t))).2) classes pairs) :
    Lists (recordType index filter path outer t ctx).2 ((q, .text kind.name) :: classes)
      ((outer.map fun outer => (outer, q)).toList ++ pairs) := by
  rw [steps_recordType hkind hn hq]
  exact .classType q kind ((lists_headSteps kind).append h)

/-- **The walk of a declaration lists what the index collects from it.** -/
theorem lists_recordType {qualifier : String}
    (hname : nameUnder ctx.file outer = joinName qualifier)
    (hnames : ∀ d ∈ collectType path qualifier outer t, d.name ≠ "") :
    Lists (recordType index filter path outer t ctx).2
      (classesOf (collectType path qualifier outer t))
        (pairsOf (collectType path qualifier outer t)) := by
  induction hsize : t.size using Nat.strongRecOn generalizing t outer ctx qualifier with
  | _ size ih =>
    subst hsize
    by_cases hnone : TypeKind.ofTreeKind? t.kind = none ∨ t.child? "name" = none
    · rw [recordType_of_none hnone, collectType_of_none hnone]
      exact .nil
    · obtain ⟨kind, hkind⟩ := Option.ne_none_iff_exists'.1 fun h => hnone (.inl h)
      obtain ⟨n, hn⟩ := Option.ne_none_iff_exists'.1 fun h => hnone (.inr h)
      rw [collectType_eq hkind hn] at hnames ⊢
      obtain ⟨hnested, hself⟩ := List.forall_mem_append.1 hnames
      have hinner : joinName (joinName qualifier n.text) = dotted (joinName qualifier n.text) :=
        joinName_of_ne (joinName_ne qualifier (hself _ List.mem_cons_self))
      have hmember : ∀ m ∈ typeMembers t,
          Lists (recordMember index filter path (joinName qualifier n.text) m
              (ctx.enterClass (joinName qualifier n.text) (typeParameters t))).2
            (classesOf (collectType path (joinName qualifier n.text)
              (some (joinName qualifier n.text)) m))
            (pairsOf (collectType path (joinName qualifier n.text)
              (some (joinName qualifier n.text)) m)) := by
        intro m hm
        by_cases hm' : declaresType m = true
        · rw [recordMember_of_declaresType hm']
          exact ih m.size (size_lt_of_mem_typeMembers hm) hinner.symm
            (fun d hd => hnested d (List.mem_flatMap.2 ⟨m, hm, hd⟩)) rfl
        · have hm' : declaresType m = false := by simpa using hm'
          rw [collectType_of_not_declaresType hm']
          exact .of_quiet (quiet_recordMember hm' _ rfl rfl).2
      refine (lists_recordType_of_members hkind hn (congrFun hname _).symm
        (Lists.flatMap hmember)).perm ?_ ?_
      -- the walk has the type itself first, the index has it last
      · rw [classesOf, List.map_append, List.map_flatMap]
        exact (List.perm_append_singleton _ _).symm
      · rw [pairsOf, List.filterMap_append, List.filterMap_flatMap]
        refine List.perm_append_comm.trans (.append_left _ (.of_eq ?_))
        cases outer <;> rfl

/-! ## Files -/

/-- A child of a file that declares no type lists none. -/
theorem quiet_recordChild (h : declaresType t = false) :
    (recordChild index filter path t).Keeps scope executable Step.Quiet := by
  unfold recordChild
  split
  · split
    · exact quiet_put (by decide) (quiet_stub_edge (by decide))
    · exact .skip
  · split
    · exact quiet_put (by decide) (quiet_stub_edge (by decide))
    · exact .skip
  · rw [recordType_of_none (.inl (by simpa [declaresType] using h))]
    exact .skip

/-- **The walk of a file lists what the index collects from it**, from the file's own scope. -/
theorem lists_extract {file : SourceFile} (hscope : walkScope index file = file.scope)
    (h : file.Regular) :
    Lists (extract index filter file) (classesOf file.decls) (pairsOf file.decls) := by
  have hchild : ∀ c ∈ file.root.named,
      Lists (recordChild index filter file.path c (.ofFile file.scope)).2
        (classesOf (collectType file.path (file.scope.package.getD "") none c))
        (pairsOf (collectType file.path (file.scope.package.getD "") none c)) := by
    intro c hc
    by_cases hc' : declaresType c = true
    · rw [recordChild_of_declaresType hc']
      by_cases hnone : TypeKind.ofTreeKind? c.kind = none ∨ c.child? "name" = none
      · rw [recordType_of_none hnone, collectType_of_none hnone]
        exact .nil
      · obtain ⟨kind, hkind⟩ := Option.ne_none_iff_exists'.1 fun h => hnone (.inl h)
        obtain ⟨n, hn⟩ := Option.ne_none_iff_exists'.1 fun h => hnone (.inr h)
        have hdecl : file.Declares dotted file.scope.qualify _ c := ⟨c, hc, .self hkind hn⟩
        refine lists_recordType (qualify_eq_joinName (h.package (hdecl.decls_ne_nil h.first)))
          fun d hd => h.names d ?_
        rw [decls_eq h.first]
        exact List.mem_flatMap.2 ⟨c, hc, hd⟩
    · have hc' : declaresType c = false := by simpa using hc'
      rw [collectType_of_not_declaresType hc']
      exact .of_quiet (quiet_recordChild hc' _ rfl rfl).2
  have hall := Lists.flatMap hchild
  rw [extract_eq, hscope, decls_eq h.first, classesOf, List.map_flatMap, pairsOf,
    List.filterMap_flatMap]
  exact hall

/-- **The walk of a file and the index name the same types,** if no other file has its path, its
package declarations come first and no name in it is empty. Whatever project the file is part of and
whichever ids name their nodes, the classes that it declares in the graph are the ones that the
index collects from it, each as often and of the same kind, the classes that it nests in others are
the ones that the index has inside a type, and on every connected store it reports as many classes
as the index has from it. -/
theorem processed_types {files : List SourceFile} {file : SourceFile} (filter : NamespaceFilter)
    (hfile : file ∈ files)
    (hpath : ∀ other ∈ files, Path.normal other.path = Path.normal file.path → other = file)
    (hregular : file.Regular) :
    let steps := extract (.build files) filter file
    (∀ ok, (declaredClasses (writtenAll ok steps)).Perm
        (file.decls.map fun d => (d.qualified, .text d.kind.name))) ∧
      (nestedPairs (writtenAll (fun _ => true) steps)).Perm
        (file.decls.filterMap fun d => d.outer.map fun outer => (outer, d.qualified)) ∧
      (∀ ok, (nestedPairs (writtenAll ok steps)).Perm
        ((file.decls.filterMap fun d => d.outer.map fun outer => (outer, d.qualified)).filter
          (bothNamed ok))) ∧
      (Path.isJavaSource file.path = true → ∀ state stats, ∃ state' stats' report,
        processFile (.build files) filter file ⟨.ofState state, stats⟩ =
            some (⟨.ofState state', stats'⟩, report) ∧
          StoreState.Written (fun ok =>
            (fileEntry file.path).written ok ++ writtenAll ok steps) state state' ∧
          report.classes = file.decls.length) := by
  intro steps
  have hlists : Lists steps (classesOf file.decls) (pairsOf file.decls) :=
    lists_extract (walkScope_build_of_unique hfile hpath) hregular
  have hall : (pairsOf file.decls).filter (bothNamed fun _ => true) = pairsOf file.decls :=
    List.filter_eq_self.2 fun _ _ => rfl
  refine ⟨hlists.declared, (hlists.nested _).trans (.of_eq hall), hlists.nested,
    fun hjava state stats => ?_⟩
  obtain ⟨state', stats', report, hprocess, hwritten, hreport⟩ :=
    processFile_spec (.build files) filter hjava state stats
  refine ⟨state', stats', report, hprocess, hwritten.congr fun ok _ => ?_, ?_⟩
  · rw [SourceFile.upserts, if_pos hjava]
  · obtain ⟨ok, hok⟩ := state'.graph.exists_names
    have heq := hreport ok hok
    rw [SourceFile.report?, if_pos hjava] at heq
    rw [Option.some.inj heq, hlists.counted, classesOf, List.length_map]
    exact Nat.zero_add _

/-- `package p; class A { enum E {} class {} interface I { record R() {} } }`, where one class has
no name, without the parts that nothing reads. -/
def nestingFile : SourceFile where
  path := "/p/A.java"
  root := .mk "program" true "" "" 1 1
    [.mk "package_declaration" true "" "" 1 1 [.mk "identifier" true "" "p" 1 1 []],
     .mk "class_declaration" true "" "" 1 1
      [.mk "identifier" true "name" "A" 1 1 [],
       .mk "class_body" true "body" "" 1 1
        [.mk "enum_declaration" true "" "" 1 1
          [.mk "identifier" true "name" "E" 1 1 [], .mk "enum_body" true "body" "" 1 1 []],
         .mk "class_declaration" true "" "" 1 1 [.mk "class_body" true "body" "" 1 1 []],
         .mk "interface_declaration" true "" "" 1 1
          [.mk "identifier" true "name" "I" 1 1 [],
           .mk "interface_body" true "body" "" 1 1
            [.mk "record_declaration" true "" "" 1 1
              [.mk "identifier" true "name" "R" 1 1 [],
               .mk "formal_parameters" true "parameters" "" 1 1 [],
               .mk "class_body" true "body" "" 1 1 []]]]]]]

/-- Four types, three of them inside others, and none without a name. -/
theorem processed_types_nestingFile :
    nestingFile.Regular ∧
      (declaredClasses (writtenAll (fun _ => true)
        (extract (.build [nestingFile]) ⟨[]⟩ nestingFile))).Perm
        [("p.A.E", .text "enum"), ("p.A.I.R", .text "record"), ("p.A.I", .text "interface"),
          ("p.A", .text "class")] ∧
      (nestedPairs (writtenAll (fun _ => true)
        (extract (.build [nestingFile]) ⟨[]⟩ nestingFile))).Perm
        [("p.A", "p.A.E"), ("p.A.I", "p.A.I.R"), ("p.A", "p.A.I")] ∧
      ∃ state' stats' report, processFile (.build [nestingFile]) ⟨[]⟩ nestingFile
        ⟨.ofState .empty, {}⟩ =
        some (⟨.ofState state', stats'⟩, report) ∧ report.classes = 4 := by
  have hregular : nestingFile.Regular := by decide +kernel
  have hclasses : (nestingFile.decls.map fun d => (d.qualified, Value.text d.kind.name)) =
      [("p.A.E", .text "enum"), ("p.A.I.R", .text "record"), ("p.A.I", .text "interface"),
        ("p.A", .text "class")] := by decide +kernel
  have hpairs : (nestingFile.decls.filterMap fun d => d.outer.map fun outer =>
      (outer, d.qualified)) =
      [("p.A", "p.A.E"), ("p.A.I", "p.A.I.R"), ("p.A", "p.A.I")] := by decide +kernel
  have hmem : nestingFile ∈ [nestingFile] := List.mem_cons_self
  obtain ⟨hdeclared, hnested, -, hprocessed⟩ := processed_types ⟨[]⟩ hmem
    (fun other hother _ => List.mem_singleton.1 hother) hregular
  rw [hclasses] at hdeclared
  rw [hpairs] at hnested
  obtain ⟨state', stats', report, hprocess, -, hcount⟩ := hprocessed (by decide +kernel) .empty {}
  have hfour : nestingFile.decls.length = 4 := by decide +kernel
  exact ⟨hregular, hdeclared _, hnested, state', stats', report, hprocess, hcount.trans hfour⟩

end Java

end CodeGraph
