import CodeGraph.Proofs.Java.Declared
import CodeGraph.Proofs.Java.Hierarchy
import CodeGraph.Proofs.Java.OuterTypes

/-!
# When names resolve

The loops and recursions of name resolution are not bounded by their text: the steps outward end
when there is no outer type, the levels of a hierarchy when nothing new is seen, and a look-up of a
member asks for a hierarchy again. Each of them is read here as an evaluation with a bound on its
steps, which *settles* if from some bound on it has one and the same result. `ProjectIndex.Resolves`
says that all of them settle, whatever they are asked.

`resolves_build_iff` shows for the index of any files that this is so exactly if no header is
circular and no type without a name is held by another. Both happen:
`not_resolves_memberOfOwnHeader` is a legal program of the first kind.
-/

namespace CodeGraph.Java

/-- From some bound on, the evaluation has one and the same result. -/
def Settles {α : Type} (evaluate : Nat → Option α) : Prop :=
  ∃ bound result, ∀ n, bound ≤ n → evaluate n = some result

namespace Naming

variable {index : ProjectIndex} {answer : String → Option (List String)}

theorem parents_of_not_contains {ts : List String} (h : ∀ t ∈ ts, ¬index.contains t) :
    parents index answer ts = some [] := by
  induction ts with
  | nil => rfl
  | cons t ts ih =>
    have hrest := ih fun x hx => h x (List.mem_cons_of_mem _ hx)
    simp [parents, hrest, supertypes_of_not_contains (h t List.mem_cons_self)]

/-- Rounds beyond those that suffice see nothing new. -/
theorem levels_of_suffices {rounds : Nat} {seen frontier : List String}
    (hs : Suffices index rounds seen frontier) (more : Nat) :
    levels index answer (rounds + more) seen frontier =
      levels index answer rounds seen frontier := by
  induction rounds generalizing seen frontier with
  | zero =>
    have hout : ∀ t ∈ frontier, ¬index.contains t := hs.resolve_right (by omega)
    cases frontier with
    | nil => simp only [levels]
    | cons x xs =>
      cases more with
      | zero => rfl
      | succ more => simp [levels, parents_of_not_contains hout, fresh]
  | succ rounds ih =>
    cases frontier with
    | nil => simp only [levels]
    | cons x xs =>
      rw [Nat.succ_add_eq_add_succ, Nat.add_succ]
      simp only [levels]
      cases ha : parents index answer (x :: xs) with
      | none => rfl
      | some above => simp only [Option.bind_eq_bind, Option.bind_some, ih (hs.step ha)]

end Naming

namespace ProjectIndex

/-- Every evaluation of name resolution settles: the steps outward from a type, hierarchies with the
bound on their levels as on their nesting, and the resolution of headers, members, paths, names and
types over them. -/
structure Resolves (index : ProjectIndex) : Prop where
  outward : ∀ qualified, Settles fun n => some (index.outward n qualified)
  hierarchy : ∀ owner, Settles fun n =>
    Naming.levels index (index.hierarchyWithin n) n [owner] [owner]
  supertypes : ∀ qualified, Settles fun n =>
    Naming.supertypes index (index.hierarchyWithin n) qualified
  memberType : ∀ owner simple,
    Settles fun n => Naming.memberType index (index.hierarchyWithin n) owner simple
  nestedPath : ∀ base rest, Settles fun n =>
    Naming.nestedPath index (index.hierarchyWithin n) base rest
  resolveSimple : ∀ simple scope,
    Settles fun n => Naming.resolveSimple index (index.hierarchyWithin n) simple scope
  resolveName : ∀ name scope,
    Settles fun n => Naming.resolveName index (index.hierarchyWithin n) name scope
  resolveType : ∀ scope type,
    Settles fun n => Naming.resolveType index (index.hierarchyWithin n) scope type

variable {index : ProjectIndex}

/-- With enough depth and rounds, the levels above a type are its hierarchy. -/
theorem levels_hierarchyWithin {n : Nat} (h : index.typeCount + 1 ≤ n) (owner : String) :
    Naming.levels index (index.hierarchyWithin n) n [owner] [owner] = index.hierarchy? owner := by
  obtain ⟨more, rfl⟩ : ∃ more, n = index.typeCount + more := ⟨n - index.typeCount, by omega⟩
  rw [hierarchyWithin_eq_hierarchy? h,
    Naming.levels_of_suffices (Naming.suffices_typeCount index owner), hierarchy?_eq_run owner,
    inquiry, Inquiry.run_levels]

/-- What asks for hierarchies settles if every hierarchy has an answer. -/
theorem settles_run {α : Type} (h : ∀ owner, (index.hierarchy? owner).isSome)
    (p : Inquiry String (List String) α) : Settles fun n => p.run (index.hierarchyWithin n) := by
  obtain ⟨a, ha⟩ := Option.isSome_iff_exists.1 (Inquiry.isSome_run h p)
  exact ⟨index.typeCount + 1, a, fun n hn => by simp only [hierarchyWithin_eq_hierarchy? hn, ha]⟩

theorem settles_levels {owner : String} (h : (index.hierarchy? owner).isSome) :
    Settles fun n => Naming.levels index (index.hierarchyWithin n) n [owner] [owner] := by
  obtain ⟨types, htypes⟩ := Option.isSome_iff_exists.1 h
  exact ⟨index.typeCount + 1, types, fun n hn => (levels_hierarchyWithin hn owner).trans htypes⟩

theorem Resolves.isSome_hierarchy? (h : index.Resolves) (owner : String) :
    (index.hierarchy? owner).isSome := by
  obtain ⟨bound, types, hsettles⟩ := h.hierarchy owner
  have hlast : index.hierarchy? owner = some types := by
    rw [← levels_hierarchyWithin (Nat.le_max_right bound (index.typeCount + 1))]
    exact hsettles _ (Nat.le_max_left _ _)
  rw [hlast, Option.isSome_some]

theorem Resolves.not_namelessOuter (h : index.Resolves) : ¬index.NamelessOuter := by
  intro hn
  obtain ⟨bound, decls, hsettles⟩ := h.outward ""
  have hlength : ∀ n, bound ≤ n → n = decls.length := by
    intro n hle
    rw [← length_outward_nameless hn n, Option.some.inj (hsettles n hle)]
  have := hlength bound le_rfl
  have := hlength (bound + 1) (Nat.le_succ bound)
  omega

/-- **Names resolve exactly if no header is circular and no nameless type holds another.** -/
theorem resolves_build_iff (files : List SourceFile) :
    (build files).Resolves ↔
      (∀ t, ¬(build files).CircularHeader t) ∧ ¬(build files).NamelessOuter := by
  rw [← forall_isSome_hierarchy?_iff]
  constructor
  · exact fun h => ⟨h.isSome_hierarchy?, h.not_namelessOuter⟩
  rintro ⟨hsome, houter⟩
  constructor
  case outward =>
    intro qualified
    obtain ⟨decls, hdecls⟩ := outward_settles (wellNamed_build files) houter qualified
    exact ⟨qualified.length + 1, decls, fun n hn => congrArg some (hdecls n hn)⟩
  case hierarchy => exact fun owner => settles_levels (hsome owner)
  case supertypes =>
    intro qualified
    simpa only [Inquiry.run_supertypes] using
      settles_run hsome (Naming.supertypes _ Inquiry.put qualified)
  case memberType =>
    intro owner simple
    simpa only [Inquiry.run_memberType] using
      settles_run hsome (Naming.memberType _ Inquiry.put owner simple)
  case nestedPath =>
    intro base rest
    simpa only [Inquiry.run_nestedPath] using
      settles_run hsome (Naming.nestedPath _ Inquiry.put base rest)
  case resolveSimple =>
    intro simple scope
    simpa only [Inquiry.run_resolveSimple] using
      settles_run hsome (Naming.resolveSimple _ Inquiry.put simple scope)
  case resolveName =>
    intro name scope
    simpa only [Inquiry.run_resolveName] using
      settles_run hsome (Naming.resolveName _ Inquiry.put name scope)
  case resolveType =>
    intro scope type
    simpa only [Inquiry.run_resolveType] using
      settles_run hsome (Naming.resolveType _ Inquiry.put scope type)

/-- Types that have names and no supertypes have neither. -/
theorem not_circularHeader_and_not_namelessOuter (files : List SourceFile)
    (h : ∀ file ∈ files, ∀ decl ∈ file.decls,
      decl.superclass = none ∧ decl.interfaces = [] ∧ decl.qualified ≠ "") :
    (∀ t, ¬(build files).CircularHeader t) ∧ ¬(build files).NamelessOuter := by
  refine ⟨not_circularHeader_of_forall fun q decl hdecl => ?_, fun ⟨decl, hdecl, _⟩ => ?_⟩
  · obtain ⟨-, file, hfile, hdecl⟩ := get?_build_eq_some hdecl
    exact (h file hfile decl hdecl).imp_right And.left
  · obtain ⟨hempty, file, hfile, hdecl⟩ := get?_build_eq_some hdecl
    exact (h file hfile decl hdecl).2.2 hempty

/-! ## A header that names a member of its own class -/

/-- `class A extends Base<A.Inner> { class Inner {} }` and `class Base<T> {}`, without
the texts that nothing reads. -/
def memberOfOwnHeader : SourceFile where
  path := "A.java"
  root := .mk "program" true "" "" 1 2
    [.mk "class_declaration" true "" "" 1 1
      [.mk "identifier" true "name" "A" 1 1 [],
       .mk "superclass" true "superclass" "extends Base<A.Inner>" 1 1
        [.mk "generic_type" true "" "Base<A.Inner>" 1 1
          [.mk "type_identifier" true "" "Base" 1 1 [],
           .mk "type_arguments" true "" "<A.Inner>" 1 1
            [.mk "scoped_type_identifier" true "" "A.Inner" 1 1
              [.mk "type_identifier" true "" "A" 1 1 [],
               .mk "type_identifier" true "" "Inner" 1 1 []]]]],
       .mk "class_body" true "body" "" 1 1
        [.mk "class_declaration" true "" "class Inner" 1 1
          [.mk "identifier" true "name" "Inner" 1 1 [], .mk "class_body" true "body" "" 1 1 []]]],
     .mk "class_declaration" true "" "" 2 2
      [.mk "identifier" true "name" "Base" 2 2 [],
       .mk "type_parameters" true "type_parameters" "<T>" 2 2
        [.mk "type_parameter" true "" "T" 2 2 [.mk "type_identifier" true "" "T" 2 2 []]],
       .mk "class_body" true "body" "" 2 2 []]]

/-- To resolve `A.Inner` in the header of `A` takes the hierarchy of `A`, and so the header. -/
theorem not_resolves_memberOfOwnHeader : ¬(build [memberOfOwnHeader]).Resolves := by
  intro h
  have hnone : (build [memberOfOwnHeader]).hierarchy? "A" = none := by decide +kernel
  have := h.isSome_hierarchy? "A"
  rw [hnone] at this
  cases this

end ProjectIndex

end CodeGraph.Java
