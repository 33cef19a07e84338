import CodeGraph.Proofs.Java.Ancestry
import CodeGraph.Proofs.Java.Declared
import CodeGraph.Proofs.Java.Walks

/-!
# Inherited members

What a hierarchy means for the members that are looked up in it. A field is that of the first type
of the hierarchy that declares it, and of the methods a call may mean, those of the same written
parameter types, one is kept: the one of the first type that declares such a method
(`hierarchy_breadthFirst`).

The first type is a nearest one. It is a most derived one (`MostDerived`) if the hierarchy lists
derived types before those they derive from, as it does where all ways of inheritance to a type are
equally long. Where an interface is inherited both directly and by way of another one it may come
first (`not_mostDerived_interfaceTwice`).
-/

namespace CodeGraph.Java

/-- The parameter types of a method as they are written. -/
def Member.written (c : Member) : List String := c.method.params.map ParamDecl.written

namespace ProjectIndex

/-! ## Keeping the first -/

section DropOverridden

variable {seen : List (List String)} {members : List Member} {c : Member}

/-- The first member of each list of written types is kept. -/
theorem mem_dropOverridden_iff : c ∈ dropOverridden seen members ↔
    c.written ∉ seen ∧ members.find? (·.written == c.written) = some c := by
  induction members generalizing seen with
  | nil => simp [dropOverridden]
  | cons d rest ih =>
    simp only [dropOverridden, List.contains_iff_mem, List.find?_cons]
    change (c ∈ if d.written ∈ seen then dropOverridden seen rest
      else d :: dropOverridden (d.written :: seen) rest) ↔ _
    by_cases hsame : d.written = c.written
    · -- the head is the first of these types: it is kept or they were seen before
      rw [hsame, beq_self_eq_true]
      split
      case isTrue hseen =>
        rw [ih]
        exact ⟨fun h => absurd hseen h.1, fun h => absurd hseen h.1⟩
      case isFalse hseen =>
        simp only [List.mem_cons, ih, not_true_eq_false, true_or, false_and, or_false,
          Option.some.injEq]
        exact ⟨fun h => ⟨hseen, h.symm⟩, fun h => h.2.symm⟩
    · have hne : c ≠ d := fun h => hsame (h ▸ rfl)
      have hbeq : (d.written == c.written) = false := beq_eq_false_iff_ne.2 hsame
      rw [hbeq]
      split
      case isTrue => exact ih
      case isFalse =>
        simp only [List.mem_cons, hne, false_or, ih, not_or]
        exact ⟨fun h => ⟨h.1.2, h.2⟩, fun h => ⟨⟨fun e => hsame e.symm, h.1⟩, h.2⟩⟩

theorem nodup_written_dropOverridden (seen : List (List String)) (members : List Member) :
    ((dropOverridden seen members).map Member.written).Nodup := by
  induction members generalizing seen with
  | nil => exact .nil
  | cons c rest ih =>
    simp only [dropOverridden]
    split
    · exact ih seen
    · refine List.nodup_cons.2 ⟨fun h => ?_, ih _⟩
      obtain ⟨d, hd, hsame⟩ := List.mem_map.1 h
      exact (mem_dropOverridden_iff.1 hd).1 (hsame ▸ List.mem_cons_self)

end DropOverridden

/-- What is found first along a list is found at the first place where there is
something to find. -/
theorem findSome?_eq_some_iff_find? {α β : Type} {f : α → Option β} {xs : List α} {b : β} :
    xs.findSome? f = some b ↔ ∃ a, xs.find? (fun a => (f a).isSome) = some a ∧ f a = some b := by
  induction xs with
  | nil => simp
  | cons x xs ih =>
    rw [List.findSome?_cons, List.find?_cons]
    cases hx : f x with
    | none => simpa using ih
    | some y => simp [hx]

/-! ## Declaring types -/

section Declares

variable (index : ProjectIndex) (owner : String)

/-- The type itself declares a field of this name. -/
def declaresField (name t : String) : Bool :=
  (index.get? t).any fun decl => decl.fields.any (·.name == name)

/-- The type itself declares a method of these written parameter types that the call may mean. -/
def declaresMethod (name : String) (arity : Nat) (written : List String) (t : String) : Bool :=
  (index.callable name arity t).any (·.written == written)

/-- Of the types of the hierarchy that declare such a method none derives from this one, unless they
derive from each other. -/
structure MostDerived (name : String) (arity : Nat) (written : List String) (t : String) :
    Prop where
  mem : t ∈ index.hierarchy owner
  declares : index.declaresMethod name arity written t
  derived : ∀ s ∈ index.hierarchy owner, index.declaresMethod name arity written s →
    Relation.TransGen index.Inherits s t → Relation.TransGen index.Inherits t s

/-- The hierarchy lists no type before one that derives from it, unless they derive
from each other. -/
def ListsDerivedFirst : Prop := (index.hierarchy owner).Pairwise fun s t =>
  Relation.TransGen index.Inherits t s → Relation.TransGen index.Inherits s t

variable {index owner} {name t s : String} {steps : Nat}

theorem findField?_eq_some_iff {decl : TypeDecl} {field : FieldDecl} :
    index.findField? owner name = some (decl, field) ↔
      ∃ t, (index.hierarchy owner).find? (index.declaresField name) = some t ∧
        index.get? t = some decl ∧
        decl.fields.find? (·.name == name) = some field := by
  have hsome (t : String) : ((do
      let decl ← index.get? t
      let field ← decl.fields.find? (·.name == name)
      return (decl, field)) : Option (TypeDecl × FieldDecl)).isSome =
        index.declaresField name t := by
    cases hdecl : index.get? t with
    | none => simp [declaresField, hdecl]
    | some decl =>
      simp only [declaresField, hdecl, Option.any_some, ← List.isSome_find?, Option.bind_eq_bind,
        Option.bind_some]
      cases decl.fields.find? (·.name == name) <;> rfl
  rw [findField?, findSome?_eq_some_iff_find?]
  simp only [hsome]
  simp [Option.bind_eq_some_iff]

theorem findField?_eq_none_iff : index.findField? owner name = none ↔
    ∀ t ∈ index.hierarchy owner, index.declaresField name t = false := by
  have hfind : (∃ found, index.findField? owner name = some found) ↔
      ∃ t ∈ index.hierarchy owner, index.declaresField name t = true := by
    rw [← List.find?_isSome, Option.isSome_iff_exists]
    constructor
    · rintro ⟨⟨decl, field⟩, h⟩
      obtain ⟨t, ht, -⟩ := findField?_eq_some_iff.1 h
      exact ⟨t, ht⟩
    · rintro ⟨t, ht⟩
      have hdeclares : index.declaresField name t := List.find?_some ht
      obtain ⟨decl, hdecl, hany⟩ := (Option.any_eq_true _ _).1 hdeclares
      obtain ⟨field, hfield⟩ :=
        Option.isSome_iff_exists.1 (List.find?_isSome.2 (List.any_eq_true.1 hany))
      exact ⟨(decl, field), findField?_eq_some_iff.2 ⟨t, ht, hdecl, hfield⟩⟩
  rw [Option.eq_none_iff_forall_ne_some, ← not_exists, hfind]
  simp

theorem mem_candidates_iff {arity : Nat} {c : Member} : c ∈ index.candidates owner name arity ↔
    ∃ t, (index.hierarchy owner).find? (index.declaresMethod name arity c.written) = some t ∧
      (index.callable name arity t).find? (·.written == c.written) = some c := by
  have hsome (t : String) : ((index.callable name arity t).find? (·.written == c.written)).isSome =
      index.declaresMethod name arity c.written t := by
    simp [declaresMethod, List.isSome_find?]
  rw [candidates, mem_dropOverridden_iff, List.find?_flatMap, findSome?_eq_some_iff_find?]
  simp only [List.not_mem_nil, not_false_eq_true, true_and, hsome]

/-! ## Nearest and most derived -/

theorem Above.exists_of_transGen (h : index.Above owner steps t)
    (hs : Relation.TransGen index.Inherits t s) :
    ∃ n > steps, index.Above owner n s := by
  induction hs with
  | single hts => exact ⟨steps + 1, Nat.lt_succ_self steps, t, h, hts⟩
  | tail _ hrs ih =>
    obtain ⟨n, hn, hr⟩ := ih
    exact ⟨n + 1, Nat.lt_succ_of_lt hn, _, hr, hrs⟩

theorem not_transGen_of_supertypes (h : index.supertypes t = []) :
    ¬Relation.TransGen index.Inherits t s := by
  intro ht
  obtain ⟨r, hr, -⟩ := Relation.TransGen.head'_iff.1 ht
  rw [Inherits, h] at hr
  cases hr

/-- If all ways to a type are equally long, a nearer type does not derive from a farther one. -/
theorem listsDerivedFirst_of_forall_above (h : (index.hierarchy? owner).isSome)
    (hways : ∀ t m n, index.Above owner m t → index.Above owner n t → m = n) :
    index.ListsDerivedFirst owner := by
  refine (covers_hierarchy h).sorted.imp_of_mem fun {s t} _ ht hle hts => ?_
  obtain ⟨m, hm⟩ := exists_above_iff.2 ((mem_hierarchy_iff h).1 ht)
  obtain ⟨far, hfar, hs⟩ := hm.exists_of_transGen hts
  obtain ⟨near, hnear, hs'⟩ := ascent_le_iff.1 (hle.trans (ascent_le_iff.2 ⟨m, le_rfl, hm⟩))
  have := hways s far near hs hs'
  omega

theorem ListsDerivedFirst.mostDerived (h : index.ListsDerivedFirst owner) {arity : Nat}
    {written : List String}
    (ht : (index.hierarchy owner).find? (index.declaresMethod name arity written) = some t) :
    index.MostDerived owner name arity written t := by
  obtain ⟨hdeclares, before, after, htypes, hbefore⟩ := List.find?_eq_some_iff_append.1 ht
  refine ⟨List.mem_of_find?_eq_some ht, hdeclares, fun s hs hs' hst => ?_⟩
  rw [ListsDerivedFirst, htypes, List.pairwise_append, List.pairwise_cons] at h
  rw [htypes, List.mem_append, List.mem_cons] at hs
  rcases hs with hs | rfl | hs
  · exact absurd hs' (by simpa using hbefore s hs)
  · exact hst
  · exact h.2.1.1 s hs hst

end Declares

/-- **A hierarchy is a breadth-first closure.** If there is an answer it begins with the type itself
and lists what is reached through supertypes, each once and the nearest first, also where
inheritance is cyclic. So a field is that of the first type of the list that declares it. Of the
methods a call may mean every list of written parameter types is kept once, from the first type that
declares it. That type is a most derived one if derived types are listed first, as they are if all
ways to a type are equally long. -/
theorem hierarchy_breadthFirst {index : ProjectIndex} {owner : String}
    (h : (index.hierarchy? owner).isSome) :
    let types := index.hierarchy owner
    types.head? = some owner ∧ types.Nodup ∧
    (∀ t, t ∈ types ↔ Relation.ReflTransGen index.Inherits owner t) ∧
    types.Pairwise (fun s t => index.ascent owner s ≤ index.ascent owner t) ∧
    (∀ name decl field, index.findField? owner name = some (decl, field) ↔
      ∃ t, types.find? (index.declaresField name) = some t ∧ index.get? t = some decl ∧
        decl.fields.find? (·.name == name) = some field) ∧
    (∀ name, index.findField? owner name = none ↔
      ∀ t, Relation.ReflTransGen index.Inherits owner t → index.declaresField name t = false) ∧
    (∀ name arity,
      (index.candidates owner name arity).Sublist (types.flatMap (index.callable name arity)) ∧
      ((index.candidates owner name arity).map Member.written).Nodup ∧
      ∀ c, c ∈ index.candidates owner name arity ↔
        ∃ t, types.find? (index.declaresMethod name arity c.written) = some t ∧
          (index.callable name arity t).find? (·.written == c.written) = some c) ∧
    (index.ListsDerivedFirst owner → ∀ name arity, ∀ c ∈ index.candidates owner name arity,
      ∃ t, c ∈ index.callable name arity t ∧ index.MostDerived owner name arity c.written t) ∧
    ((∀ t m n, index.Above owner m t → index.Above owner n t → m = n) →
      index.ListsDerivedFirst owner) := by
  intro types
  have hcovers := covers_hierarchy h
  refine ⟨head?_hierarchy h, hcovers.nodup, fun t => mem_hierarchy_iff h, hcovers.sorted,
    fun name decl field => findField?_eq_some_iff, fun name => ?_,
      fun name arity => ⟨?_, ?_, fun c => ?_⟩,
    fun hfirst name arity c hc => ?_, listsDerivedFirst_of_forall_above h⟩
  · simp only [findField?_eq_none_iff, mem_hierarchy_iff h]
  · exact dropOverridden_sublist [] _
  · exact nodup_written_dropOverridden [] _
  · exact mem_candidates_iff
  · obtain ⟨t, ht, hfind⟩ := mem_candidates_iff.1 hc
    exact ⟨t, List.mem_of_find?_eq_some hfind, hfirst.mostDerived ht⟩

/-- A type declaration, without the parts that nothing reads. -/
def typeTree (kind name : String) (clauses members : List Tree) : Tree :=
  .mk kind true "" "" 1 1 <|
    .mk "identifier" true "name" name 1 1 [] ::
      (clauses ++ [.mk "class_body" true "body" "" 1 1 members])

/-- `extends` one class. -/
def extendsClass (name : String) : Tree :=
  .mk "superclass" true "superclass" "" 1 1 [.mk "type_identifier" true "" name 1 1 []]

/-- `implements`, or `extends` in an interface -/
def extendsInterfaces (kind field : String) (names : List String) : Tree :=
  .mk kind true field "" 1 1
    [.mk "type_list" true "" "" 1 1 (names.map fun name =>
      .mk "type_identifier" true "" name 1 1 [])]

/-- `int x;` -/
def intField : Tree :=
  .mk "field_declaration" true "" "" 1 1
    [.mk "integral_type" true "type" "int" 1 1 [],
     .mk "variable_declarator" true "declarator" "x" 1 1 [.mk "identifier" true "name" "x" 1 1 []]]

/-- `void m(int x);` -/
def methodOfInt : Tree :=
  .mk "method_declaration" true "" "" 1 1
    [.mk "void_type" true "type" "void" 1 1 [],
     .mk "identifier" true "name" "m" 1 1 [],
     .mk "formal_parameters" true "parameters" "" 1 1 [intParameter]]

/-- `class A extends B {}`, `class B extends A implements I { int x; void m(int x); }` and
`interface I { void m(int x); }` -/
def cyclicFile : SourceFile where
  path := "/p/A.java"
  root := .mk "program" true "" "" 1 1
    [typeTree "class_declaration" "A" [extendsClass "B"] [],
     typeTree "class_declaration" "B" [extendsClass "A",
       extendsInterfaces "super_interfaces" "interfaces" ["I"]]
      [intField, methodOfInt],
     typeTree "interface_declaration" "I" [] [methodOfInt]]

/-- Two of the three types are supertypes of each other. The field and the method
are those of the second. -/
theorem hierarchy_breadthFirst_cyclicFile :
    let index := build [cyclicFile]
    (index.hierarchy? "A").isSome ∧ index.hierarchy "A" = ["A", "B", "I"] ∧
      (∀ t, Relation.ReflTransGen index.Inherits "A" t ↔ t = "A" ∨ t = "B" ∨ t = "I") ∧
      (∃ decl field, index.findField? "A" "x" = some (decl, field) ∧ decl.qualified = "B") ∧
      index.findField? "A" "y" = none ∧ index.ListsDerivedFirst "A" ∧
      ∃ c ∈ index.candidates "A" "m" 1, c.owner.qualified = "B" ∧
        index.MostDerived "A" "m" 1 c.written "B" := by
  intro index
  have hsome : (index.hierarchy? "A").isSome := by decide +kernel
  have htypes : index.hierarchy "A" = ["A", "B", "I"] := by decide +kernel
  have hfirst : index.ListsDerivedFirst "A" := by
    have hmutual : Relation.TransGen index.Inherits "A" "B" :=
      .single (show "B" ∈ index.supertypes "A" by decide +kernel)
    have htop (t : String) : ¬Relation.TransGen index.Inherits "I" t :=
      not_transGen_of_supertypes (by decide +kernel)
    rw [ListsDerivedFirst, htypes]
    simp [hmutual, htop]
  obtain ⟨-, -, hmem, -, hfield, hnone, hcandidates, hderived, -⟩ := hierarchy_breadthFirst hsome
  have hreached (t : String) : Relation.ReflTransGen index.Inherits "A" t ↔
      t = "A" ∨ t = "B" ∨ t = "I" := by
    rw [← hmem, htypes]
    simp
  refine ⟨hsome, htypes, hreached, ?_, (hnone "y").2 fun t ht => ?_, hfirst, ?_⟩
  · obtain ⟨decl, hdecl⟩ :=
      Option.isSome_iff_exists.1 (show (index.get? "B").isSome by decide +kernel)
    have hx : ((index.get? "B").bind fun decl => decl.fields.find? (·.name == "x")).isSome := by
      decide +kernel
    rw [hdecl, Option.bind_some] at hx
    obtain ⟨field, hx⟩ := Option.isSome_iff_exists.1 hx
    exact ⟨decl, field, (hfield "x" decl field).2 ⟨"B", by decide +kernel, hdecl, hx⟩,
      (get?_build_eq_some hdecl).1⟩
  · rcases (hreached t).1 ht with rfl | rfl | rfl <;> decide +kernel
  · obtain ⟨c, hc⟩ := Option.isSome_iff_exists.1
      (show ((index.callable "m" 1 "B").find? (·.written == ["int"])).isSome by decide +kernel)
    have hwritten : c.written = ["int"] := by simpa using List.find?_some hc
    have howner : c.owner.qualified = "B" :=
      (get?_build_eq_some (mem_callable_iff.1 (List.mem_of_find?_eq_some hc)).1).1
    have hcandidate : c ∈ index.candidates "A" "m" 1 := by
      refine ((hcandidates "m" 1).2.2 c).2 ⟨"B", ?_, ?_⟩
      · rw [hwritten]
        decide +kernel
      · rw [hwritten, hc]
    obtain ⟨t, ht, hmost⟩ := hderived hfirst "m" 1 c hcandidate
    obtain rfl : t = "B" := (get?_build_eq_some (mem_callable_iff.1 ht).1).1.symm.trans howner
    exact ⟨c, hcandidate, howner, hmost⟩

/-- `class A implements X, Y {}`, `interface X { void m(int x); }` and
`interface Y extends X { void m(int x); }` -/
def interfaceTwiceFile : SourceFile where
  path := "/p/A.java"
  root := .mk "program" true "" "" 1 1
    [typeTree "class_declaration" "A"
      [extendsInterfaces "super_interfaces" "interfaces" ["X", "Y"]] [],
     typeTree "interface_declaration" "X" [] [methodOfInt],
     typeTree "interface_declaration" "Y" [extendsInterfaces "extends_interfaces" "" ["X"]]
       [methodOfInt]]

/-- `X` is listed before `Y`, which overrides its method, and so a call means the overridden one. -/
theorem not_mostDerived_interfaceTwice :
    let index := build [interfaceTwiceFile]
    (index.hierarchy? "A").isSome ∧ index.hierarchy "A" = ["A", "X", "Y"] ∧
      "X" ∈ index.supertypes "Y" ∧
      index.resolveCall ((Context.ofFile {}).enterClass "A" []) callOfOne = .ok "X.m(int)" ∧
      ¬∀ c ∈ index.candidates "A" "m" 1, ∃ t, c ∈ index.callable "m" 1 t ∧
        index.MostDerived "A" "m" 1 c.written t := by
  intro index
  have htypes : index.hierarchy "A" = ["A", "X", "Y"] := by decide +kernel
  have hextends : "X" ∈ index.supertypes "Y" := by decide +kernel
  refine ⟨by decide +kernel, htypes, hextends, by decide +kernel, fun h => ?_⟩
  obtain ⟨c, hc⟩ := Option.isSome_iff_exists.1
    (show ((index.candidates "A" "m" 1).head?).isSome by decide +kernel)
  have hboth : (index.candidates "A" "m" 1).head?.all
      fun c => c.owner.qualified = "X" && c.written = ["int"] := by decide +kernel
  obtain ⟨howner, hwritten⟩ : c.owner.qualified = "X" ∧ c.written = ["int"] := by
    simpa [hc] using hboth
  obtain ⟨t, ht, hmost⟩ := h c (List.mem_of_mem_head? hc)
  obtain rfl : t = "X" := (get?_build_eq_some (mem_callable_iff.1 ht).1).1.symm.trans howner
  rw [hwritten] at hmost
  have hback := hmost.derived "Y" (by rw [htypes]; decide) (by decide +kernel) (.single hextends)
  exact not_transGen_of_supertypes (show index.supertypes "X" = [] by decide +kernel) hback

end ProjectIndex

end CodeGraph.Java
