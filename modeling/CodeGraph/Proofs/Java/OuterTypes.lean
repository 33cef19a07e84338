import CodeGraph.Java.Index

/-!
# From a type to the types around it

In an index built from files, a member type is named after the type that holds it
(`wellNamed_build`): each step outward leads to a shorter name, as long as the holder has a name.
The steps end for every type (`outward_settles`) unless a type without a name is held by one that
has none either: then the type is its own holder, and there is no last step
(`length_outward_nameless`).
-/

namespace CodeGraph.Java

/-- A member type is named after the type that holds it. -/
def TypeDecl.NamedAfterOuter (d : TypeDecl) : Prop :=
  ∀ outer, d.outer = some outer → d.qualified = joinName outer d.name

theorem joinName_empty (name : String) : joinName "" name = name := rfl

theorem length_lt_length_joinName {qualifier : String} (h : qualifier ≠ "") (name : String) :
    qualifier.length < (joinName qualifier name).length := by
  have : qualifier.isEmpty = false := by simpa using h
  simp only [joinName, this, Bool.false_eq_true, if_false, String.length_append]
  have : ".".length = 1 := rfl
  omega

theorem namedAfterOuter_of_mem_collectType {file qualifier : String} {outer : Option String}
    {t : Tree} (h : ∀ o, outer = some o → o = qualifier) :
    ∀ d ∈ collectType file qualifier outer t, d.NamedAfterOuter := by
  induction hn : t.size using Nat.strongRecOn generalizing qualifier outer t with
  | ind n ih =>
  subst hn
  intro d hd
  unfold collectType at hd
  split at hd
  case h_2 => simp at hd
  case h_1 kind nameTree _ _ =>
    have hself : ∀ o, outer = some o →
        joinName qualifier nameTree.text = joinName o nameTree.text :=
      fun o ho => by rw [h o ho]
    split at hd
    case h_1 => cases List.mem_singleton.1 hd; exact hself
    case h_2 body hbody =>
      rcases List.mem_append.1 hd with hd | hd
      · obtain ⟨⟨m, hm⟩, -, hd⟩ := List.mem_flatMap.1 hd
        dsimp only at hd
        split at hd
        case isTrue =>
          have hlt : m.size < t.size :=
            Nat.lt_trans (size_lt_of_mem_bodyMembers hm) (Tree.size_lt_of_child? hbody)
          exact ih m.size hlt (fun o ho => (Option.some.inj ho).symm) rfl d hd
        case isFalse => simp at hd
      · cases List.mem_singleton.1 hd; exact hself

theorem namedAfterOuter_of_mem_collectFile {file : String} {root : Tree} :
    ∀ d ∈ (collectFile file root).2, d.NamedAfterOuter := by
  have step : ∀ (children : List Tree) (acc : FileScope × List TypeDecl),
      (∀ d ∈ acc.2, d.NamedAfterOuter) →
        ∀ d ∈ (children.foldl (collectChild file) acc).2, d.NamedAfterOuter := by
    intro children
    induction children with
    | nil => exact fun _ h => h
    | cons c cs ih =>
      intro acc h
      refine ih _ fun d hd => ?_
      rw [collectChild] at hd
      split at hd
      · exact h d hd
      · split at hd
        · exact h d hd
        · split at hd
          · exact h d hd
          · split at hd <;> exact h d hd
      · rcases List.mem_append.1 hd with hd | hd
        · exact h d hd
        · exact namedAfterOuter_of_mem_collectType (by simp) d hd
  exact step _ _ (by simp)

namespace ProjectIndex

/-- Every declaration stands under its name and is named after its outer type. -/
def WellNamed (types : Dict TypeDecl) : Prop :=
  ∀ q d, types.get? q = some d → d.qualified = q ∧ d.NamedAfterOuter

theorem WellNamed.addType {types : Dict TypeDecl} {d : TypeDecl} (h : WellNamed types)
    (hd : d.NamedAfterOuter) : WellNamed (addType types d) := by
  intro q e he
  unfold ProjectIndex.addType at he
  split at he
  · exact h q e he
  · rw [Dict.get?_insert] at he
    split at he
    case isTrue hq => cases he; exact ⟨hq, hd⟩
    case isFalse => exact h q e he

theorem WellNamed.foldl_addType {decls : List TypeDecl} {types : Dict TypeDecl}
    (h : WellNamed types) (hd : ∀ d ∈ decls, d.NamedAfterOuter) :
    WellNamed (decls.foldl ProjectIndex.addType types) := by
  induction decls generalizing types with
  | nil => exact h
  | cons d ds ih =>
    exact ih (h.addType (hd d List.mem_cons_self)) fun e he => hd e (List.mem_cons_of_mem _ he)

theorem wellNamed_build (files : List SourceFile) : WellNamed (build files).types := by
  have step : ∀ (files : List SourceFile) (index : ProjectIndex), WellNamed index.types →
      WellNamed (files.foldl addFile index).types := by
    intro files
    induction files with
    | nil => exact fun _ h => h
    | cons f fs ih => exact fun index h => ih _ (h.foldl_addType namedAfterOuter_of_mem_collectFile)
  exact step files empty fun q d h => by cases h

/-! ## Stepping outward -/

variable {index : ProjectIndex}

theorem outward_of_get?_eq_none {q : String} (h : index.get? q = none) (fuel : Nat) :
    index.outward fuel q = [] := by
  cases fuel with
  | zero => rfl
  | succ fuel => simp only [outward, h]

theorem outward_of_outer_eq_none {q : String} {d : TypeDecl} (h : index.get? q = some d)
    (ho : d.outer = none) (fuel : Nat) : index.outward (fuel + 1) q = [d] := by
  simp only [outward, h, ho]

theorem outward_of_outer_eq_some {q outer : String} {d : TypeDecl} (h : index.get? q = some d)
    (ho : d.outer = some outer) (fuel : Nat) :
    index.outward (fuel + 1) q = d :: index.outward fuel outer := by
  simp only [outward, h, ho]

/-- A type without a name that is held by one without a name. -/
def NamelessOuter (index : ProjectIndex) : Prop :=
  ∃ d, index.get? "" = some d ∧ d.outer = some ""

theorem length_outward_nameless (h : index.NamelessOuter) (fuel : Nat) :
    (index.outward fuel "").length = fuel := by
  obtain ⟨d, hd, ho⟩ := h
  induction fuel with
  | zero => rfl
  | succ fuel ih => rw [outward_of_outer_eq_some hd ho, List.length_cons, ih]

/-- Unless a type without a name holds one, a step outward leads to a shorter name. -/
theorem length_outer_lt (hw : WellNamed index.types) (h : ¬index.NamelessOuter) {q outer : String}
    {d : TypeDecl} (hd : index.get? q = some d) (ho : d.outer = some outer) :
    outer.length < q.length := by
  obtain ⟨hq, hnamed⟩ := hw q d hd
  rw [← hq, hnamed outer ho]
  by_cases he : outer = ""
  · subst he
    rw [joinName_empty]
    have hne : d.name ≠ "" := by
      intro hname
      have : q = "" := by rw [← hq, hnamed "" ho, hname, joinName_empty]
      exact h ⟨d, this ▸ hd, ho⟩
    exact Nat.pos_of_ne_zero (by simpa using hne)
  · exact length_lt_length_joinName he d.name

/-- Unless a type without a name holds one, the steps outward end. -/
theorem outward_settles (hw : WellNamed index.types) (h : ¬index.NamelessOuter) (q : String) :
    ∃ decls, ∀ fuel, q.length + 1 ≤ fuel → index.outward fuel q = decls := by
  induction hn : q.length using Nat.strongRecOn generalizing q with
  | ind n ih =>
  cases hd : index.get? q with
  | none => exact ⟨[], fun fuel _ => outward_of_get?_eq_none hd fuel⟩
  | some d =>
    cases ho : d.outer with
    | none =>
      refine ⟨[d], fun fuel hf => ?_⟩
      obtain ⟨fuel, rfl⟩ := Nat.exists_eq_succ_of_ne_zero (n := fuel) (by omega)
      exact outward_of_outer_eq_none hd ho fuel
    | some outer =>
      have hlt : outer.length < q.length := length_outer_lt hw h hd ho
      obtain ⟨decls, hdecls⟩ := ih outer.length (hn ▸ hlt) outer rfl
      refine ⟨d :: decls, fun fuel hf => ?_⟩
      obtain ⟨fuel, rfl⟩ := Nat.exists_eq_succ_of_ne_zero (n := fuel) (by omega)
      rw [Nat.succ_eq_add_one, outward_of_outer_eq_some hd ho, hdecls fuel (by omega)]

end ProjectIndex

end CodeGraph.Java
