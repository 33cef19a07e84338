import CodeGraph.Java.Expression
import Mathlib.Algebra.Group.Action.Defs
import Mathlib.Algebra.Order.BigOperators.Group.List
import Mathlib.Algebra.Order.Ring.Nat
import Mathlib.Data.List.MinMax
import Mathlib.Data.List.Perm.Basic

/-!
# Which overload is chosen

A candidate is *applicable* if every argument fits the parameter that takes it. The grades of the
arguments add up (`grades`), and the doubled sum, with one point more for a fixed number of
parameters, is the *score*.

* `score?_eq`: going through the arguments gives the score of an applicable
  candidate, and none of another.
* `select_eq`: what is chosen depends on the applicable candidates that no other outscores.
* `choose_exact`: one is chosen exactly if it outscores all others, and the order of the
  candidates is of no account.
* `fixed_arity_breaks_ties`: the point for a fixed number of parameters decides only
  between equal sums.

So a variadic candidate may be chosen although one with a fixed number of parameters is applicable
(`not_fixed_arity_first_boxedArgument`).
-/

namespace CodeGraph.Java

open ProjectIndex

/-! ## Picking from a list -/

section

variable {α : Type} {p : α → Bool} {l : List α}

theorem filter_eq_singleton_iff {a : α} :
    l.filter p = [a] ↔ ∃ others, l.Perm (a :: others) ∧ p a ∧ ∀ b ∈ others, ¬p b := by
  constructor
  · intro h
    have hperm := (List.filter_append_perm p l).symm
    rw [h] at hperm
    have ha : a ∈ l.filter p := h ▸ List.mem_singleton_self a
    exact ⟨_, hperm, (List.mem_filter.1 ha).2, fun b hb => by simpa using (List.mem_filter.1 hb).2⟩
  · rintro ⟨others, hperm, ha, hothers⟩
    have hfilter := hperm.filter p
    rw [List.filter_cons_of_pos ha, List.filter_eq_nil_iff.2 hothers] at hfilter
    exact List.perm_singleton.1 hfilter

theorem exists_filter_eq_cons_cons_iff :
    (∃ a b rest, l.filter p = a :: b :: rest) ↔ ∃ a b others, l.Perm (a :: b :: others) ∧
    p a ∧ p b := by
  constructor
  · rintro ⟨a, b, rest, h⟩
    have hperm := (List.filter_append_perm p l).symm
    rw [h] at hperm
    have hp (x : α) (hx : x ∈ a :: b :: rest) : p x := (List.mem_filter.1 (h ▸ hx)).2
    exact ⟨a, b, _, hperm, hp a List.mem_cons_self,
      hp b (List.mem_cons_of_mem _ List.mem_cons_self)⟩
  · rintro ⟨a, b, others, hperm, ha, hb⟩
    have hlength := (hperm.filter p).length_eq
    rw [List.filter_cons_of_pos ha, List.filter_cons_of_pos hb] at hlength
    match hfilter : l.filter p with
    | [] => rw [hfilter] at hlength; cases hlength
    | [_] => rw [hfilter] at hlength; cases hlength
    | a :: b :: rest => exact ⟨a, b, rest, rfl⟩

end

namespace ProjectIndex

variable (index : ProjectIndex) (args : List (Option ResolvedType)) (cs : List Member) (c : Member)

/-- Every argument fits the parameter that takes it. -/
def Applicable : Prop := ∀ x ∈ args.zipIdx, (index.argumentGrade c x.2 x.1).isSome

/-- The grades of all arguments, added up. -/
def grades : Nat := (args.zipIdx.map fun x => (index.argumentGrade c x.2 x.1).getD 0).sum

/-- How good the candidate is: twice its grades, and one more if every parameter
takes one argument. -/
def score : Nat := 2 * index.grades args c + if c.method.isVariadic then 0 else 1

instance : Decidable (index.Applicable args c) := inferInstanceAs (Decidable (∀ x ∈ _, _))

/-- The candidate is applicable, and no applicable one has a greater score. -/
def Leads : Prop :=
  index.Applicable args c ∧ ∀ d ∈ cs, index.Applicable args d →
    index.score args d ≤ index.score args c

instance : Decidable (index.Leads args cs c) := inferInstanceAs (Decidable (_ ∧ _))

variable {index args cs c}

/-! ## Scores -/

theorem fixedCount_eq_iff {m : MethodDecl} : fixedCount m = m.params.length ↔
    m.isVariadic = false := by
  unfold fixedCount
  cases hvariadic : m.isVariadic with
  | false => simp
  | true =>
    have hne : m.params ≠ [] := by
      rintro h
      simp [MethodDecl.isVariadic, h] at hvariadic
    have hpos : 0 < m.params.length := List.length_pos_of_ne_nil hne
    simp only [if_true, Bool.true_eq_false, iff_false]
    omega

/-- The loop over the arguments ends early exactly if one of them does not fit. -/
theorem totalGrade_eq (position : Nat) : index.totalGrade c position args =
    if ∀ x ∈ args.zipIdx position, (index.argumentGrade c x.2 x.1).isSome then
      some ((args.zipIdx position).map fun x => (index.argumentGrade c x.2 x.1).getD 0).sum
    else none := by
  induction args generalizing position with
  | nil => rfl
  | cons arg rest ih =>
    simp only [totalGrade, ih, List.zipIdx_cons, List.forall_mem_cons, List.map_cons, List.sum_cons]
    cases index.argumentGrade c position arg with
    | none => simp
    | some grade =>
      by_cases hrest : ∀ x ∈ rest.zipIdx (position + 1), (index.argumentGrade c x.2 x.1).isSome
      · rw [if_pos hrest, if_pos ⟨rfl, hrest⟩]
        rfl
      · rw [if_neg hrest, if_neg fun h => hrest h.2]
        rfl

/-- **The score of a candidate that is applicable, and none of another.** -/
theorem score?_eq : index.score? args c =
    if index.Applicable args c then some (index.score args c) else none := by
  have htotal : index.totalGrade c 0 args =
      if index.Applicable args c then some (index.grades args c) else none := totalGrade_eq 0
  rw [score?, htotal]
  by_cases happlicable : index.Applicable args c
  · have hfixed : (if fixedCount c.method = c.method.params.length then 1 else 0) =
        if c.method.isVariadic then 0 else 1 := by
      simp only [fixedCount_eq_iff]
      cases c.method.isVariadic <;> rfl
    rw [if_pos happlicable, if_pos happlicable, score, ← hfixed, Nat.mul_comm 2]
    rfl
  · rw [if_neg happlicable, if_neg happlicable]
    rfl

theorem exists_leads (hc : c ∈ cs) (happlicable : index.Applicable args c) :
    ∃ d ∈ cs, index.Leads args cs d := by
  have hne : cs.filter (index.Applicable args ·) ≠ [] :=
    List.ne_nil_of_mem (List.mem_filter.2 ⟨hc, by simpa using happlicable⟩)
  obtain ⟨d, hd⟩ := Option.ne_none_iff_exists'.1
    (mt (List.argmax_eq_none (f := index.score args)).1 hne)
  obtain ⟨hmem, hd'⟩ := List.mem_filter.1 (List.argmax_mem hd)
  refine ⟨d, hmem, by simpa using hd', fun e he hap => ?_⟩
  exact List.le_of_mem_argmax (List.mem_filter.2 ⟨he, by simpa using hap⟩) hd

/-! ## The choice -/

/-- **What is chosen** is the only candidate that leads. -/
theorem select_eq (cs : List Member) (args : List (Option ResolvedType)) : index.select cs args =
    match cs.filter (index.Leads args cs ·) with
    | [] => .error .noOverload
    | [c] => .ok c
    | _ => .error .ambiguousOverload := by
  have hscored : cs.filterMap (fun c => (index.score? args c).map (·, c)) =
      (cs.filter (index.Applicable args ·)).map fun c => (index.score args c, c) := by
    induction cs with
    | nil => rfl
    | cons c rest ih =>
      by_cases happlicable : index.Applicable args c
      · rw [List.filterMap_cons, ih, List.filter_cons_of_pos (by simpa using happlicable)]
        simp [score?_eq, happlicable]
      · rw [List.filterMap_cons, ih, List.filter_cons_of_neg (by simpa using happlicable)]
        simp [score?_eq, happlicable]
  have hscores :
      ((cs.filter (index.Applicable args ·)).map fun c => (index.score args c, c)).map (·.1) =
      (cs.filter (index.Applicable args ·)).map (index.score args) := List.map_map
  have hbest (c : Member) (hc : c ∈ cs) : (index.Applicable args c ∧ some (index.score args c) =
      ((cs.filter (index.Applicable args ·)).map (index.score args)).max?) ↔
        index.Leads args cs c := by
    rw [eq_comm (a := some _), List.max?_eq_some_iff, List.forall_mem_map]
    simp only [List.mem_filter, decide_eq_true_eq, and_imp]
    refine and_congr_right fun happlicable => and_iff_right (List.mem_map_of_mem ?_)
    exact List.mem_filter.2 ⟨hc, by simpa using happlicable⟩
  have hleaders : (cs.filterMap (fun c => (index.score? args c).map (·, c))).filter (fun s =>
      some s.1 == ((cs.filterMap fun c => (index.score? args c).map (·, c)).map (·.1)).max?) =
        (cs.filter (index.Leads args cs ·)).map fun c => (index.score args c, c) := by
    rw [hscored, hscores, List.filter_map, List.filter_filter]
    congr 1
    refine List.filter_congr fun c hc => ?_
    rw [Bool.eq_iff_iff]
    simp only [Function.comp_apply, Bool.and_eq_true, beq_iff_eq, decide_eq_true_eq, ← hbest c hc]
    exact and_comm
  unfold select
  dsimp only
  rw [hleaders]
  rcases cs.filter (index.Leads args cs ·) with _ | ⟨c, _ | ⟨d, rest⟩⟩ <;> rfl

theorem choose_of_two_le (call : Tree) (h : 2 ≤ cs.length) :
    index.choose call cs args =
      (index.select cs args).mapError fun cause => ⟨call.text, cause⟩ := by
  match cs with
  | [] => simp at h
  | [_] => simp at h
  | _ :: _ :: _ => rfl

/-- The candidate that is chosen, or the reason why there is none. -/
theorem mapError_choose (call : Tree) (h : 2 ≤ cs.length) :
    (index.choose call cs args).mapError (·.cause.message) =
      match cs.filter (index.Leads args cs ·) with
      | [] => .error "no overload accepts the argument types"
      | [c] => .ok c
      | _ => .error "ambiguous overload" := by
  rw [choose_of_two_le call h, select_eq]
  match cs.filter (index.Leads args cs ·) with
  | [] => rfl
  | [c] => rfl
  | _ :: _ :: _ => rfl

theorem forall_mem_of_perm {others : List Member} {P : Member → Prop} (h : cs.Perm (c :: others)) :
    (∀ d ∈ cs, P d) ↔ P c ∧ ∀ d ∈ others, P d := by
  rw [← List.forall_mem_cons]
  exact forall_congr' fun d => imp_congr_left h.mem_iff

/-- Only this candidate leads exactly if it outscores the others. -/
theorem filter_leads_eq_singleton_iff : cs.filter (index.Leads args cs ·) = [c] ↔
    ∃ others, cs.Perm (c :: others) ∧ index.Applicable args c ∧
      ∀ d ∈ others, index.Applicable args d → index.score args d < index.score args c := by
  simp only [filter_eq_singleton_iff, decide_eq_true_eq]
  refine exists_congr fun others => and_congr_right fun hperm => ?_
  constructor
  · rintro ⟨⟨happlicable, hbest⟩, hothers⟩
    refine ⟨happlicable, fun d hd hap => lt_of_not_ge fun hle =>
      hothers d hd ⟨hap, fun e he hape => ?_⟩⟩
    exact (hbest e he hape).trans hle
  · rintro ⟨happlicable, hothers⟩
    refine ⟨⟨happlicable, (forall_mem_of_perm hperm).2 ⟨fun _ => le_rfl, fun d hd hap => ?_⟩⟩, ?_⟩
    · exact (hothers d hd hap).le
    · rintro d hd ⟨hap, hbest⟩
      exact absurd (hbest c (hperm.mem_iff.2 List.mem_cons_self) happlicable)
        (hothers d hd hap).not_ge

/-- No candidate leads exactly if none is applicable. -/
theorem filter_leads_eq_nil_iff :
    cs.filter (index.Leads args cs ·) = [] ↔ ∀ c ∈ cs, ¬index.Applicable args c := by
  simp only [List.filter_eq_nil_iff, decide_eq_true_eq]
  constructor
  · intro h c hc happlicable
    obtain ⟨d, hd, hleads⟩ := exists_leads hc happlicable
    exact h d hd hleads
  · exact fun h c hc hleads => h c hc hleads.1

/-- Two candidates lead exactly if they share the best score. -/
theorem exists_filter_leads_iff : (∃ c d rest, cs.filter (index.Leads args cs ·) = c :: d :: rest) ↔
    ∃ c d others, cs.Perm (c :: d :: others) ∧ index.Applicable args c ∧ index.Applicable args d ∧
      index.score args c = index.score args d ∧
      ∀ e ∈ others, index.Applicable args e → index.score args e ≤ index.score args c := by
  simp only [exists_filter_eq_cons_cons_iff, decide_eq_true_eq]
  refine exists_congr fun c => exists_congr fun d => exists_congr fun others =>
    and_congr_right fun hperm => ?_
  have hall {P : Member → Prop} : (∀ e ∈ cs, P e) ↔ P c ∧ P d ∧ ∀ e ∈ others, P e := by
    rw [forall_mem_of_perm hperm, List.forall_mem_cons]
  simp only [Leads, hall]
  constructor
  · rintro ⟨⟨hc, -, hdc, hothers⟩, hd, hcd, -⟩
    exact ⟨hc, hd, le_antisymm (hcd hc) (hdc hd), hothers⟩
  · rintro ⟨hc, hd, heq, hothers⟩
    refine ⟨⟨hc, fun _ => le_rfl, fun _ => heq.ge, hothers⟩, hd, fun _ => heq.le,
      fun _ => le_rfl, ?_⟩
    exact fun e he hap => heq ▸ hothers e he hap

theorem choose_eq_ok_iff (call : Tree) (h : 2 ≤ cs.length) : index.choose call cs args = .ok c ↔
    ∃ others, cs.Perm (c :: others) ∧ index.Applicable args c ∧
      ∀ d ∈ others, index.Applicable args d → index.score args d < index.score args c := by
  rw [← filter_leads_eq_singleton_iff, choose_of_two_le call h, select_eq]
  match cs.filter (index.Leads args cs ·) with
  | [] => simp [Except.mapError]
  | [c] => simp [Except.mapError]
  | _ :: _ :: _ => simp [Except.mapError]

/-- The order of the candidates does not decide. -/
theorem select_perm {cs' : List Member} (h : cs.Perm cs') :
    index.select cs' args = index.select cs args := by
  have hleads (c : Member) : index.Leads args cs' c ↔ index.Leads args cs c :=
    and_congr_right fun _ => forall_congr' fun d => imp_congr_left h.mem_iff.symm
  have hperm : (cs.filter (index.Leads args cs ·)).Perm (cs'.filter (index.Leads args cs' ·)) := by
    simp only [hleads]
    exact h.filter _
  rw [select_eq, select_eq]
  match hfilter : cs.filter (index.Leads args cs ·),
    hfilter' : cs'.filter (index.Leads args cs' ·) with
  | [], [] => rfl
  | [c], [c'] =>
    rw [hfilter, hfilter', List.perm_singleton] at hperm
    cases hperm
    rfl
  | _ :: _ :: _, _ :: _ :: _ => rfl
  | [], _ :: _ | _ :: _, [] | [_], _ :: _ :: _ | _ :: _ :: _, [_] =>
    rw [hfilter, hfilter'] at hperm
    simpa using hperm.length_eq

/-- **The choice among several candidates is exact.** One of them is chosen exactly if it is
applicable and outscores all other applicable ones. There is no choice exactly if none is applicable
or if two share the best score. The order of the candidates is of no account. -/
theorem choose_exact (call : Tree) (h : 2 ≤ cs.length) :
    let outcome := (index.choose call cs args).mapError (·.cause.message)
    (∀ c, outcome = .ok c ↔ ∃ others, cs.Perm (c :: others) ∧ index.Applicable args c ∧
      ∀ d ∈ others, index.Applicable args d → index.score args d < index.score args c) ∧
    (outcome = .error "no overload accepts the argument types" ↔
      ∀ c ∈ cs, ¬index.Applicable args c) ∧
    (outcome = .error "ambiguous overload" ↔ ∃ c d others, cs.Perm (c :: d :: others) ∧
      index.Applicable args c ∧ index.Applicable args d ∧ index.score args c = index.score args d ∧
      ∀ e ∈ others, index.Applicable args e → index.score args e ≤ index.score args c) ∧
    ∀ cs', cs.Perm cs' → index.choose call cs' args = index.choose call cs args := by
  intro outcome
  have hperm (cs' : List Member) (hperm : cs.Perm cs') :
      index.choose call cs' args = index.choose call cs args := by
    rw [choose_of_two_le call h, choose_of_two_le call (hperm.length_eq ▸ h), select_perm hperm]
  simp only [outcome, mapError_choose call h, ← filter_leads_eq_singleton_iff,
    ← filter_leads_eq_nil_iff, ← exists_filter_leads_iff]
  refine ⟨fun c => ?_, ?_, ?_, hperm⟩
  all_goals
    match cs.filter (index.Leads args cs ·) with
    | [] => simp
    | [c] => simp
    | _ :: _ :: _ => simp

/-- `class A { void m(…) {} … }` with a method for each of the parameters, without
the parts that nothing reads. -/
def overloadingFile (parameters : List Tree) : SourceFile where
  path := "/p/A.java"
  root := .mk "program" true "" "" 1 1
    [.mk "class_declaration" true "" "" 1 1
      [.mk "identifier" true "name" "A" 1 1 [],
       .mk "class_body" true "body" "" 1 1 <| parameters.map fun parameter =>
        .mk "method_declaration" true "" "" 1 1
          [.mk "void_type" true "type" "void" 1 1 [],
           .mk "identifier" true "name" "m" 1 1 [],
           .mk "formal_parameters" true "parameters" "" 1 1 [parameter],
           .mk "block" true "body" "" 1 1 []]]]

/-- `Object x` -/
def objectParameter : Tree :=
  .mk "formal_parameter" true "" "" 1 1
    [.mk "type_identifier" true "type" "Object" 1 1 [], .mk "identifier" true "name" "x" 1 1 []]

/-- `int x` -/
def intParameter : Tree :=
  .mk "formal_parameter" true "" "" 1 1
    [.mk "integral_type" true "type" "int" 1 1 [], .mk "identifier" true "name" "x" 1 1 []]

/-- `int... x` -/
def intsParameter : Tree :=
  .mk "spread_parameter" true "" "" 1 1
    [.mk "integral_type" true "" "int" 1 1 [],
     .mk "variable_declarator" true "" "" 1 1 [.mk "identifier" true "name" "x" 1 1 []]]

/-- `m(1)` -/
def callOfOne : Tree :=
  .mk "method_invocation" true "" "m(1)" 1 1
    [.mk "identifier" true "name" "m" 1 1 [],
     .mk "argument_list" true "arguments" "(1)" 1 1
       [.mk "decimal_integer_literal" true "" "1" 1 1 []]]

/-- Of `m(Object)`, `m(int)` and `m(int...)` the second is chosen for `m(1)`, and so it is if they
stand in the opposite order. -/
theorem choose_exact_threeOverloads :
    let index := build [overloadingFile [objectParameter, intParameter, intsParameter]]
    let cs := index.candidates "A" "m" 1
    let args := [some .int]
    2 ≤ cs.length ∧
      (∃ c others, cs.Perm (c :: others) ∧ index.Applicable args c ∧
        (∀ d ∈ others, index.Applicable args d → index.score args d < index.score args c) ∧
        index.choose callOfOne cs.reverse args = .ok c) ∧
      cs.map (index.score args) = [3, 7, 6] := by
  intro index cs args
  have htwo : 2 ≤ cs.length := by decide +kernel
  obtain ⟨c, hc⟩ : ∃ c, (index.choose callOfOne cs args).toOption = some c :=
    Option.isSome_iff_exists.1 (by decide +kernel)
  have hchoose : index.choose callOfOne cs args = .ok c := by
    generalize index.choose callOfOne cs args = chosen at hc
    cases chosen with
    | error e => cases hc
    | ok c' => exact congrArg _ (Option.some.inj hc)
  obtain ⟨hok, -, -, hperm⟩ := @choose_exact index args cs callOfOne htwo
  obtain ⟨others, hothers, happlicable, hbest⟩ := (hok c).1 (by rw [hchoose]; rfl)
  refine ⟨htwo, ⟨c, others, hothers, happlicable, hbest, ?_⟩, by decide +kernel⟩
  rw [hperm _ (List.reverse_perm cs).symm, hchoose]

/-! ## Fixed and variadic candidates -/

theorem fitClass_le {arg param : String} {grade : Nat} (h : index.fitClass arg param = some grade) :
    grade ≤ 3 := by
  simp only [fitClass] at h
  grind

theorem fit_le {arg param : ResolvedType} {grade : Nat} (h : index.fit arg param = some grade) :
    grade ≤ 3 := by
  fun_induction index.fit arg param <;> grind [→ fitClass_le]

theorem fit_self (type : ResolvedType) : index.fit type type = some 3 := by
  rw [fit.eq_def]
  exact if_pos rfl

theorem compatibility_le {arg param : Option ResolvedType} {grade : Nat}
    (h : index.compatibility arg param = some grade) : grade ≤ 3 := by
  unfold compatibility at h
  split at h
  · exact fit_le h
  · cases h
    decide

/-- No argument fits better than one of the type of the parameter. -/
theorem argumentGrade_le {position grade : Nat} {arg : Option ResolvedType}
    (h : index.argumentGrade c position arg = some grade) : grade ≤ 3 := by
  obtain ⟨param, -, h⟩ := Option.bind_eq_some_iff.1 h
  dsimp only at h
  split at h
  · exact compatibility_le h
  · exact compatibility_le h

theorem grades_le (args : List (Option ResolvedType)) (c : Member) :
    index.grades args c ≤ 3 * args.length := by
  have hgrade (g : Nat) (hg : g ∈ args.zipIdx.map fun x => (index.argumentGrade c x.2 x.1).getD 0) :
      g ≤ 3 := by
    obtain ⟨x, -, rfl⟩ := List.mem_map.1 hg
    cases hx : index.argumentGrade c x.2 x.1 with
    | none => exact Nat.zero_le 3
    | some grade => exact argumentGrade_le hx
  have hsum := List.sum_le_card_nsmul _ 3 hgrade
  rwa [List.length_map, List.length_zipIdx, smul_eq_mul, Nat.mul_comm] at hsum

/-- The type of each argument is known and is that of the parameter at its place. -/
def TakesTypes (index : ProjectIndex) (args : List (Option ResolvedType)) (c : Member) : Prop :=
  ∀ x ∈ args.zipIdx, ∃ param type, c.method.params[x.2]? = some param ∧ x.1 = some type ∧
    index.resolveInMember c.owner.qualified param.type c.method.typeParams = .ok type

theorem TakesTypes.argumentGrade_eq (h : index.TakesTypes args c)
    (hfixed : c.method.isVariadic = false) {x : Option ResolvedType × Nat} (hx : x ∈ args.zipIdx) :
    index.argumentGrade c x.2 x.1 = some 3 := by
  obtain ⟨param, type, hparam, harg, htype⟩ := h x hx
  obtain ⟨hlt, -⟩ := List.getElem?_eq_some_iff.1 hparam
  have hcount : ¬fixedCount c.method ≤ x.2 := by
    rw [fixedCount_eq_iff.2 hfixed]
    exact Nat.not_le.2 hlt
  have hlast : min x.2 (c.method.params.length - 1) = x.2 := by omega
  simp [argumentGrade, hlast, hparam, hcount, harg, htype, compatibility, fit_self, Except.toOption]

theorem TakesTypes.applicable (h : index.TakesTypes args c) (hfixed : c.method.isVariadic = false) :
    index.Applicable args c := by
  intro x hx
  rw [h.argumentGrade_eq hfixed hx]
  rfl

theorem TakesTypes.grades_eq (h : index.TakesTypes args c) (hfixed : c.method.isVariadic = false) :
    index.grades args c = 3 * args.length := by
  have hgrades : (args.zipIdx.map fun x => (index.argumentGrade c x.2 x.1).getD 0) =
      List.replicate args.length 3 := by
    rw [List.eq_replicate_iff, List.length_map, List.length_zipIdx]
    refine ⟨rfl, fun g hg => ?_⟩
    obtain ⟨x, hx, rfl⟩ := List.mem_map.1 hg
    rw [h.argumentGrade_eq hfixed hx]
    rfl
  rw [grades, hgrades, List.sum_replicate, smul_eq_mul, Nat.mul_comm]

/-- The point for a fixed number of parameters decides between equal sums of grades only. -/
theorem score_lt_iff {d : Member} : index.score args d < index.score args c ↔
    index.grades args d < index.grades args c ∨ index.grades args d = index.grades args c ∧
      c.method.isVariadic = false ∧ d.method.isVariadic = true := by
  unfold score
  cases c.method.isVariadic <;> cases d.method.isVariadic <;> simp <;> omega

/-- An applicable candidate with a fixed number of parameters is chosen before variadic ones to
whose parameters the arguments fit no better. -/
theorem isVariadic_eq_false_of_choose {call : Tree} (h : 2 ≤ cs.length) (hc : c ∈ cs)
    (hfixed : c.method.isVariadic = false) (happlicable : index.Applicable args c)
    (hbest : ∀ v ∈ cs, v.method.isVariadic = true → index.Applicable args v →
      index.grades args v ≤ index.grades args c)
    {v : Member} (hv : index.choose call cs args = .ok v) : v.method.isVariadic = false := by
  obtain ⟨others, hperm, hfits, hothers⟩ := (choose_eq_ok_iff call h).1 hv
  by_contra hvariadic
  rw [Bool.not_eq_false] at hvariadic
  have hcv : c ≠ v := fun heq => by rw [heq, hvariadic] at hfixed; cases hfixed
  have hlt := hothers c ((List.mem_cons.1 (hperm.mem_iff.1 hc)).resolve_left hcv) happlicable
  have hle := hbest v (hperm.mem_iff.2 List.mem_cons_self) hvariadic hfits
  rcases score_lt_iff.1 hlt with hgrades | ⟨-, hv', -⟩
  · omega
  · rw [hvariadic] at hv'
    cases hv'

/-- **A fixed number of parameters breaks ties.** A candidate is chosen exactly if it is applicable
and the grades of the arguments add up to more than for every other applicable candidate, or to as
much if it has a fixed number of parameters and the other is variadic. So no variadic candidate is
chosen if the arguments fit none of them better than an applicable one with a fixed number of
parameters; this is so if one of these has parameters of the very types of the arguments. -/
theorem fixed_arity_breaks_ties (call : Tree) (h : 2 ≤ cs.length) :
    (∀ c, index.choose call cs args = .ok c ↔
      ∃ others, cs.Perm (c :: others) ∧ index.Applicable args c ∧
      ∀ d ∈ others, index.Applicable args d → index.grades args d < index.grades args c ∨
        index.grades args d = index.grades args c ∧ c.method.isVariadic = false ∧
          d.method.isVariadic = true) ∧
    ∀ c ∈ cs, c.method.isVariadic = false →
      (index.Applicable args c ∧
          (∀ v ∈ cs, v.method.isVariadic = true → index.Applicable args v →
            index.grades args v ≤ index.grades args c) ∨
        index.TakesTypes args c) →
      ∀ v, index.choose call cs args = .ok v → v.method.isVariadic = false := by
  constructor
  · intro c
    simp only [choose_eq_ok_iff call h, score_lt_iff]
  · rintro c hc hfixed (⟨happlicable, hbest⟩ | htypes) v hv
    · exact isVariadic_eq_false_of_choose h hc hfixed happlicable hbest hv
    · refine isVariadic_eq_false_of_choose h hc hfixed (htypes.applicable hfixed)
        (fun v _ _ _ => ?_) hv
      exact (grades_le args v).trans_eq (htypes.grades_eq hfixed).symm

/-- For `m(1)` both `m(int)` and `m(int...)` are best, and the first is chosen. -/
theorem fixed_arity_breaks_ties_threeOverloads :
    let index := build [overloadingFile [objectParameter, intParameter, intsParameter]]
    let cs := index.candidates "A" "m" 1
    let args := [some .int]
    2 ≤ cs.length ∧ cs.map (index.grades args) = [1, 3, 3] ∧
      (∃ c ∈ cs, c.method.isVariadic = false ∧ index.Applicable args c ∧
        ∀ v ∈ cs, v.method.isVariadic = true → index.Applicable args v →
          index.grades args v ≤ index.grades args c) ∧
      ∀ v, index.choose callOfOne cs args = .ok v → v.method.isVariadic = false := by
  intro index cs args
  have htwo : 2 ≤ cs.length := by decide +kernel
  have hfixed : ∃ c ∈ cs, c.method.isVariadic = false ∧ index.Applicable args c ∧
      ∀ v ∈ cs, v.method.isVariadic = true → index.Applicable args v →
        index.grades args v ≤ index.grades args c := by decide +kernel
  refine ⟨htwo, by decide +kernel, hfixed, ?_⟩
  obtain ⟨c, hc, hc', happlicable, hbest⟩ := hfixed
  exact (fixed_arity_breaks_ties callOfOne htwo).2 c hc hc' (.inl ⟨happlicable, hbest⟩)

/-- Of `m(Object)` and `m(int...)` the second is chosen for `m(1)`: it takes the argument as it is,
and the first takes it only when it is boxed. -/
theorem not_fixed_arity_first_boxedArgument :
    let index := build [overloadingFile [objectParameter, intsParameter]]
    let cs := index.candidates "A" "m" 1
    let args := [some .int]
    2 ≤ cs.length ∧ (∀ arg ∈ args, isArray arg = false) ∧
      (∃ c ∈ cs, c.method.isVariadic = false ∧ index.Applicable args c) ∧
      index.resolveCall ((Context.ofFile {}).enterClass "A" []) callOfOne = .ok "A.m(int...)" ∧
      ¬∀ v, index.choose callOfOne cs args = .ok v → v.method.isVariadic = false := by
  intro index cs args
  have hvariadic : (index.choose callOfOne cs args).toOption.any (·.method.isVariadic) = true := by
    decide +kernel
  refine ⟨by decide +kernel, by decide +kernel, by decide +kernel, by decide +kernel, fun h => ?_⟩
  generalize index.choose callOfOne cs args = chosen at h hvariadic
  cases chosen with
  | error e => cases hvariadic
  | ok v =>
    have hv : v.method.isVariadic = true := hvariadic
    rw [h v rfl] at hv
    cases hv

end ProjectIndex

end CodeGraph.Java
