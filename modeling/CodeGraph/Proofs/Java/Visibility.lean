import CodeGraph.Proofs.Java.Bodies
import CodeGraph.Proofs.Java.Events

/-!
# How long a local variable is visible

A local variable that is declared in a scope is what its name means up to the end of the scope,
unless the name is declared again meanwhile, and behind the scope all is as it was before.

* `local?_after`: a name keeps its meaning until it is declared again or its scope is left.
* `events_of_reach`: where the walk arrives at a tree, the events of the tree follow.
* `local_visibility`: how long the variables of blocks and of the groups in a switch are visible.

The groups of statements in a switch are scopes of their own, so a variable of one of them is not
visible in the next one (`not_visible_in_next_group`).
-/

namespace CodeGraph.Java

variable {index : ProjectIndex} {filter : NamespaceFilter} {es es' : List Event} {ctx : Context}
  {name : String} {type : Context → Option ResolvedType} {P : Tree → Prop} {b t d q : Tree}
  {v : Bool}

/-! ## What events do to names -/

/-- The events declare the name in a scope that they do not leave. -/
def Redeclares (name : String) (es : List Event) : Prop :=
  ∃ before type rest, es = before ++ .declare name type :: rest ∧ Open rest

theorem Redeclares.append_left (es : List Event) (h : Redeclares name es') :
    Redeclares name (es ++ es') := by
  obtain ⟨before, type, rest, rfl, hrest⟩ := h
  exact ⟨es ++ before, type, rest, (List.append_assoc _ _ _).symm, hrest⟩

theorem Context.local?_declare_self (ctx : Context) (name : String) (type : Option ResolvedType) :
    (ctx.declare name type).local? name = some ⟨name, type⟩ := by
  simp [Context.local?, Context.declare]

theorem Context.local?_declare_of_ne {other : String} (h : other ≠ name) (ctx : Context)
    (type : Option ResolvedType) :
    (ctx.declare other type).local? name = ctx.local? name := by
  simp [Context.local?, Context.declare, h]

/-- **A name keeps its meaning** until it is declared again or its scope is left. -/
theorem local?_after (h : Open es) (hname : ¬Redeclares name es) (ctx : Context) :
    (after es ctx).local? name = ctx.local? name := by
  induction h generalizing ctx with
  | nil => rfl
  | @declare es other type hes ih =>
    have hne : other ≠ name := by
      rintro rfl
      exact hname ⟨[], type, es, rfl, hes⟩
    exact (ih (fun hes => hname (hes.append_left [_])) _).trans (ctx.local?_declare_of_ne hne _)
  | reach _ _ _ ih => exact ih (fun hes => hname (hes.append_left [_])) ctx
  | enter _ ih => exact ih (fun hes => hname (hes.append_left [_])) ctx.enterBlock
  | @scope _ inside es hinside _ ih =>
    have hsplit : .enter :: (inside ++ .exit :: es) = .enter :: (inside ++ [.exit]) ++ es := by simp
    rw [hinside.after_scope]
    exact ih (fun hes => hname (hsplit ▸ hes.append_left _)) ctx

/-- Wherever a tree is reached, the name is found to mean the variable, if it was
not declared again before. -/
def Finds (name : String) (found : Option Local) (ctx : Context) (es : List Event) : Prop :=
  ∀ before isValue n rest, es = before ++ .reach isValue n :: rest → ¬Redeclares name before →
    (after before ctx).local? name = found

theorem Nested.finds (h : Nested P es) (name : String) (ctx : Context) :
    Finds name (ctx.local? name) ctx es :=
  fun _ _ _ _ hes hname => local?_after (h.open_of_prefix ⟨_, hes.symm⟩) hname ctx

/-! ## Where the walk arrives -/

theorem exists_of_flatMap_eq_append {α β : Type} {f : α → List β} {l : List α}
    {before rest : List β} {x : β} (h : l.flatMap f = before ++ x :: rest) :
    ∃ front a back p r, l = front ++ a :: back ∧ f a = p ++ x :: r ∧
      before = front.flatMap f ++ p := by
  induction l generalizing before with
  | nil => simp at h
  | cons a l ih =>
    rw [List.flatMap_cons, List.append_eq_append_iff] at h
    rcases h with ⟨later, rfl, hlater⟩ | ⟨later, ha, hlater⟩
    · obtain ⟨front, c, back, p, r, rfl, hc, rfl⟩ := ih hlater
      exact ⟨a :: front, c, back, p, r, rfl, hc, by rw [List.flatMap_cons, List.append_assoc]⟩
    · cases later with
      | nil =>
        have hrest : l.flatMap f = [] ++ x :: rest := hlater.symm
        obtain ⟨front, c, back, p, r, rfl, hc, hbefore⟩ := ih hrest
        refine ⟨a :: front, c, back, p, r, rfl, hc, ?_⟩
        rw [List.flatMap_cons, List.append_assoc, ← hbefore, ha]
        simp
      | cons y later =>
        cases hlater
        exact ⟨[], a, l, before, later, rfl, ha, rfl⟩

/-- **Where the walk arrives at a tree, the events of the tree follow.** -/
theorem events_of_reach {isValue : Bool} {before rest : List Event} {n : Tree}
    (h : events index isValue b = before ++ .reach v n :: rest) :
    ∃ behind, events index isValue b = before ++ events index v n ++ behind := by
  induction hsize : b.size using Nat.strongRecOn generalizing b isValue before rest with
  | _ size ih =>
    subst hsize
    rw [events_eq] at h
    cases before with
    | nil =>
      cases h
      exact ⟨[], (List.append_nil _).symm⟩
    | cons e before =>
      obtain ⟨rfl, hrest⟩ := List.cons.inj h
      obtain ⟨front, e, back, p, r, hparts, he, rfl⟩ := exists_of_flatMap_eq_append hrest
      have hmem : e ∈ parts index b := hparts ▸ List.mem_append_right front List.mem_cons_self
      cases e with
      | reach v' c =>
        obtain ⟨behind, hbehind⟩ := ih c.size ((nested_parts index b).of_mem hmem).size_lt he rfl
        refine ⟨behind ++ back.flatMap (Event.inFull index), ?_⟩
        rw [events_eq, hparts, List.flatMap_append, List.flatMap_cons]
        change _ :: (_ ++ (events index v' c ++ _)) = _
        simp [hbehind]
      | _ => cases p <;> simp [Event.inFull] at he

/-! ## Scopes and what is declared in them -/

/-- The named children are walked one after another in a scope of their own. -/
def Tree.IsScope (t : Tree) : Prop :=
  t.kind ∈ ["block", "constructor_body", "switch_block", "switch_block_statement_group",
    "for_statement", "try_with_resources_statement"]

instance : Decidable t.IsScope := inferInstanceAs (Decidable (_ ∈ _))

theorem events_of_isScope (ht : t.IsScope) (v : Bool) :
    events index v t = .reach v t :: .enter ::
      (t.named.flatMap (events index false) ++ [.exit]) := by
  obtain ⟨hparts, hrole⟩ : parts index t = inScope (toRoles t) ∧ valueRole t.kind = .never := by
    simp only [Tree.IsScope, List.mem_cons, List.not_mem_nil, or_false] at ht
    rcases ht with hkind | hkind | hkind | hkind | hkind | hkind <;>
      exact ⟨by simp only [parts, hkind], by rw [hkind]; decide⟩
  have hroles : roles t = t.named.map (false, ·) := by simp only [roles, hrole]
  rw [events_eq, hparts, inScope, toRoles, hroles, List.map_map, List.flatMap_cons,
    List.flatMap_append, List.flatMap_map]
  rfl

/-- What is done at a declarator of a local declaration. -/
def declaratorEvents (index : ProjectIndex) (d q : Tree) : List Event :=
  (declaratorParts index d q).flatMap (Event.inFull index)

theorem events_of_localDeclaration (hd : d.kind = "local_variable_declaration") (v : Bool) :
    events index v d = .reach v d ::
      (d.childrenOf "declarator").flatMap (declaratorEvents index d) := by
  rw [events_eq, parts]
  simp only [hd, List.flatMap_assoc]
  rfl

/-- What is done in a scope behind a declarator: at further declarators of its declaration
and at further statements. -/
def behindDeclarator (index : ProjectIndex) (d : Tree) (declarators statements : List Tree) :
    List Event :=
  declarators.flatMap (declaratorEvents index d) ++ statements.flatMap (events index false)

theorem nested_statements (statements : List Tree) :
    Nested (fun _ => True) (statements.flatMap (events index false)) :=
  .flatMap fun n _ => (nested_events false n).mono fun _ _ => trivial

theorem nested_behindDeclarator (index : ProjectIndex) (d : Tree)
    (declarators statements : List Tree) :
    Nested (fun _ => True) (behindDeclarator index d declarators statements) := by
  refine .append (.flatMap fun q _ => ?_) (nested_statements statements)
  have hparts : Nested (fun _ => True) (declaratorParts index d q) :=
    nested_declaratorParts fun _ _ => trivial
  exact hparts.inFull fun v n _ => (nested_events v n).mono fun _ _ => trivial

/-- A variable that is declared among the statements of a scope is declared before
all that is done behind it. -/
theorem exists_events_eq_of_declarator (index : ProjectIndex) (ht : t.IsScope) (v : Bool)
    {front back qs qs' : List Tree} {x : Tree}
    (hstatements : t.named = front ++ d :: back) (hd : d.kind = "local_variable_declaration")
    (hdeclarators : d.childrenOf "declarator" = qs ++ q :: qs') (hx : q.child? "name" = some x) :
    ∃ inside, events index v t =
      inside ++ .declare x.text (declaratorType index d q) ::
        (behindDeclarator index d qs' back ++ [.exit]) := by
  have hq : declaratorEvents index d q = (toChild q "value").flatMap (Event.inFull index) ++
      [.declare x.text (declaratorType index d q)] := by
    rw [declaratorEvents, declaratorParts]
    simp only [hx, List.flatMap_append]
    rfl
  refine ⟨.reach v t :: .enter :: (front.flatMap (events index false) ++ .reach false d ::
    (qs.flatMap (declaratorEvents index d) ++ (toChild q "value").flatMap (Event.inFull index))),
    ?_⟩
  rw [events_of_isScope ht, hstatements, List.flatMap_append, List.flatMap_cons,
    events_of_localDeclaration hd, hdeclarators, List.flatMap_append, List.flatMap_cons, hq,
    behindDeclarator]
  simp

/-! ## Variables by their places -/

/-- The name of a variable that is declared. -/
def Event.declared? : Event → Option String
  | .declare name _ => some name
  | _ => none

/-- The name of a variable that is used. -/
def Event.used? : Event → Option String
  | .reach true n => if n.kind = "identifier" then some n.text else none
  | _ => none

theorem Redeclares.mem_filterMap (h : Redeclares name es) :
    name ∈ es.filterMap Event.declared? := by
  obtain ⟨before, type, rest, rfl, -⟩ := h
  exact List.mem_filterMap.2 ⟨_, List.mem_append_right before List.mem_cons_self, rfl⟩

theorem eq_take_append_cons_drop {e : Event} {i : Nat} (h : es[i]? = some e) :
    es = es.take i ++ e :: es.drop (i + 1) := by
  obtain ⟨hi, rfl⟩ := List.getElem?_eq_some_iff.1 h
  rw [← List.drop_eq_getElem_cons hi, List.take_append_drop]

theorem exists_getElem?_declare {i : Nat} (h : es[i]?.bind Event.declared? = some name) :
    ∃ type, es[i]? = some (.declare name type) := by
  obtain ⟨e, he, hname⟩ := Option.bind_eq_some_iff.1 h
  cases e <;> cases hname
  exact ⟨_, he⟩

theorem exists_getElem?_use {i : Nat} (h : es[i]?.bind Event.used? = some name) :
    ∃ n, es[i]? = some (.reach true n) ∧ n.kind = "identifier" ∧ n.text = name := by
  obtain ⟨e, he, hname⟩ := Option.bind_eq_some_iff.1 h
  cases e with
  | reach isValue n =>
    cases isValue with
    | false => cases hname
    | true =>
      obtain ⟨hkind, htext⟩ := Option.ite_none_right_eq_some.1 hname
      exact ⟨n, he, hkind, Option.some.inj htext⟩
  | _ => cases hname

/-! ## Local variables -/

/-- **A local variable is visible up to the end of its scope,** and behind the scope all is as it
was before. In a switch this holds of each group of statements, so behind a group the names mean
what they meant before it. -/
theorem local_visibility (index : ProjectIndex) (filter : NamespaceFilter) (isValue : Bool)
    (b : Tree) (start : Context) :
    visit index filter isValue b start =
        (after (events index isValue b) start, said index filter (events index isValue b) start) ∧
    (∀ before v n rest, events index isValue b = before ++ .reach v n :: rest →
      ∃ behind, events index isValue b = before ++ events index v n ++ behind) ∧
    ∀ before v t behind, events index isValue b = before ++ events index v t ++ behind →
      (t.IsScope → after (before ++ events index v t) start = after before start ∧
        ∀ front d back qs q qs' x, t.named = front ++ d :: back →
          d.kind = "local_variable_declaration" →
          d.childrenOf "declarator" = qs ++ q :: qs' → q.child? "name" = some x →
          let type := declaratorType index d q
          ∃ inside, events index v t =
              inside ++ .declare x.text type :: (behindDeclarator index d qs' back ++ [.exit]) ∧
            let here := after (before ++ inside) start
            Finds x.text (some ⟨x.text, type here⟩) (here.declare x.text (type here))
              (behindDeclarator index d qs' back)) ∧
      (t.kind = "switch_block" → ∀ front g back, t.named = front ++ g :: back →
        g.kind = "switch_block_statement_group" →
        ∃ inside, events index v t =
            inside ++ events index false g ++ (back.flatMap (events index false) ++ [.exit]) ∧
          let here := after (before ++ inside) start
          after (events index false g) here = here ∧
            ∀ name, Finds name (here.local? name) here (back.flatMap (events index false))) := by
  have hafter {v : Bool} {t : Tree} (ht : t.IsScope) (ctx : Context) :
      after (events index v t) ctx = ctx := by
    rw [events_of_isScope ht]
    exact (nested_statements t.named).after_scope [] _
  refine ⟨visit_eq isValue b start, fun before v n rest h => events_of_reach h,
    fun before v t behind _ => ⟨fun ht => ⟨?_, ?_⟩, ?_⟩⟩
  · rw [after_append, hafter ht]
  · intro front d back qs q qs' x hstatements hd hdeclarators hx type
    obtain ⟨inside, hinside⟩ :=
      exists_events_eq_of_declarator index ht v hstatements hd hdeclarators hx
    refine ⟨inside, hinside, ?_⟩
    intro here
    rw [← here.local?_declare_self]
    exact (nested_behindDeclarator index d qs' back).finds x.text _
  · intro hkind front g back hgroups hg
    have ht : t.IsScope := by
      rw [Tree.IsScope, hkind]
      decide
    have hgroup : g.IsScope := by
      rw [Tree.IsScope, hg]
      decide
    refine ⟨.reach v t :: .enter :: front.flatMap (events index false), ?_, hafter hgroup _,
      fun name => (nested_statements back).finds name _⟩
    rw [events_of_isScope ht, hgroups, List.flatMap_append, List.flatMap_cons]
    simp

def declaratorOfW : Tree :=
  .mk "variable_declarator" true "declarator" "w" 1 1 [.mk "identifier" true "name" "w" 1 1 []]

/-- `T w;` -/
def declarationOfW : Tree :=
  .mk "local_variable_declaration" true "" "T w;" 1 1 [.mk "type_identifier" true "type" "T" 1 1 [],
    declaratorOfW]

/-- `w.go();` -/
def callOnW : Tree :=
  .mk "expression_statement" true "" "w.go();" 1 1
    [.mk "method_invocation" true "" "w.go()" 1 1
      [.mk "identifier" true "object" "w" 1 1 [], .mk "identifier" true "name" "go" 1 1 [],
       .mk "argument_list" true "arguments" "()" 1 1 []]]

/-- `while (true) { w.go(); }` -/
def loopOnW : Tree :=
  .mk "while_statement" true "" "" 1 1
    [.mk "parenthesized_expression" true "condition" "(true)" 1 1
      [.mk "true" true "" "true" 1 1 []],
     .mk "block" true "body" "" 1 1 [callOnW]]

/-- `{ T w; while (true) { w.go(); } }` -/
def loopInBlock : Tree := .mk "block" true "body" "" 1 1 [declarationOfW, loopOnW]

/-- `{ case 1: T w; default: w = p; w.go(); }` -/
def fallThrough : Tree :=
  .mk "switch_block" true "body" "" 1 1
    [.mk "switch_block_statement_group" true "" "" 1 1 [.mk "switch_label" true "" "case 1" 1 1 [],
      declarationOfW],
     .mk "switch_block_statement_group" true "" "" 1 1
      [.mk "switch_label" true "" "default" 1 1 [],
       .mk "expression_statement" true "" "w = p;" 1 1
        [.mk "assignment_expression" true "" "w = p" 1 1
          [.mk "identifier" true "left" "w" 1 1 [], .mk "identifier" true "right" "p" 1 1 []]],
       callOnW]]

/-- `class T { void go() {} void m(T p, int k) { switch (k) { case 1: T w; default: w = p; w.go(); }
} }` -/
def fallThroughFile : SourceFile where
  path := "/p/T.java"
  root := .mk "program" true "" "" 1 1
    [.mk "class_declaration" true "" "" 1 1
      [.mk "identifier" true "name" "T" 1 1 [],
       .mk "class_body" true "body" "" 1 1
        [.mk "method_declaration" true "" "" 1 1
          [.mk "void_type" true "type" "void" 1 1 [], .mk "identifier" true "name" "go" 1 1 [],
           .mk "formal_parameters" true "parameters" "()" 1 1 [],
           .mk "block" true "body" "{}" 1 1 []],
         .mk "method_declaration" true "" "" 1 1
          [.mk "void_type" true "type" "void" 1 1 [], .mk "identifier" true "name" "m" 1 1 [],
           .mk "formal_parameters" true "parameters" "" 1 1
            [.mk "formal_parameter" true "" "T p" 1 1
              [.mk "type_identifier" true "type" "T" 1 1 [],
                .mk "identifier" true "name" "p" 1 1 []],
             .mk "formal_parameter" true "" "int k" 1 1
              [.mk "integral_type" true "type" "int" 1 1 [],
                .mk "identifier" true "name" "k" 1 1 []]],
           .mk "block" true "body" "" 1 1
            [.mk "switch_expression" true "" "" 1 1
              [.mk "parenthesized_expression" true "condition" "(k)" 1 1
                [.mk "identifier" true "" "k" 1 1 []],
               fallThrough]]]]]]

/-- The variable of a block is visible in a loop. -/
theorem local_visibility_loopInBlock :
    let index := ProjectIndex.build [fallThroughFile]
    let start := (Context.ofFile {}).enterClass "T" []
    ∃ inside type between n rest,
      events index false loopInBlock = inside ++
        .declare "w" type :: (between ++ .reach true n :: rest) ∧
      n.kind = "identifier" ∧ n.text = "w" ∧ ¬Redeclares "w" between ∧
      (after (inside ++ .declare "w" type :: between) start).local? "w" =
        some ⟨"w", type (after inside start)⟩ := by
  intro index start
  obtain ⟨-, -, hblocks⟩ := local_visibility index ⟨[]⟩ false loopInBlock start
  obtain ⟨inside, hinside, hvisible⟩ :=
    ((hblocks [] false loopInBlock [] (List.append_nil _).symm).1 (by decide)).2
    [] declarationOfW [loopOnW] [] declaratorOfW [] _ rfl rfl rfl rfl
  let es := behindDeclarator index declarationOfW [] [loopOnW]
  obtain ⟨n, huse, hkind, htext⟩ :=
    exists_getElem?_use (show es[7]?.bind Event.used? = some "w" by decide +kernel)
  have hnew : "w" ∉ (es.take 7).filterMap Event.declared? := by decide +kernel
  have hbehind := eq_take_append_cons_drop huse
  refine ⟨inside, declaratorType index declarationOfW declaratorOfW, es.take 7, n,
    es.drop 8 ++ [.exit], ?_, hkind, htext, fun h => hnew h.mem_filterMap, ?_⟩
  · refine hinside.trans (congrArg (inside ++ ·) (congrArg (_ :: ·) ?_))
    exact (congrArg (· ++ [Event.exit]) hbehind).trans (List.append_assoc _ _ _)
  · rw [after_append]
    exact hvisible _ true n _ hbehind fun h => hnew h.mem_filterMap

/-- The variable of a group in a switch has no meaning in the next group, so the assignment, the
call and its receiver are reported and no call is recorded. -/
theorem not_visible_in_next_group :
    let index := ProjectIndex.build [fallThroughFile]
    let start := ((Context.ofFile {}).enterClass "T" []).enterExecutable ⟨"T.m(T,int)", false⟩ []
    (∃ g ∈ fallThrough.named, g.kind = "switch_block_statement_group" ∧ declarationOfW ∈ g.named) ∧
    (∃ inside type between n rest,
      events index false fallThrough = inside ++
        .declare "w" type :: (between ++ .reach true n :: rest) ∧
      n.kind = "identifier" ∧ n.text = "w" ∧ ¬Redeclares "w" between ∧
      (after (inside ++ .declare "w" type :: between) start).local? "w" = none) ∧
    (diagnosticsAll (extract index ⟨[]⟩ fallThroughFile)).map (·.what) =
      List.replicate 3 ⟨"w", .notVariable⟩ := by
  intro index start
  refine ⟨⟨_, List.mem_cons_self, rfl, List.mem_cons_of_mem _ List.mem_cons_self⟩, ?_,
    by decide +kernel⟩
  let es := events index false fallThrough
  obtain ⟨type, hdeclare⟩ :=
    exists_getElem?_declare (show es[6]?.bind Event.declared? = some "w" by decide +kernel)
  obtain ⟨n, huse, hkind, htext⟩ := exists_getElem?_use
    (show (es.drop 7)[10]?.bind Event.used? = some "w" by decide +kernel)
  have hnew : "w" ∉ ((es.drop 7).take 10).filterMap Event.declared? := by decide +kernel
  have hnone : (after (es.take 17) start).local? "w" = none := by decide +kernel
  have htake : es.take 17 = es.take 6 ++ .declare "w" type :: (es.drop 7).take 10 := by
    rw [List.take_add (i := 7) (j := 10), List.take_add_one, hdeclare, List.append_assoc]
    rfl
  refine ⟨_, type, _, n, _, (eq_take_append_cons_drop hdeclare).trans (congrArg _ (congrArg _
    (eq_take_append_cons_drop huse))), hkind, htext, fun h => hnew h.mem_filterMap, ?_⟩
  rwa [← htake]

end CodeGraph.Java
