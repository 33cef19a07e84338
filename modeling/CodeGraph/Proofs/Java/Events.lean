import CodeGraph.Proofs.Java.Parts

/-!
# The events of a walk through a body

The walk through a body arrives at trees, declares variables, and enters and leaves scopes, one
after another. `parts` lists what it does at one tree up to arriving at the trees below,
`events` all that it does.

* `visit_eq_parts`, `visit_eq`: the walk does what its events do, and it says what is to be recorded
  at the trees where it arrives.
* `Nested.after_scope`, `Open.inside`: behind a scope the context is what it was before, and up to
  any moment the walk stays in the file and the method.
-/

namespace CodeGraph.Java

/-- One thing that a walk through a body does. -/
inductive Event
  | enter
  | exit
  | declare (name : String) (type : Context → Option ResolvedType)
  /-- Arrive at a tree, which may stand for a value. -/
  | reach (isValue : Bool) (n : Tree)

/-! ## Walks in a row -/

namespace Walk

theorem andThen_assoc (a b c : Walk) : (a.andThen b).andThen c = a.andThen (b.andThen c) := by
  funext ctx
  simp only [andThen, List.append_assoc]

@[simp] theorem skip_andThen (w : Walk) : skip.andThen w = w := rfl

@[simp] theorem andThen_skip (w : Walk) : w.andThen skip = w := by
  funext ctx
  simp only [andThen, skip, List.append_nil]

theorem all_append (a b : List Walk) : all (a ++ b) = (all a).andThen (all b) := by
  induction a with
  | nil => rfl
  | cons w a ih => rw [List.cons_append, all, all, ih, andThen_assoc]

theorem all_flatMap {α : Type} (f : α → List Walk) (l : List α) :
    all (l.flatMap f) = all (l.map fun a => all (f a)) := by
  induction l with
  | nil => rfl
  | cons a l ih => rw [List.flatMap_cons, List.map_cons, all_append, all, ih]

/-- A block is entered, walked and left. -/
theorem block_eq (w : Walk) :
    block w = (update Context.enterBlock).andThen (w.andThen (update Context.exit)) := by
  funext ctx
  simp only [block, within, update, andThen, List.nil_append, List.append_nil]

end Walk

/-! ## What a walk does at one tree -/

section

variable (index : ProjectIndex)

/-- Arrive at the child under a field. -/
def toChild (t : Tree) (field : String) : List Event :=
  (t.child? field).toList.map (.reach (fieldIsValue t field))

/-- Arrive at the named children. -/
def toRoles (t : Tree) : List Event := (roles t).map fun r => .reach r.1 r.2

/-- Declare a variable named by a tree, if it has a name. -/
def declared (name : Option Tree) (type : Context → Option ResolvedType) : List Event :=
  name.toList.map fun n => .declare n.text type

/-- Do something in a scope. -/
def inScope (es : List Event) : List Event := .enter :: (es ++ [.exit])

/-- The type of the variable that a declarator of a local declaration declares. -/
def declaratorType (t d : Tree) (ctx : Context) : Option ResolvedType :=
  localType index ctx ((t.child? "type").bind WrittenType.ofTree?)
    (countDimensions (d.child? "dimensions")) (d.child? "value")

def declaratorParts (t d : Tree) : List Event :=
  match d.child? "name" with
  | none => []
  | some name => toChild d "value" ++ [.declare name.text (declaratorType index t d)]

def lambdaParts (params : Tree) : List Event :=
  if params.kind = "identifier" then declared (some params) fun _ => none
  else params.named.flatMap fun p =>
    if p.kind = "identifier" then declared (some p) fun _ => none
    else if p.kind = "formal_parameter" then declared (p.child? "name") fun ctx =>
      lambdaParamType index ctx p
    else []

def paramParts (params : List ParamDecl) : List Event :=
  params.map fun p => .declare p.name fun ctx => knownType index ctx p.type

/-- The fields of a local class are declared before anything in it is walked. -/
def fieldParts (members : List Tree) : List Event :=
  (members.filter (·.kind == "field_declaration")).flatMap fun m =>
    (fieldDecls m).map fun f => .declare f.name fun ctx => knownType index ctx f.type

def memberParts (m : Tree) : List Event :=
  match m.kind with
  | "method_declaration" | "constructor_declaration" =>
    inScope (((methodDecl? m).elim [] fun decl => paramParts index decl.params) ++ toChild m "body")
  | "field_declaration" => (m.childrenOf "declarator").flatMap (toChild · "value")
  | _ => [.reach false m]

/-- What the walk does at a tree, up to arriving at trees below it. -/
def parts (t : Tree) : List Event :=
  match t.kind with
  | "block" | "constructor_body" | "switch_block" | "switch_block_statement_group"
  | "for_statement" | "try_with_resources_statement" => inScope (toRoles t)
  | "local_variable_declaration" => (t.childrenOf "declarator").flatMap (declaratorParts index t)
  | "enhanced_for_statement" =>
    toChild t "value" ++ inScope
      ((declared (t.child? "name") fun ctx =>
        loopType index ctx ((t.child? "type").bind WrittenType.ofTree?) (t.child? "value")) ++
          toChild t "body")
  | "catch_clause" =>
    inScope (((t.childOfKind? "catch_formal_parameter").elim [] fun p =>
      declared (p.child? "name") fun ctx => caughtType index ctx p) ++ toChild t "body")
  | "resource" =>
    match t.child? "type", t.child? "name" with
    | some type, some name =>
      toChild t "value" ++ [.declare name.text fun ctx =>
        resourceType index ctx type (t.child? "value")]
    | _, _ => toRoles t
  | "lambda_expression" =>
    inScope ((t.child? "parameters").elim [] (lambdaParts index) ++ toChild t "body")
  | "instanceof_expression" =>
    toRoles t ++
      match t.child? "right", t.child? "name" with
      | some type, some name =>
        [.declare name.text fun ctx => (WrittenType.ofTree? type).bind (knownType index ctx)]
      | _, _ => []
  | "class_body" | "interface_body" | "enum_body" =>
    inScope (fieldParts index (bodyMembers t) ++ (bodyMembers t).flatMap (memberParts index))
  | "identifier" => []
  | _ => toRoles t

variable (filter : NamespaceFilter)

/-- What is recorded where the walk arrives. -/
def record (isValue : Bool) (n : Tree) : Walk :=
  if n.kind = "method_invocation" then recordCall index n
  else if n.kind = "identifier" ∧ isValue then recordUse index filter n
  else .skip

/-- Do it; where a tree is reached, walk it. -/
def Event.walk : Event → Walk
  | enter => .update Context.enterBlock
  | exit => .update Context.exit
  | declare name type => .update fun ctx => ctx.declare name (type ctx)
  | reach isValue n => visit index filter isValue n

/-- Walk what is done in a row. -/
def walkAll (es : List Event) : Walk := .all (es.map (Event.walk index filter))

variable {index filter}

@[simp] theorem walkAll_nil : walkAll index filter [] = .skip := rfl

@[simp] theorem walkAll_append (es es' : List Event) :
    walkAll index filter (es ++ es') =
      .andThen (walkAll index filter es) (walkAll index filter es') := by
  rw [walkAll, List.map_append, Walk.all_append]
  rfl

theorem walkAll_flatMap {α : Type} (f : α → List Event) (l : List α) :
    walkAll index filter (l.flatMap f) = .all (l.map fun a => walkAll index filter (f a)) := by
  rw [walkAll, List.map_flatMap, Walk.all_flatMap]
  rfl

@[simp] theorem walkAll_inScope (es : List Event) :
    walkAll index filter (inScope es) = .block (walkAll index filter es) := by
  rw [inScope, Walk.block_eq]
  simp only [walkAll, List.map_cons, List.map_append, List.map_nil, Walk.all, Walk.all_append,
    Walk.andThen_skip]
  rfl

@[simp] theorem walkAll_declare (name : String) (type : Context → Option ResolvedType) :
    walkAll index filter [.declare name type] = .update fun ctx => ctx.declare name (type ctx) := by
  simp only [walkAll, List.map_cons, List.map_nil, Walk.all, Walk.andThen_skip]
  rfl

@[simp] theorem walkAll_reach (isValue : Bool) (n : Tree) :
    walkAll index filter [.reach isValue n] = visit index filter isValue n := by
  simp only [walkAll, List.map_cons, List.map_nil, Walk.all, Walk.andThen_skip]
  rfl

@[simp] theorem walkAll_declared (name : Option Tree) (type : Context → Option ResolvedType) :
    walkAll index filter (declared name type) = Java.declare name type := by
  cases name with
  | none => rfl
  | some n => exact walkAll_declare n.text type

@[simp] theorem walkAll_toRoles (t : Tree) : walkAll index filter (toRoles t) =
    .all ((roles t).attach.map fun r => visit index filter r.1.1 r.1.2) := by
  rw [walkAll, toRoles, List.map_map]
  exact congrArg Walk.all (List.attach_map_val (f :=
    fun r : Bool × Tree => visit index filter r.1 r.2)).symm

@[simp] theorem walkAll_toChild (t : Tree) (field : String) :
    walkAll index filter (toChild t field) = visitChild index filter t field := by
  rw [toChild, visitChild]
  cases t.child? field with
  | none => rfl
  | some c => exact walkAll_reach _ _

theorem match_child?_eq (t : Tree) (field : String) :
    (match _h : t.child? field with
      | none => Walk.skip
      | some c =>
          visit index filter (fieldIsValue t field) c) = visitChild index filter t field := by
  rw [visitChild]
  split
  · rename_i h
    rw [h]
    rfl
  · rename_i c h
    rw [h]
    rfl

@[simp] theorem walkAll_elim {α : Type} (o : Option α) (f : α → List Event) :
    walkAll index filter (o.elim [] f) = o.elim .skip fun a => walkAll index filter (f a) := by
  cases o <;> rfl

@[simp] theorem walkAll_lambdaParts (params : Tree) :
    walkAll index filter (lambdaParts index params) = declareLambda index params := by
  rw [lambdaParts, declareLambda]
  split
  · exact walkAll_declared _ _
  · rw [walkAll_flatMap]
    refine congrArg Walk.all (List.map_congr_left fun p _ => ?_)
    split
    · exact walkAll_declared _ _
    · split
      · exact walkAll_declared _ _
      · rfl

@[simp] theorem walkAll_declaratorParts (t d : Tree) :
    walkAll index filter (declaratorParts index t d) =
    (d.child? "name").elim .skip fun name =>
      (visitChild index filter d "value").andThen
        (declare (some name) (declaratorType index t d)) := by
  rw [declaratorParts]
  cases d.child? "name" with
  | none => rfl
  | some name => simp [declare]

@[simp] theorem walkAll_memberParts (m : Tree) :
    walkAll index filter (memberParts index m) = visitMember index filter m := by
  have hparams (decl : MethodDecl) : walkAll index filter (paramParts index decl.params) =
      declareParams decl.params fun ctx p => knownType index ctx p.type := by
    rw [walkAll, paramParts, List.map_map]
    rfl
  by_cases hkind : m.kind = "method_declaration" ∨ m.kind = "constructor_declaration"
  · unfold memberParts visitMember
    rcases hkind with hkind | hkind
    all_goals
      simp only [hkind, walkAll_inScope, walkAll_append, walkAll_elim, hparams, walkAll_toChild]
      cases methodDecl? m <;> rfl
  by_cases hfield : m.kind = "field_declaration"
  · simp only [memberParts, visitMember, hfield, walkAll_flatMap, walkAll_toChild]
  · obtain ⟨hmethod, hconstructor⟩ := not_or.1 hkind
    have hparts : memberParts index m = [.reach false m] := by
      unfold memberParts
      split <;> first | contradiction | rfl
    have hvisit : visitMember index filter m = visit index filter false m := by
      unfold visitMember
      split <;> first | contradiction | rfl
    rw [hparts, hvisit, walkAll_reach]

theorem walkAll_fieldParts (members : List Tree) :
    walkAll index filter (fieldParts index members) = declareFields index members := by
  rw [walkAll, fieldParts, List.map_flatMap, declareFields]
  simp only [List.map_map]
  rfl

/-- The walk at a tree records what is there and goes through the parts. -/
theorem visit_eq_parts (isValue : Bool) (t : Tree) : visit index filter isValue t =
    .andThen (record index filter isValue t) (walkAll index filter (parts index t)) := by
  by_cases hbody : t.IsLocalBody
  · have hfields : walkAll index filter (fieldParts index (bodyMembers t)) =
        declareFields index (bodyMembers t) :=
      walkAll_fieldParts _
    rw [visit_localBody filter hbody]
    rcases hbody with hkind | hkind | hkind <;>
      simp [record, parts, hkind, hfields, walkAll_flatMap]
  rw [visit]
  split
  case h_1 hkind | h_2 hkind | h_3 hkind | h_4 hkind | h_5 hkind | h_6 hkind =>
    simp [record, parts, hkind]
  case h_7 hkind =>
    simp only [record, parts, hkind, walkAll_flatMap, walkAll_declaratorParts, ← match_child?_eq]
    rw [← List.attach_map_val (l := t.childrenOf "declarator")]
    refine congrArg Walk.all (List.map_congr_left fun d _ => ?_)
    cases d.1.child? "name" <;> rfl
  case h_8 hkind =>
    simp only [record, parts, hkind, walkAll_append, walkAll_inScope, walkAll_declared,
      walkAll_toChild, ← match_child?_eq]
    rfl
  case h_9 hkind =>
    simp only [record, parts, hkind, walkAll_append, walkAll_inScope, walkAll_elim,
      walkAll_declared, walkAll_toChild, ← match_child?_eq]
    cases t.childOfKind? "catch_formal_parameter" <;> rfl
  case h_10 hkind =>
    simp only [record, parts, hkind]
    cases t.child? "type" with
    | none => simp
    | some type =>
      cases t.child? "name" with
      | none => simp
      | some name =>
        simp only [walkAll_append, walkAll_toChild, walkAll_declare, ← match_child?_eq]
        rfl
  case h_11 hkind =>
    simp only [record, parts, hkind, walkAll_append, walkAll_inScope, walkAll_elim,
      walkAll_lambdaParts, walkAll_toChild, ← match_child?_eq]
    cases t.child? "parameters" <;> rfl
  case h_12 hkind =>
    simp only [record, parts, hkind, walkAll_append, walkAll_toRoles]
    cases t.child? "right" with
    | none => rfl
    | some type => cases t.child? "name" <;> simp only [walkAll_declare] <;> rfl
  case h_13 hkind => exact absurd (.inl hkind) hbody
  case h_14 hkind => exact absurd (.inr (.inl hkind)) hbody
  case h_15 hkind => exact absurd (.inr (.inr hkind)) hbody
  case h_16 hkind => simp [record, parts, hkind]
  case h_17 hkind => simp [record, parts, hkind]
  case h_18 hcall hidentifier =>
    have hrecord : record index filter isValue t = .skip := by
      rw [record, if_neg hcall, if_neg fun h => hidentifier h.1]
    rw [hrecord]
    simp [parts, *]

end

/-! ## Nested events -/

/-- Scopes are left in the order in which they are entered, and the trees reached are of a sort. -/
inductive Nested (P : Tree → Prop) : List Event → Prop
  | nil : Nested P []
  | declare {es : List Event} (name : String) (type : Context → Option ResolvedType)
      (h : Nested P es) :
      Nested P (.declare name type :: es)
  | reach {es : List Event} {n : Tree} (isValue : Bool) (hn : P n) (h : Nested P es) :
      Nested P (.reach isValue n :: es)
  | scope {es es' : List Event} (inside : Nested P es) (h : Nested P es') :
      Nested P (.enter :: (es ++ .exit :: es'))

namespace Nested

variable {P : Tree → Prop} {es es' : List Event}

theorem append (h : Nested P es) (h' : Nested P es') : Nested P (es ++ es') := by
  induction h with
  | nil => exact h'
  | declare name type _ ih => exact ih.declare name type
  | reach isValue hn _ ih => exact ih.reach isValue hn
  | scope inside _ _ ih =>
    rw [List.cons_append, List.append_assoc, List.cons_append]
    exact inside.scope ih

theorem inScope (h : Nested P es) : Nested P (inScope es) := h.scope .nil

theorem flatMap {α : Type} {f : α → List Event} {l : List α} (h : ∀ a ∈ l, Nested P (f a)) :
    Nested P (l.flatMap f) := by
  induction l with
  | nil => exact .nil
  | cons a l ih =>
    rw [List.flatMap_cons]
    exact (h a List.mem_cons_self).append (ih fun b hb => h b (List.mem_cons_of_mem a hb))

theorem declares {α : Type} (l : List α) (name : α → String)
    (type : α → Context → Option ResolvedType) :
    Nested P (l.map fun a => .declare (name a) (type a)) := by
  induction l with
  | nil => exact .nil
  | cons a l ih => exact ih.declare _ _

theorem reaches {rs : List (Bool × Tree)} (h : ∀ r ∈ rs, P r.2) :
    Nested P (rs.map fun r => .reach r.1 r.2) := by
  induction rs with
  | nil => exact .nil
  | cons r rs ih =>
    exact .reach _ (h r List.mem_cons_self) (ih fun r' hr' => h r' (List.mem_cons_of_mem r hr'))

theorem mono {Q : Tree → Prop} (h : Nested P es) (hPQ : ∀ n, P n → Q n) : Nested Q es := by
  induction h with
  | nil => exact .nil
  | declare name type _ ih => exact ih.declare name type
  | reach isValue hn _ ih => exact ih.reach isValue (hPQ _ hn)
  | scope _ _ ih ih' => exact ih.scope ih'

theorem of_mem (h : Nested P es) {isValue : Bool} {n : Tree}
    (hn : .reach isValue n ∈ es) : P n := by
  induction h with
  | nil => cases hn
  | declare _ _ _ ih => exact ih (by simpa using hn)
  | reach _ hP _ ih =>
    rcases List.mem_cons.1 hn with heq | hn
    · cases heq
      exact hP
    · exact ih hn
  | scope _ _ ih ih' =>
    simp only [List.mem_cons, List.mem_append, reduceCtorEq, false_or] at hn
    exact hn.elim ih ih'

end Nested

section

variable {index : ProjectIndex} {P : Tree → Prop} {t : Tree}

theorem nested_toChild {field : String} (h : ∀ c, t.child? field = some c → P c) :
    Nested P (toChild t field) := by
  unfold toChild
  cases hc : t.child? field with
  | none => exact .nil
  | some c => exact .reach _ (h c hc) .nil

theorem nested_declared (name : Option Tree) (type : Context → Option ResolvedType) :
    Nested P (declared name type) :=
  .declares name.toList _ _

theorem nested_declaratorParts {q : Tree} (h : ∀ c, q.child? "value" = some c → P c) :
    Nested P (declaratorParts index t q) := by
  unfold declaratorParts
  split
  · exact .nil
  · exact (nested_toChild h).append (.declare _ _ .nil)

theorem nested_lambdaParts (params : Tree) : Nested P (lambdaParts index params) := by
  unfold lambdaParts
  split
  · exact nested_declared _ _
  · refine .flatMap fun p _ => ?_
    split
    · exact nested_declared _ _
    · split
      · exact nested_declared _ _
      · exact .nil

theorem nested_memberParts {m : Tree} (h : ∀ n, n.Within m → P n) :
    Nested P (memberParts index m) := by
  have hchild {d : Tree} (hd : d.Within m) (field : String) : Nested P (toChild d field) :=
    nested_toChild fun c hc => h c (.head (List.mem_of_find?_eq_some hc) hd)
  unfold memberParts
  split
  case h_1 | h_2 =>
    refine .inScope (.append ?_ (hchild .refl _))
    cases methodDecl? m with
    | none => exact .nil
    | some decl => exact .declares _ _ _
  case h_3 => exact .flatMap fun d hd => hchild (Tree.below_of_mem_childrenOf hd).to_reflTransGen _
  case h_4 => exact .reach _ (h m .refl) .nil

/-- What is done at a tree is nested, and it leads to trees below. -/
theorem nested_parts (index : ProjectIndex) (t : Tree) : Nested (·.Below t) (parts index t) := by
  have hroles : Nested (·.Below t) (toRoles t) := .reaches fun r hr => below_of_mem_roles hr
  have hchild (field : String) : Nested (·.Below t) (toChild t field) :=
    nested_toChild fun c hc => Tree.below_of_child? hc
  unfold parts
  split
  case h_1 | h_2 | h_3 | h_4 | h_5 | h_6 => exact hroles.inScope
  case h_7 =>
    refine .flatMap fun d hd => nested_declaratorParts fun c hc => ?_
    exact (Tree.below_of_child? hc).trans (Tree.below_of_mem_childrenOf hd)
  case h_8 => exact (hchild _).append ((nested_declared _ _).append (hchild _)).inScope
  case h_9 =>
    refine .inScope (.append ?_ (hchild _))
    cases t.childOfKind? "catch_formal_parameter" with
    | none => exact .nil
    | some p => exact nested_declared _ _
  case h_10 =>
    split
    · exact (hchild _).append (.declare _ _ .nil)
    · exact hroles
  case h_11 =>
    refine .inScope (.append ?_ (hchild _))
    cases t.child? "parameters" with
    | none => exact .nil
    | some params => exact nested_lambdaParts params
  case h_12 =>
    refine hroles.append ?_
    split
    · exact .declare _ _ .nil
    · exact .nil
  case h_13 | h_14 | h_15 =>
    refine .inScope (.append (.flatMap fun m _ => .declares _ _ _) (.flatMap fun m hm => ?_))
    exact nested_memberParts fun n hn => .trans_right hn (below_of_mem_bodyMembers hm)
  case h_16 => exact .nil
  case h_17 => exact hroles

end

/-! ## All events -/

section

variable (index : ProjectIndex)

/-- All that a walk does, from arriving at a tree on. -/
def events (isValue : Bool) (t : Tree) : List Event :=
  .reach isValue t :: (parts index t).attach.flatMap fun ⟨e, _h⟩ =>
    match e with
    | .reach v n => events v n
    | e => [e]
termination_by t.size
decreasing_by exact ((nested_parts index t).of_mem _h).size_lt

/-- What becomes of an event when what is done at the trees reached is listed, too. -/
def Event.inFull : Event → List Event
  | .reach v n => events index v n
  | e => [e]

theorem events_eq (isValue : Bool) (t : Tree) :
    events index isValue t = .reach isValue t :: (parts index t).flatMap (Event.inFull index) := by
  rw [events]
  refine congrArg _ ?_
  rw [List.flatMap_def, List.flatMap_def, ← List.attach_map_val (l := parts index t) (f :=
    Event.inFull index)]
  refine congrArg List.flatten (List.map_congr_left fun e _ => ?_)
  obtain ⟨e, _⟩ := e
  cases e <;> rfl

variable {index}

theorem Nested.inFull {P Q : Tree → Prop} {es : List Event} (h : Nested P es)
    (hP : ∀ v n, P n → Nested Q (events index v n)) :
    Nested Q (es.flatMap (Event.inFull index)) := by
  induction h with
  | nil => exact .nil
  | declare name type _ ih => exact ih.declare name type
  | reach v hn _ ih => exact (hP v _ hn).append ih
  | scope _ _ ih ih' =>
    rw [List.flatMap_cons, List.flatMap_append, List.flatMap_cons]
    exact ih.scope ih'

/-- The events of a walk are nested, and they stay within the tree. -/
theorem nested_events (isValue : Bool) (t : Tree) :
    Nested (·.Within t) (events index isValue t) := by
  induction hsize : t.size using Nat.strongRecOn generalizing t isValue with
  | _ size ih =>
    subst hsize
    rw [events_eq]
    refine .reach isValue .refl ((nested_parts index t).inFull fun v n hn => ?_)
    exact (ih n.size hn.size_lt v n rfl).mono fun c hc => hc.trans hn.to_reflTransGen

end

/-! ## What is done and said -/

section

variable (index : ProjectIndex) (filter : NamespaceFilter)

namespace Event

/-- How an event changes the context. -/
def apply : Event → Context → Context
  | enter, ctx => ctx.enterBlock
  | exit, ctx => ctx.exit
  | declare name type, ctx => ctx.declare name (type ctx)
  | reach _ _, ctx => ctx

/-- Do it; where a tree is reached, record what is there. -/
def step : Event → Walk
  | reach isValue n => record index filter isValue n
  | e => .update e.apply

end Event

/-- The context after events. -/
def after (es : List Event) (ctx : Context) : Context := es.foldl (fun ctx e => e.apply ctx) ctx

/-- What is said at the trees reached, each time in the context of that moment. -/
def said : List Event → Context → List Step
  | [], _ => []
  | .reach isValue n :: es, ctx => (record index filter isValue n ctx).2 ++ said es ctx
  | e :: es, ctx => said es (e.apply ctx)

variable {index filter}

theorem restores_record (isValue : Bool) (n : Tree) : (record index filter isValue n).Restores := by
  unfold record
  split
  · exact restores_recordCall n
  · split
    · exact restores_recordUse n
    · exact Walk.restores_skip

theorem all_step_eq (es : List Event) (ctx : Context) :
    Walk.all (es.map (Event.step index filter)) ctx = (after es ctx, said index filter es ctx) := by
  induction es generalizing ctx with
  | nil => rfl
  | cons e es ih =>
    rw [List.map_cons, Walk.all, Walk.andThen]
    cases e with
    | reach isValue n =>
      simp only [Event.step, restores_record isValue n ctx, ih]
      rfl
    | _ =>
      simp only [Event.step, Walk.update, ih]
      rfl

theorem visit_eq_all (isValue : Bool) (t : Tree) :
    visit index filter isValue t =
      .all ((events index isValue t).map (Event.step index filter)) := by
  induction hsize : t.size using Nat.strongRecOn generalizing t isValue with
  | _ size ih =>
    subst hsize
    rw [visit_eq_parts, events_eq, List.map_cons, Walk.all, List.map_flatMap,
      Walk.all_flatMap, walkAll]
    refine congrArg (Walk.andThen _) (congrArg Walk.all (List.map_congr_left fun e he => ?_))
    cases e with
    | reach v n => exact ih n.size ((nested_parts index t).of_mem he).size_lt v n rfl
    | _ => exact (Walk.andThen_skip _).symm

/-- **A walk does what its events do** and says what they say. -/
theorem visit_eq (isValue : Bool) (t : Tree) (ctx : Context) : visit index filter isValue t ctx =
    (after (events index isValue t) ctx, said index filter (events index isValue t) ctx) := by
  rw [visit_eq_all, all_step_eq]

end

/-! ## Contexts along the way -/

section

variable {index : ProjectIndex} {filter : NamespaceFilter} {P : Tree → Prop} {es : List Event}

theorem after_append (es es' : List Event) (ctx : Context) :
    after (es ++ es') ctx = after es' (after es ctx) :=
  List.foldl_append

/-- Nested events only declare variables. -/
theorem Nested.after_eq (h : Nested P es) (ctx : Context) :
    ∃ locals, after es ctx = ctx.withLocals locals := by
  induction h generalizing ctx with
  | nil => exact ⟨[], by rw [Context.withLocals, List.append_nil]; rfl⟩
  | declare name type _ ih =>
    obtain ⟨locals, hlocals⟩ := ih (ctx.declare name (type ctx))
    refine ⟨⟨name, type ctx⟩ :: locals, hlocals.trans ?_⟩
    simp [Context.withLocals, Context.declare]
  | reach _ _ _ ih => exact ih ctx
  | @scope es es' _ _ ih ih' =>
    obtain ⟨locals, hlocals⟩ := ih ctx.enterBlock
    obtain ⟨locals', hlocals'⟩ := ih' ctx
    refine ⟨locals', ?_⟩
    change after (es ++ .exit :: es') ctx.enterBlock = _
    rw [after_append, hlocals, ← hlocals']
    exact congrArg (after es') (ctx.exit_enterBlock locals)

/-- Behind a scope all is as it was before. -/
theorem Nested.after_scope (h : Nested P es) (es' : List Event) (ctx : Context) :
    after (.enter :: (es ++ .exit :: es')) ctx = after es' ctx := by
  obtain ⟨locals, hlocals⟩ := h.after_eq ctx.enterBlock
  change after (es ++ .exit :: es') ctx.enterBlock = _
  rw [after_append, hlocals]
  exact congrArg (after es') (ctx.exit_enterBlock locals)

/-- Events that leave no scope but those that they enter. -/
inductive Open : List Event → Prop
  | nil : Open []
  | declare {es : List Event} (name : String) (type : Context → Option ResolvedType) (h : Open es) :
      Open (.declare name type :: es)
  | reach {es : List Event} (isValue : Bool) (n : Tree) (h : Open es) :
      Open (.reach isValue n :: es)
  | enter {es : List Event} (h : Open es) : Open (.enter :: es)
  | scope {P : Tree → Prop} {es es' : List Event} (inside : Nested P es) (h : Open es') :
      Open (.enter :: (es ++ .exit :: es'))

theorem Nested.open_of_prefix (h : Nested P es) {start : List Event} (hstart : start <+: es) :
    Open start := by
  induction h generalizing start with
  | nil =>
    rw [List.prefix_nil.1 hstart]
    exact .nil
  | declare name type _ ih =>
    rcases List.prefix_cons_iff.1 hstart with rfl | ⟨rest, rfl, hrest⟩
    · exact .nil
    · exact (ih hrest).declare name type
  | reach isValue _ _ ih =>
    rcases List.prefix_cons_iff.1 hstart with rfl | ⟨rest, rfl, hrest⟩
    · exact .nil
    · exact (ih hrest).reach isValue _
  | scope inside _ ih ih' =>
    rcases List.prefix_cons_iff.1 hstart with rfl | ⟨rest, rfl, hrest⟩
    · exact .nil
    · obtain ⟨left, hleft⟩ := hrest
      rcases List.append_eq_append_iff.1 hleft with ⟨more, hinside, -⟩ | ⟨behind, rfl, hbehind⟩
      · exact (ih ⟨more, hinside.symm⟩).enter
      · rcases List.prefix_cons_iff.1 ⟨left, hbehind.symm⟩ with rfl | ⟨further, rfl, hfurther⟩
        · rw [List.append_nil]
          exact (ih List.prefix_rfl).enter
        · exact .scope inside (ih' hfurther)

/-- Within a body the file and the method stay the same. -/
theorem Open.inside (h : Open es) (ctx : Context) :
    (after es ctx).file = ctx.file ∧
    (after es ctx).currentExecutable? = ctx.currentExecutable? := by
  induction h generalizing ctx with
  | nil => exact ⟨rfl, rfl⟩
  | declare name type _ ih => exact ih (ctx.declare name (type ctx))
  | reach _ _ _ ih => exact ih ctx
  | enter _ ih => exact ih ctx.enterBlock
  | scope hinside _ ih =>
    rw [hinside.after_scope]
    exact ih ctx

/-- What is said is said at some tree, in the context of that moment. -/
theorem exists_of_mem_said {s : Step} {ctx : Context} (hs : s ∈ said index filter es ctx) :
    ∃ before isValue n rest, es = before ++ .reach isValue n :: rest ∧
      s ∈ (record index filter isValue n (after before ctx)).2 := by
  induction es generalizing ctx with
  | nil => cases hs
  | cons e es ih =>
    have hlater {ctx : Context} (hs : s ∈ said index filter es (e.apply ctx)) :
        ∃ before isValue n rest, e :: es = before ++ .reach isValue n :: rest ∧
          s ∈ (record index filter isValue n (after before ctx)).2 := by
      obtain ⟨before, isValue, n, rest, rfl, hrecord⟩ := ih hs
      exact ⟨e :: before, isValue, n, rest, rfl, hrecord⟩
    cases e with
    | reach isValue n =>
      rcases List.mem_append.1 hs with hs | hs
      · exact ⟨[], isValue, n, es, rfl, hs⟩
      · exact hlater hs
    | _ => exact hlater hs

end

end CodeGraph.Java
