import CodeGraph.Java.Extraction
import CodeGraph.Proofs.Java.Selection
import Mathlib.Logic.Relation

/-!
# What walks say

Every stretch of a walk leaves the context as it was, except for variables declared on the way, and
says only steps of a known sort, given the file and the method around it (`Walk.Keeps`). Each way to
combine walks keeps this, so it holds of the walk through a method body, whatever the body is:

* `visit_keeps`: a body records calls and uses of the method around it, and a recorded call leads to
  a callable method of an indexed type (`ProjectIndex.IsCallee`).
-/

namespace CodeGraph.Java

/-! ## Callees -/

namespace ProjectIndex

variable {index : ProjectIndex}

/-- A method, no constructor, of a type that the index holds. -/
def IsCallable (index : ProjectIndex) (member : Member) : Prop :=
  (∃ type, index.get? type = some member.owner) ∧ member.method ∈ member.owner.methods ∧
    member.method.isConstructor = false

/-- The signature of such a method. -/
def IsCallee (index : ProjectIndex) (signature : String) : Prop :=
  ∃ member, index.IsCallable member ∧
    index.signature member.owner.qualified member.method = .ok signature

theorem mem_callable_iff {name type : String} {arity : Nat} {member : Member} :
    member ∈ index.callable name arity type ↔
      index.get? type = some member.owner ∧ member.method ∈ member.owner.methods ∧
        member.method.isConstructor = false ∧ member.method.name = name ∧
        member.method.accepts arity := by
  unfold callable
  cases hdecl : index.get? type with
  | none => simp
  | some decl =>
    obtain ⟨owner, method⟩ := member
    simp only [List.mem_map, List.mem_filter, Bool.and_eq_true, Bool.not_eq_true', beq_iff_eq,
      Option.some.injEq, Member.mk.injEq]
    constructor
    · rintro ⟨m, ⟨hmem, ⟨hconstructor, hname⟩, haccepts⟩, rfl, rfl⟩
      exact ⟨rfl, hmem, hconstructor, hname, haccepts⟩
    · rintro ⟨rfl, hmem, hconstructor, hname, haccepts⟩
      exact ⟨method, ⟨hmem, ⟨hconstructor, hname⟩, haccepts⟩, rfl, rfl⟩

theorem dropOverridden_sublist (seen : List (List String)) (members : List Member) :
    (dropOverridden seen members).Sublist members := by
  induction members generalizing seen with
  | nil => exact .slnil
  | cons c rest ih =>
    simp only [dropOverridden]
    split
    · exact (ih seen).cons c
    · exact (ih _).cons_cons c

theorem isCallable_of_mem_candidates {owner name : String} {arity : Nat} {member : Member}
    (h : member ∈ index.candidates owner name arity) : index.IsCallable member := by
  obtain ⟨type, -, hmem⟩ := List.mem_flatMap.1 ((dropOverridden_sublist _ _).subset h)
  obtain ⟨hdecl, hmem, hconstructor, -⟩ := mem_callable_iff.1 hmem
  exact ⟨⟨type, hdecl⟩, hmem, hconstructor⟩

theorem mem_of_choose_eq_ok {call : Tree} {members : List Member}
    {args : List (Option ResolvedType)}
    {member : Member} (h : index.choose call members args = .ok member) : member ∈ members := by
  unfold choose at h
  split at h
  · cases h
    exact List.mem_singleton_self _
  · rename_i several _
    cases hselect : index.select members args with
    | error cause => rw [hselect] at h; cases h
    | ok chosen =>
      rw [hselect] at h
      cases h
      rw [select_eq] at hselect
      split at hselect
      · cases hselect
      · rename_i c hleader
        cases hselect
        exact (List.mem_filter.1 (hleader ▸ List.mem_singleton_self member)).1
      · cases hselect

theorem isCallable_of_resolveInvocation {ctx : Context} {call : Tree} {binding : Binding}
    (h : index.resolveInvocation ctx call = .ok binding) : index.IsCallable binding.member := by
  rw [resolveInvocation] at h
  split at h
  · cases h
  · rename_i name _
    dsimp only at h
    generalize Except.bind _ (ownersOf ctx call) = owners at h
    cases owners with
    | error e => cases h
    | ok owners =>
      obtain ⟨types, receiver⟩ := owners
      dsimp only at h
      generalize hfirst : index.firstCandidates _ _ types = first at h
      cases first with
      | none => cases h
      | some members =>
        dsimp only at h
        generalize hchosen : index.choose call members _ = chosen at h
        cases chosen with
        | error e => cases h
        | ok member =>
          cases h
          obtain ⟨owner, -, howner⟩ := List.exists_of_findSome?_eq_some hfirst
          dsimp only at howner
          split at howner
          · cases howner
          · cases howner
            exact isCallable_of_mem_candidates (mem_of_choose_eq_ok hchosen)

/-- A call that resolves leads to a method of an indexed type. -/
theorem isCallee_of_resolveCall {ctx : Context} {call : Tree} {signature : String}
    (h : index.resolveCall ctx call = .ok signature) : index.IsCallee signature := by
  unfold resolveCall at h
  cases hbinding : index.resolveInvocation ctx call with
  | error e => rw [hbinding] at h; cases h
  | ok binding =>
    rw [hbinding] at h
    exact ⟨binding.member, isCallable_of_resolveInvocation hbinding, h⟩

end ProjectIndex

/-! ## Trees in trees -/

/-- The tree is somewhere below another. -/
def Tree.Below : Tree → Tree → Prop := Relation.TransGen fun c t => c ∈ t.children

/-- The tree is another or somewhere below it. -/
def Tree.Within : Tree → Tree → Prop := Relation.ReflTransGen fun c t => c ∈ t.children

theorem Tree.Below.size_lt {c t : Tree} (h : c.Below t) : c.size < t.size := by
  induction h with
  | single hc => exact Tree.size_lt_of_mem_children hc
  | tail _ hc ih => exact Nat.lt_trans ih (Tree.size_lt_of_mem_children hc)

theorem Tree.below_of_child? {t c : Tree} {field : String} (h : t.child? field = some c) :
    c.Below t :=
  .single (List.mem_of_find?_eq_some h)

theorem Tree.below_of_mem_named {t c : Tree} (h : c ∈ t.named) : c.Below t :=
  .single (List.mem_filter.1 h).1

theorem Tree.below_of_mem_childrenOf {t c : Tree} {field : String} (h : c ∈ t.childrenOf field) :
    c.Below t :=
  .single (List.mem_filter.1 h).1

theorem below_of_mem_bodyMembers {t m : Tree} (h : m ∈ bodyMembers t) : m.Below t := by
  obtain ⟨c, hc, hm⟩ := List.mem_flatMap.1 h
  split at hm
  · exact (Tree.below_of_mem_named hm).trans (Tree.below_of_mem_named hc)
  · cases List.mem_singleton.1 hm
    exact Tree.below_of_mem_named hc

theorem below_of_mem_roles {t : Tree} {r : Bool × Tree} (h : r ∈ roles t) : r.2.Below t := by
  have hnamed {v : Bool} (h : r ∈ t.named.map (v, ·)) : r.2.Below t := by
    obtain ⟨c, hc, rfl⟩ := List.mem_map.1 h
    exact Tree.below_of_mem_named hc
  unfold roles at h
  split at h
  · exact hnamed h
  · exact hnamed h
  · split at h
    · cases h
    · rename_i c cs hn
      have hmem : r.2 ∈ t.named := by
        rw [hn]
        rcases List.mem_cons.1 h with rfl | h
        · exact List.mem_cons_self
        · obtain ⟨d, hd, rfl⟩ := List.mem_map.1 h
          exact List.mem_cons_of_mem _ hd
      exact Tree.below_of_mem_named hmem
  · exact .single (mem_markField (List.mem_filter.1 h).1)

/-! ## Combining walks -/

/-- The context with further variables. -/
def Context.withLocals (ctx : Context) (locals : List Local) : Context :=
  { ctx with locals := ctx.locals ++ locals }

/-! What is declared since something was entered is forgotten when it is left. -/

theorem Context.exit_enterBlock (ctx : Context) (locals : List Local) :
    (ctx.enterBlock.withLocals locals).exit = ctx := by
  simp [withLocals, enterBlock, mark, exit]

theorem Context.exit_enterExecutable (ctx : Context) (method : Executable)
    (typeParams : List String) (locals : List Local) :
    ((ctx.enterExecutable method typeParams).withLocals locals).exit = ctx := by
  simp [withLocals, enterExecutable, mark, exit]

theorem Context.exit_enterClass (ctx : Context) (qualified : String) (typeParams : List String)
    (locals : List Local) :
    ((ctx.enterClass qualified typeParams).withLocals locals).exit = ctx := by
  simp [withLocals, enterClass, mark, exit]

/-- Contexts of this sort stay of it when variables are declared and blocks are entered. -/
structure Context.Stays (I : Context → Prop) : Prop where
  withLocals : ∀ {ctx : Context} (locals : List Local), I ctx → I (ctx.withLocals locals)
  enterBlock : ∀ {ctx : Context}, I ctx → I ctx.enterBlock

/-- From contexts of a sort the walk only declares variables, and says only steps of a sort. -/
def Walk.KeepsIn (I : Context → Prop) (P : Step → Prop) (w : Walk) : Prop :=
  ∀ ctx, I ctx → (∃ locals, (w ctx).1 = ctx.withLocals locals) ∧ ∀ s ∈ (w ctx).2, P s

namespace Walk.KeepsIn

variable {I : Context → Prop} {P : Step → Prop} {a b w : Walk}

theorem skip : KeepsIn I P skip :=
  fun ctx _ => ⟨⟨[], by simp [Walk.skip, Context.withLocals]⟩, fun s hs => by cases hs⟩

theorem declare (name : Context → String) (type : Context → Option ResolvedType) :
    KeepsIn I P (update fun ctx => ctx.declare (name ctx) (type ctx)) :=
  fun ctx _ => ⟨⟨[⟨name ctx, type ctx⟩], rfl⟩, fun s hs => by cases hs⟩

theorem andThen (hI : Context.Stays I) (ha : a.KeepsIn I P) (hb : b.KeepsIn I P) :
    (a.andThen b).KeepsIn I P := by
  intro ctx hctx
  obtain ⟨⟨la, hla⟩, hsa⟩ := ha ctx hctx
  obtain ⟨⟨lb, hlb⟩, hsb⟩ := hb (ctx.withLocals la) (hI.withLocals la hctx)
  simp only [Walk.andThen, hla, hlb]
  refine ⟨⟨la ++ lb, by simp [Context.withLocals]⟩, fun s hs => ?_⟩
  exact (List.mem_append.1 hs).elim (hsa s) (hsb s)

theorem all (hI : Context.Stays I) {ws : List Walk} (h : ∀ w ∈ ws, w.KeepsIn I P) :
    (all ws).KeepsIn I P := by
  induction ws with
  | nil => exact skip
  | cons w ws ih =>
    exact andThen hI (h w List.mem_cons_self) (ih fun w' hw' => h w' (List.mem_cons_of_mem _ hw'))

/-- Leaving a block forgets all that came since it was entered. -/
theorem block (hI : Context.Stays I) (h : w.KeepsIn I P) : (block w).KeepsIn I P := by
  intro ctx hctx
  obtain ⟨⟨locals, hlocals⟩, hs⟩ := h ctx.enterBlock (hI.enterBlock hctx)
  simp only [Walk.block, Walk.within, hlocals, ctx.exit_enterBlock locals]
  exact ⟨⟨[], by simp [Context.withLocals]⟩, hs⟩

end Walk.KeepsIn

/-- Wherever the file and the method around are the given ones, the walk only declares variables and
says only steps of a sort. -/
def Walk.Keeps (scope : FileScope) (executable : Option Executable) (P : Step → Prop)
    (w : Walk) : Prop :=
  ∀ ctx : Context, ctx.file = scope → ctx.currentExecutable? = executable →
    (∃ locals, (w ctx).1 = ctx.withLocals locals) ∧ ∀ s ∈ (w ctx).2, P s

theorem Context.stays_inside (scope : FileScope) (executable : Option Executable) :
    Context.Stays fun ctx => ctx.file = scope ∧ ctx.currentExecutable? = executable where
  withLocals _ h := h
  enterBlock h := h

namespace Walk.Keeps

variable {scope : FileScope} {executable : Option Executable} {P : Step → Prop} {a b w : Walk}

theorem iff_keepsIn : w.Keeps scope executable P ↔
    w.KeepsIn (fun ctx => ctx.file = scope ∧ ctx.currentExecutable? = executable) P :=
  ⟨fun h ctx hctx => h ctx hctx.1 hctx.2, fun h ctx hfile hexec => h ctx ⟨hfile, hexec⟩⟩

theorem skip : Keeps scope executable P skip := iff_keepsIn.2 .skip

theorem say {steps : List Step} (h : ∀ s ∈ steps, P s) : Keeps scope executable P (say steps) :=
  fun ctx _ _ => ⟨⟨[], by simp [Walk.say, Context.withLocals]⟩, h⟩

theorem put {entry : Entry} {tally : Option Tally} (h : P (.put entry tally [])) :
    Keeps scope executable P (put entry tally) :=
  say fun s hs => by cases List.mem_singleton.1 hs; exact h

theorem andThen (ha : a.Keeps scope executable P) (hb : b.Keeps scope executable P) :
    (a.andThen b).Keeps scope executable P :=
  iff_keepsIn.2 (.andThen (Context.stays_inside _ _) (iff_keepsIn.1 ha) (iff_keepsIn.1 hb))

theorem all {ws : List Walk} (h : ∀ w ∈ ws, w.Keeps scope executable P) :
    (all ws).Keeps scope executable P :=
  iff_keepsIn.2 (.all (Context.stays_inside _ _) fun w hw => iff_keepsIn.1 (h w hw))

theorem ask {f : Context → Walk}
    (h : ∀ ctx : Context, ctx.file = scope → ctx.currentExecutable? = executable →
      (f ctx).Keeps scope executable P) : (ask f).Keeps scope executable P :=
  fun ctx hfile hexec => h ctx hfile hexec ctx hfile hexec

theorem mono {Q : Step → Prop} (h : w.Keeps scope executable P) (hPQ : ∀ s, P s → Q s) :
    w.Keeps scope executable Q :=
  fun ctx hfile hexec => (h ctx hfile hexec).imp id fun hs s hmem => hPQ s (hs s hmem)

/-- Leaving a scope forgets all that came since it was entered. -/
theorem within {enter : Context → Context} {inner : Option Executable}
    (hfile : ∀ ctx, (enter ctx).file = ctx.file)
    (hexec : ∀ ctx : Context, ctx.currentExecutable? = executable →
      (enter ctx).currentExecutable? = inner)
    (hexit : ∀ ctx locals, ((enter ctx).withLocals locals).exit = ctx)
    (h : w.Keeps scope inner P) : (within enter w).Keeps scope executable P := by
  intro ctx hctx hctx'
  obtain ⟨⟨locals, hlocals⟩, hs⟩ := h (enter ctx) ((hfile ctx).trans hctx) (hexec ctx hctx')
  simp only [Walk.within, hlocals, hexit]
  exact ⟨⟨[], by simp [Context.withLocals]⟩, hs⟩

theorem inExecutable {method : Executable} (typeParams : List String)
    (h : w.Keeps scope (some method) P) :
    (Walk.within (·.enterExecutable method typeParams) w).Keeps scope executable P :=
  h.within (fun _ => rfl) (fun _ _ => rfl) fun ctx => ctx.exit_enterExecutable method typeParams

theorem inClass (qualified : String) (typeParams : List String) (h : w.Keeps scope executable P) :
    (Walk.within (·.enterClass qualified typeParams) w).Keeps scope executable P :=
  h.within (fun _ => rfl) (fun _ hctx => hctx) fun ctx => ctx.exit_enterClass qualified typeParams

theorem guarded {Q : Step → Prop} {entry : Entry} {tally : Tally} (h : w.Keeps scope executable P)
    (hput : ∀ inside, (∀ s ∈ inside, P s) → Q (.put entry (some tally) inside)) :
    (guarded entry tally w).Keeps scope executable Q := by
  intro ctx hfile hexec
  obtain ⟨hlocals, hs⟩ := h ctx hfile hexec
  refine ⟨hlocals, fun s hmem => ?_⟩
  cases List.mem_singleton.1 hmem
  exact hput _ hs

end Walk.Keeps

/-! ## Bodies -/

section

variable (index : ProjectIndex) (filter : NamespaceFilter)

/-- What the walk through the body of a method says. -/
inductive BodyStep (index : ProjectIndex) : Option Executable → Step → Prop
  | unresolved {executable : Option Executable} {line : Nat} {what : Unresolved} :
      BodyStep index executable (.unresolved line what)
  | call {caller : Executable} {callee : String} (h : index.IsCallee callee) :
      BodyStep index (some caller) (.put (Entry.call caller.signature callee) (some .calls) [])
  | use {method : Executable} {qualified : String} :
      BodyStep index (some method) (.put (Entry.use method.signature qualified) (some .uses) [])

variable {index} {scope : FileScope} {executable : Option Executable} {I : Context → Prop}
  {P : Step → Prop}

theorem declare_keepsIn (name : Option Tree) (type : Context → Option ResolvedType) :
    (declare name type).KeepsIn I P := by
  cases name with
  | none => exact .skip
  | some n => exact .declare (fun _ => n.text) type

theorem declareParams_keepsIn (hI : Context.Stays I) (params : List ParamDecl)
    (type : Context → ParamDecl → Option ResolvedType) :
    (declareParams params type).KeepsIn I P := by
  refine .all hI fun w hw => ?_
  obtain ⟨p, -, rfl⟩ := List.mem_map.1 hw
  exact .declare (fun _ => p.name) fun ctx => type ctx p

theorem declareParams_keeps (params : List ParamDecl)
    (type : Context → ParamDecl → Option ResolvedType) :
    (declareParams params type).Keeps scope executable P :=
  Walk.Keeps.iff_keepsIn.2 (declareParams_keepsIn (Context.stays_inside _ _) params type)

theorem declareLambda_keepsIn (hI : Context.Stays I) (params : Tree) :
    (declareLambda index params).KeepsIn I P := by
  unfold declareLambda
  split
  · exact declare_keepsIn _ _
  · refine .all hI fun w hw => ?_
    obtain ⟨p, -, rfl⟩ := List.mem_map.1 hw
    split
    · exact declare_keepsIn _ _
    · split
      · exact declare_keepsIn _ _
      · exact .skip

theorem declareFields_keepsIn (hI : Context.Stays I) (members : List Tree) :
    (declareFields index members).KeepsIn I P := by
  refine .all hI fun w hw => ?_
  obtain ⟨m, -, hw⟩ := List.mem_flatMap.1 hw
  obtain ⟨f, -, rfl⟩ := List.mem_map.1 hw
  exact .declare (fun _ => f.name) fun ctx => knownType index ctx f.type

theorem recordCall_keeps (call : Tree) :
    (recordCall index call).Keeps scope executable (BodyStep index executable) := by
  refine .ask fun ctx _ hexec => ?_
  cases executable with
  | none => simp only [hexec]; exact .skip
  | some caller =>
    simp only [hexec]
    split
    · rename_i callee hcall
      exact .put (.call (ProjectIndex.isCallee_of_resolveCall hcall))
    · exact .say fun s hs => by cases List.mem_singleton.1 hs; exact .unresolved

theorem recordUse_keeps (t : Tree) :
    (recordUse index filter t).Keeps scope executable (BodyStep index executable) := by
  refine .ask fun ctx _ hexec => ?_
  cases executable with
  | none => simp only [hexec]; exact .skip
  | some method =>
    simp only [hexec]
    split
    · exact .skip
    · split
      · split
        · exact .skip
        · exact .put .use
      · exact .skip
      · split
        · exact .skip
        · exact .say fun s hs => by cases List.mem_singleton.1 hs; exact .unresolved

/-- The body of a local or anonymous class. -/
def Tree.IsLocalBody (t : Tree) : Prop :=
  t.kind = "class_body" ∨ t.kind = "interface_body" ∨ t.kind = "enum_body"

/-- Visit the child under a field. -/
def visitChild (index : ProjectIndex) (filter : NamespaceFilter) (t : Tree)
    (field : String) : Walk :=
  (t.child? field).elim .skip (visit index filter (fieldIsValue t field))

/-- Walk a member of a local or anonymous class. -/
def visitMember (index : ProjectIndex) (filter : NamespaceFilter) (m : Tree) : Walk :=
  match m.kind with
  | "method_declaration" | "constructor_declaration" =>
    let params : Walk :=
      match methodDecl? m with
      | none => .skip
      | some decl => declareParams decl.params fun ctx p => knownType index ctx p.type
    .block (.andThen params (visitChild index filter m "body"))
  | "field_declaration" =>
    .all ((m.childrenOf "declarator").map (visitChild index filter · "value"))
  | _ => visit index filter false m

/-- The body of a local class is a block with the fields as variables, walked member by member. -/
theorem visit_localBody {isValue : Bool} {t : Tree} (h : t.IsLocalBody) :
    visit index filter isValue t =
    .block (.andThen (declareFields index (bodyMembers t))
      (.all ((bodyMembers t).map (visitMember index filter)))) := by
  have hmembers : (bodyMembers t).map (visitMember index filter) =
      (bodyMembers t).attach.map fun m => visitMember index filter m.1 := by
    rw [List.attach_map_val]
  rw [visit, hmembers]
  rcases h with h | h | h
  all_goals
    simp only [h]
    congr 4
    funext member
    obtain ⟨m, hm⟩ := member
    dsimp only
    split
    case h_1 hkind | h_2 hkind =>
      simp only [visitMember, hkind, visitChild]
      congr 2
      split <;> rename_i hbody <;> rw [hbody] <;> rfl
    case h_3 hkind =>
      simp only [visitMember, hkind]
      rw [← List.attach_map_val (l := m.childrenOf "declarator")]
      congr 2
      funext declarator
      obtain ⟨d, hd⟩ := declarator
      dsimp only [visitChild]
      split <;> rename_i hvalue <;> rw [hvalue] <;> rfl
    case h_4 hmethod hconstructor hfield =>
      unfold visitMember
      split
      case h_1 hkind => exact absurd hkind hmethod
      case h_2 hkind => exact absurd hkind hconstructor
      case h_3 hkind => exact absurd hkind hfield
      case h_4 => rfl

theorem visitChild_keepsIn {t : Tree} {field : String}
    (hvisit : ∀ {c : Tree}, t.child? field = some c → ∀ v, (visit index filter v c).KeepsIn I P) :
    (visitChild index filter t field).KeepsIn I P := by
  unfold visitChild
  cases hchild : t.child? field with
  | none => exact .skip
  | some c => exact hvisit hchild _

/-- Walking a member declares variables and says steps of a sort if visiting the
trees in it does. -/
theorem visitMember_keepsIn (hI : Context.Stays I) {m : Tree}
    (hvisit : ∀ {c : Tree}, c.Within m → ∀ v, (visit index filter v c).KeepsIn I P) :
    (visitMember index filter m).KeepsIn I P := by
  have hchild {d : Tree} (hd : d.Within m) (field : String) :
      (visitChild index filter d field).KeepsIn I P :=
    visitChild_keepsIn filter fun hc => hvisit (.head (List.mem_of_find?_eq_some hc) hd)
  unfold visitMember
  split
  case h_1 | h_2 =>
    refine .block hI (.andThen hI ?_ (hchild .refl _))
    split
    · exact .skip
    · exact declareParams_keepsIn hI _ _
  case h_3 =>
    refine .all hI fun w hw => ?_
    obtain ⟨d, hd, rfl⟩ := List.mem_map.1 hw
    exact hchild (Tree.below_of_mem_childrenOf hd).to_reflTransGen _
  case h_4 => exact hvisit .refl false

/-- **The walk through a body keeps the context and says only what recording the
calls and uses in it says.** -/
theorem visit_keepsIn (hI : Context.Stays I) {isValue : Bool} {t : Tree}
    (hcall : ∀ n, n.Within t → n.kind = "method_invocation" → (recordCall index n).KeepsIn I P)
    (huse : ∀ n, n.Within t → n.kind = "identifier" → (recordUse index filter n).KeepsIn I P) :
    (visit index filter isValue t).KeepsIn I P := by
  induction hsize : t.size using Nat.strongRecOn generalizing t isValue with
  | _ size ih =>
    subst hsize
    have hvisit {c : Tree} (hc : c.Below t) (v : Bool) : (visit index filter v c).KeepsIn I P :=
      ih c.size hc.size_lt (fun n hn => hcall n (hn.trans hc.to_reflTransGen))
        (fun n hn => huse n (hn.trans hc.to_reflTransGen)) rfl
    by_cases hbody : t.IsLocalBody
    · rw [visit_localBody filter hbody]
      refine .block hI (.andThen hI (declareFields_keepsIn hI _) (.all hI fun w hw => ?_))
      obtain ⟨m, hm, rfl⟩ := List.mem_map.1 hw
      exact visitMember_keepsIn filter hI fun hc =>
        hvisit (.trans_right hc (below_of_mem_bodyMembers hm))
    have hroles : (Walk.all ((roles t).attach.map fun r : { r // r ∈ roles t } =>
        visit index filter r.1.1 r.1.2)).KeepsIn I P := by
      refine .all hI fun w hw => ?_
      obtain ⟨⟨r, hr⟩, -, rfl⟩ := List.mem_map.1 hw
      exact hvisit (below_of_mem_roles hr) r.1
    have hchild {c : Tree} {field : String} (hc : t.child? field = some c) (v : Bool) :=
      hvisit (Tree.below_of_child? hc) v
    rw [visit]
    split
    case h_1 | h_2 | h_3 | h_4 | h_5 | h_6 => exact hroles.block hI
    case h_7 =>
      refine .all hI fun w hw => ?_
      obtain ⟨⟨d, hd⟩, -, rfl⟩ := List.mem_map.1 hw
      dsimp only
      split
      · exact .skip
      · refine .andThen hI ?_ (declare_keepsIn _ _)
        split
        · exact .skip
        · rename_i c hc
          exact hvisit ((Tree.below_of_child? hc).trans (Tree.below_of_mem_childrenOf hd)) _
    case h_8 =>
      refine .andThen hI ?_ (.block hI (.andThen hI (declare_keepsIn _ _) ?_))
      all_goals
        split
        · exact .skip
        · rename_i c hc
          exact hchild hc _
    case h_9 =>
      refine .block hI (.andThen hI ?_ ?_)
      · split
        · exact .skip
        · exact declare_keepsIn _ _
      · split
        · exact .skip
        · rename_i c hc
          exact hchild hc _
    case h_10 =>
      split
      · refine .andThen hI ?_ (declare_keepsIn _ _)
        split
        · exact .skip
        · rename_i c hc
          exact hchild hc _
      · exact hroles
    case h_11 =>
      refine .block hI (.andThen hI ?_ ?_)
      · split
        · exact .skip
        · exact declareLambda_keepsIn hI _
      · split
        · exact .skip
        · rename_i c hc
          exact hchild hc _
    case h_12 =>
      refine .andThen hI hroles ?_
      split
      · exact declare_keepsIn _ _
      · exact .skip
    case h_13 hkind => exact absurd (.inl hkind) hbody
    case h_14 hkind => exact absurd (.inr (.inl hkind)) hbody
    case h_15 hkind => exact absurd (.inr (.inr hkind)) hbody
    case h_16 hkind => exact .andThen hI (hcall t .refl hkind) hroles
    case h_17 hkind =>
      split
      · exact huse t .refl hkind
      · exact .skip
    case h_18 => exact hroles

/-- A walk through a body inside a file and a method. -/
theorem visit_keeps_of (hcall : ∀ call, (recordCall index call).Keeps scope executable P)
    (huse : ∀ t, (recordUse index filter t).Keeps scope executable P) (isValue : Bool) (t : Tree) :
    (visit index filter isValue t).Keeps scope executable P :=
  Walk.Keeps.iff_keepsIn.2 <| visit_keepsIn filter (Context.stays_inside scope executable)
    (fun n _ _ => Walk.Keeps.iff_keepsIn.1 (hcall n))
    fun n _ _ => Walk.Keeps.iff_keepsIn.1 (huse n)

theorem visit_keeps (isValue : Bool) (t : Tree) :
    (visit index filter isValue t).Keeps scope executable (BodyStep index executable) :=
  visit_keeps_of filter recordCall_keeps (recordUse_keeps filter) isValue t

end

end CodeGraph.Java
