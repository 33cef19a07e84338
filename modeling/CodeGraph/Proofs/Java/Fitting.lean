import CodeGraph.Proofs.Java.Selection

/-!
# What fits a parameter

* `objects_accept`: an argument fits a parameter of type `Object` unless its type stands for another
  one. So a candidate with such parameters only is applicable unless an argument is of such a type.
* `arrays_fit_as_elements`: an array fits an array of as many levels as the element fits the
  element. So an array of numbers fits one of wider numbers, of boxes, of objects and of a type
  variable, and the candidate that takes it is chosen unless there is a better one.

A type variable or a wildcard does not fit `Object` (`not_fit_object_placeholder`), although each of
its values is an object. No value of type `int[]` is one of type `long[]`, and yet the candidate
with `long[]` is chosen before the one with `Object` (`not_arrays_invariant_longs`).
-/

namespace CodeGraph.Java

/-- The type stands for another one: it is a type variable or a wildcard. -/
def ResolvedType.isPlaceholder : ResolvedType → Bool
  | typeVariable _ | wildcard | bounded _ _ => true
  | primitive _ | reference _ _ | array _ | nullType => false

def ResolvedType.isPrimitive : ResolvedType → Bool
  | primitive _ => true
  | _ => false

namespace ProjectIndex

variable {index : ProjectIndex} {args : List (Option ResolvedType)} {cs : List Member} {c : Member}

theorem exists_eq_ok {ε α : Type} {x : Except ε α} (h : x.toOption.isSome) : ∃ a, x = .ok a := by
  cases x with
  | error e => cases h
  | ok a => exact ⟨a, rfl⟩

theorem argumentGrade_eq {position : Nat} {arg : Option ResolvedType} {param : ParamDecl}
    {type : ResolvedType} (hparam : c.method.params[min position (c.method.params.length - 1)]? =
      some param)
    (htype : index.resolveInMember c.owner.qualified param.type c.method.typeParams = .ok type) :
    index.argumentGrade c position arg =
      if fixedCount c.method ≤ position ∧
      isArray arg then index.compatibility arg (some (.array type))
      else index.compatibility arg (some type) := by
  simp [argumentGrade, hparam, htype, Except.toOption]

/-- A method that accepts the arguments has a parameter for each of them. -/
theorem exists_param_of_accepts {m : MethodDecl} {arity position : Nat} (h : m.accepts arity)
    (hposition : position < arity) :
    ∃ param ∈ m.params, m.params[min position (m.params.length - 1)]? = some param := by
  have hpos : 0 < m.params.length := by
    rw [List.length_pos_iff]
    intro hnil
    rw [MethodDecl.accepts, MethodDecl.isVariadic, hnil] at h
    have : arity = 0 := by simpa using h
    omega
  have hlt : min position (m.params.length - 1) < m.params.length := by omega
  exact ⟨_, List.getElem_mem hlt, List.getElem?_eq_getElem hlt⟩

/-- An array fits an array as the element fits the element. -/
@[simp] theorem fit_array (a b : ResolvedType) :
    index.fit (.array a) (.array b) = index.fit a b := by
  by_cases heq : a = b
  · rw [heq, fit_self, fit_self]
  · rw [fit.eq_def]
    exact if_neg (by simpa using heq)

/-! ## Parameters of type `Object` -/

theorem isSome_fitClass_object (q : String) : (index.fitClass q ResolvedType.object).isSome := by
  unfold fitClass
  split <;> simp

/-- An argument does not fit `Object` exactly if its type stands for another one. -/
theorem fit_object_eq_none_iff {arg : ResolvedType} :
    index.fit arg (.ofClass ResolvedType.object) = none ↔ arg.isPlaceholder := by
  by_cases heq : arg = .ofClass ResolvedType.object
  · rw [heq, fit_self]
    exact iff_of_false nofun (by decide)
  rw [fit.eq_def]
  cases arg with
  | reference q _ =>
    have hsome : (index.fitClass q ResolvedType.object).isSome := isSome_fitClass_object q
    simp only [ResolvedType.ofClass] at heq ⊢
    simp [heq, ResolvedType.isPlaceholder, ← Option.isSome_iff_ne_none, hsome]
  | _ => simp [ResolvedType.ofClass, ResolvedType.isPlaceholder]

/-- Every parameter is of type `Object`. -/
def TakesObjects (index : ProjectIndex) (c : Member) : Prop :=
  ∀ param ∈ c.method.params,
    index.resolveInMember c.owner.qualified param.type c.method.typeParams =
    .ok (.ofClass ResolvedType.object)

instance : Decidable (index.TakesObjects c) := inferInstanceAs (Decidable (∀ param ∈ _, _))

/-- The type of the argument stands for another one, or it is an array of such a type that takes the
place of the arguments of a variadic parameter. -/
def StandsForOther (c : Member) (position : Nat) (arg : Option ResolvedType) : Prop :=
  ∃ type, type.isPlaceholder ∧
    (arg = some type ∨ arg = some (.array type) ∧ fixedCount c.method ≤ position)

theorem TakesObjects.argumentGrade_eq_none_iff (h : index.TakesObjects c)
    (haccepts : c.method.accepts args.length) {x : Option ResolvedType × Nat}
    (hx : x ∈ args.zipIdx) :
    index.argumentGrade c x.2 x.1 = none ↔ StandsForOther c x.2 x.1 := by
  obtain ⟨arg, position⟩ := x
  have hposition : position < args.length := by simpa using (List.mem_zipIdx hx).2.1
  obtain ⟨param, hmem, hparam⟩ := exists_param_of_accepts haccepts hposition
  rw [argumentGrade_eq hparam (h param hmem)]
  cases arg with
  | none => simp [compatibility, StandsForOther, isArray]
  | some type =>
    cases type with
    | array e =>
      by_cases hvariadic : fixedCount c.method ≤ position
      · rw [if_pos ⟨hvariadic, rfl⟩, compatibility, fit_array, fit_object_eq_none_iff]
        constructor
        · exact fun he => ⟨e, he, .inr ⟨rfl, hvariadic⟩⟩
        · rintro ⟨type, htype, heq | ⟨heq, -⟩⟩ <;> cases heq
          · cases htype
          · exact htype
      · simp [StandsForOther, hvariadic, isArray, compatibility, fit_object_eq_none_iff]
    | _ => simp [StandsForOther, isArray, compatibility, fit_object_eq_none_iff]

/-- **A parameter of type `Object` takes every argument** whose type does not stand for another one.
So a candidate with such parameters only is applicable exactly if no argument is of a type that
stands for another one, nor an array of such a type in the place of the arguments of a variadic
parameter. If it is, some overload accepts the types. -/
theorem objects_accept (index : ProjectIndex) (call : Tree) (cs : List Member)
    (args : List (Option ResolvedType)) :
    (∀ type, index.fit type (.ofClass ResolvedType.object) = none ↔ type.isPlaceholder) ∧
    ∀ c ∈ cs, index.TakesObjects c → c.method.accepts args.length →
      (index.Applicable args c ↔ ∀ x ∈ args.zipIdx, ¬StandsForOther c x.2 x.1) ∧
      ((index.choose call cs args).mapError (·.cause.message) =
          .error "no overload accepts the argument types" →
        ∃ x ∈ args.zipIdx, StandsForOther c x.2 x.1) := by
  refine ⟨fun type => fit_object_eq_none_iff, fun c hc hobjects haccepts => ?_⟩
  have happlicable : index.Applicable args c ↔ ∀ x ∈ args.zipIdx, ¬StandsForOther c x.2 x.1 := by
    refine forall₂_congr fun x hx => ?_
    rw [← hobjects.argumentGrade_eq_none_iff haccepts hx, Option.isSome_iff_ne_none]
  refine ⟨happlicable, fun hnone => ?_⟩
  by_contra hfits
  have hc' : index.Applicable args c := happlicable.2 fun x hx hstands => hfits ⟨x, hx, hstands⟩
  match cs, hc with
  | [d], _ => cases hnone
  | d :: e :: rest, hc =>
    exact (choose_exact call (by simp)).2.1.1 hnone c hc hc'

/-- `m(t)` -/
def callOfVariable : Tree :=
  .mk "method_invocation" true "" "m(t)" 1 1
    [.mk "identifier" true "name" "m" 1 1 [],
     .mk "argument_list" true "arguments" "(t)" 1 1 [.mk "identifier" true "" "t" 1 1 []]]

/-- A context in the class `A` with a variable `t`. -/
def contextOfVariable (type : ResolvedType) : Context :=
  ((Context.ofFile {}).enterClass "A" []).declare "t" (some type)

/-- Of `m(Object)` and `m(int)` the first takes an array of a type variable. -/
theorem objects_accept_arrayOfVariable :
    let index := build [overloadingFile [objectParameter, intParameter]]
    let cs := index.candidates "A" "m" 1
    let args := [some (.array (.typeVariable "T"))]
    (∃ c ∈ cs, index.TakesObjects c ∧ c.method.accepts args.length ∧ index.Applicable args c) ∧
      (index.choose callOfVariable cs args).mapError (·.cause.message) ≠
        .error "no overload accepts the argument types" ∧
      index.resolveCall (contextOfVariable (.array (.typeVariable "T"))) callOfVariable =
        .ok "A.m(java.lang.Object)" := by
  intro index cs args
  obtain ⟨c, hc, hobjects, haccepts, hfixed⟩ : ∃ c ∈ cs, index.TakesObjects c ∧
      c.method.accepts args.length ∧ fixedCount c.method = 1 := by decide +kernel
  have hstands : ∀ x ∈ args.zipIdx, ¬StandsForOther c x.2 x.1 := by
    rintro x hx ⟨type, htype, hx'⟩
    obtain rfl := List.mem_singleton.1 hx
    rcases hx' with heq | ⟨-, hle⟩
    · cases heq
      cases htype
    · rw [hfixed] at hle
      cases hle
  obtain ⟨happlicable, hnone⟩ :=
    (objects_accept index callOfVariable cs args).2 c hc hobjects haccepts
  refine ⟨⟨c, hc, hobjects, haccepts, happlicable.2 hstands⟩, fun herror => ?_, by decide +kernel⟩
  obtain ⟨x, hx, hx'⟩ := hnone herror
  exact hstands x hx hx'

/-- For a variable whose type is a type variable or a wildcard, there is no overload although
`m(Object)` takes every object. -/
theorem not_fit_object_placeholder :
    let index := build [overloadingFile [objectParameter, intParameter]]
    (∃ c ∈ index.candidates "A" "m" 1, index.TakesObjects c ∧ c.method.accepts 1) ∧
      ∀ type ∈ [.typeVariable "T", .wildcard, .bounded .extends .string],
        index.fit type (.ofClass ResolvedType.object) = none ∧
          (index.resolveCall (contextOfVariable type) callOfVariable).mapError (·.message) =
            .error "cannot resolve `m(t)`: no overload accepts the argument types" := by
  decide +kernel

/-! ## Arrays -/

/-- A value of the first type becomes one of the second: a number of a wider type, a box or the
content of a box, an object, or a value of a type variable. -/
inductive Converts : ResolvedType → ResolvedType → Prop
  | widening {a b : String} (h : widens a b) : Converts (.primitive a) (.primitive b)
  | boxing {a q : String} {args : List ResolvedType} (h : boxed? a = some q) :
      Converts (.primitive a) (.reference q args)
  | toObject {a : String} {args : List ResolvedType} :
      Converts (.primitive a) (.reference ResolvedType.object args)
  | toVariable {a v : String} : Converts (.primitive a) (.typeVariable v)
  | unboxing {q a b : String} {args : List ResolvedType} (h : unboxed? q = some a)
      (hwidens : widens a b) :
      Converts (.reference q args) (.primitive b)

theorem Converts.isSome_fit {a b : ResolvedType} (h : Converts a b) : (index.fit a b).isSome := by
  by_cases heq : a = b
  · rw [heq, fit_self]
    rfl
  rw [fit.eq_def]
  dsimp only
  rw [if_neg heq]
  cases h with
  | widening h => simp [h]
  | boxing h => simp [h]
  | toObject => simp
  | toVariable => simp
  | unboxing h hwidens => simp [h, hwidens]

/-- What fits where a primitive type is concerned. -/
theorem isSome_fit_iff_of_isPrimitive {a b : ResolvedType}
    (hprimitive : a.isPrimitive ∨ b.isPrimitive) :
    (index.fit a b).isSome ↔ a = b ∨ Converts a b := by
  constructor
  · intro h
    by_cases heq : a = b
    · exact .inl heq
    refine .inr ?_
    rw [fit.eq_def] at h
    dsimp only at h
    rw [if_neg heq] at h
    rcases a with p | ⟨q, as⟩ | _ | _ | _ | _ | _
    case primitive =>
      rcases b with r | ⟨q, bs⟩ | _ | v | _ | _ | _
      case primitive => exact .widening (by simpa using h)
      case reference =>
        have hq : boxed? p = some q ∨ q = ResolvedType.object := by simpa using h
        rcases hq with hboxed | rfl
        · exact .boxing hboxed
        · exact .toObject
      case typeVariable => exact .toVariable
      all_goals simp at h
    case reference =>
      rcases b with r | _ | _ | _ | _ | _ | _
      case primitive =>
        have hq : (unboxed? q).any (widens · r) := by simpa using h
        obtain ⟨p, hp, hwidens⟩ := (Option.any_eq_true _ _).1 hq
        exact .unboxing hp hwidens
      all_goals simp [ResolvedType.isPrimitive] at hprimitive
    all_goals
      cases b <;> simp [ResolvedType.isPrimitive] at hprimitive h
  · rintro (rfl | h)
    · rw [fit_self]
      rfl
    · exact h.isSome_fit

theorem fit_arrays (a b : ResolvedType) (n : Nat) :
    index.fit (a.arrays n) (b.arrays n) = index.fit a b := by
  induction n with
  | zero => rfl
  | succ n ih => rw [ResolvedType.arrays, ResolvedType.arrays, fit_array, ih]

/-- The type of the parameter that takes the argument at a position: of a variadic
parameter, the type of the array. -/
def ParameterAt (index : ProjectIndex) (c : Member) (position : Nat) (type : ResolvedType) : Prop :=
  ∃ param declared, c.method.params[min position (c.method.params.length - 1)]? = some param ∧
    index.resolveInMember c.owner.qualified param.type c.method.typeParams = .ok declared ∧
    type = if fixedCount c.method ≤ position then .array declared else declared

/-- The grade of an array. -/
theorem ParameterAt.argumentGrade_array {position : Nat} {type : ResolvedType}
    (h : index.ParameterAt c position type) (e : ResolvedType) :
    index.argumentGrade c position (some (.array e)) = index.fit (.array e) type := by
  obtain ⟨param, declared, hparam, htype, rfl⟩ := h
  rw [argumentGrade_eq hparam htype]
  by_cases hvariadic : fixedCount c.method ≤ position <;> simp [hvariadic, isArray, compatibility]

theorem takesTypes_of_map_eq (h : c.method.params.map (fun param =>
    (index.resolveInMember c.owner.qualified param.type c.method.typeParams).toOption) = args)
    (hknown : none ∉ args) : index.TakesTypes args c := by
  rintro ⟨arg, position⟩ hx
  have harg := List.mk_mem_zipIdx_iff_getElem?.1 hx
  rw [← h, List.getElem?_map] at harg
  obtain ⟨param, hparam, htype⟩ := Option.map_eq_some_iff.1 harg
  cases hresolved : index.resolveInMember c.owner.qualified param.type c.method.typeParams with
  | error e =>
    rw [hresolved] at htype
    exact absurd (List.mem_of_getElem? (List.mk_mem_zipIdx_iff_getElem?.1 hx)) (htype ▸ hknown)
  | ok type =>
    rw [hresolved] at htype
    exact ⟨param, type, hparam, htype.symm, hresolved⟩

/-- A candidate with the very types of the arguments outscores all others. -/
theorem eq_of_choose_of_takesTypes {call : Tree} {v : Member} (h : 2 ≤ cs.length)
    (hv : index.choose call cs args = .ok v) (hc : c ∈ cs) (hfixed : c.method.isVariadic = false)
    (htypes : index.TakesTypes args c) : v = c := by
  obtain ⟨others, hperm, -, hothers⟩ := (choose_eq_ok_iff call h).1 hv
  rcases List.mem_cons.1 (hperm.mem_iff.1 hc) with heq | hmem
  · exact heq.symm
  · have hlt := hothers c hmem (htypes.applicable hfixed)
    have hle : index.grades args v ≤ index.grades args c :=
      (grades_le args v).trans_eq (htypes.grades_eq hfixed).symm
    rcases score_lt_iff.1 hlt with hgrades | ⟨-, -, hvariadic⟩
    · omega
    · rw [hfixed] at hvariadic
      cases hvariadic

/-- **An array fits as its elements do.** An array of a type fits an array of another one of as many
levels, where one of these types is primitive, exactly if the types are the same or the one converts
to the other. So a chosen candidate takes an array only in place of an array of a type to which its
elements convert, and it takes every argument as it is if there is a candidate with a fixed number
of parameters that does. -/
theorem arrays_fit_as_elements (index : ProjectIndex) (a b : ResolvedType)
    (hprimitive : a.isPrimitive ∨ b.isPrimitive) (n : Nat) :
    ((index.fit (a.arrays n) (b.arrays n)).isSome ↔ a = b ∨ Converts a b) ∧
    ∀ (call : Tree) (cs : List Member) (args : List (Option ResolvedType)) (v : Member),
      2 ≤ cs.length →
      index.choose call cs args = .ok v →
      (∀ position, args[position]? = some (some (a.arrays (n + 1))) →
        index.ParameterAt v position (b.arrays (n + 1)) → a = b ∨ Converts a b) ∧
      ∀ c ∈ cs, c.method.isVariadic = false → index.TakesTypes args c → v = c := by
  have hfit (n : Nat) : (index.fit (a.arrays n) (b.arrays n)).isSome ↔ a = b ∨ Converts a b := by
    rw [fit_arrays, isSome_fit_iff_of_isPrimitive hprimitive]
  refine ⟨hfit n, fun call cs args v htwo hv =>
    ⟨fun position harg hparam => ?_, fun c hc hfixed htypes => ?_⟩⟩
  · obtain ⟨-, -, happlicable, -⟩ := (choose_eq_ok_iff call htwo).1 hv
    have hgrade :=
      happlicable (some (a.arrays (n + 1)), position) (List.mk_mem_zipIdx_iff_getElem?.2 harg)
    rwa [ResolvedType.arrays, hparam.argumentGrade_array, ← ResolvedType.arrays,
      hfit (n + 1)] at hgrade
  · exact eq_of_choose_of_takesTypes htwo hv hc hfixed htypes

/-- An array of a type, as a parameter `x`. -/
def arrayParameter (element : Tree) : Tree :=
  .mk "formal_parameter" true "" "" 1 1
    [.mk "array_type" true "type" "" 1 1 [element, .mk "dimensions" true "dimensions" "[]" 1 1 []],
     .mk "identifier" true "name" "x" 1 1 []]

/-- A primitive type of whole numbers, as the element of an array. -/
def integralElement (name : String) : Tree := .mk "integral_type" true "element" name 1 1 []

/-- Of `m(long[])`, `m(int[])` and `m(Object)` the second takes an `int[]`, and no array
of truth values takes one. -/
theorem arrays_fit_as_elements_exactOverload :
    let index := build [overloadingFile
      [arrayParameter (integralElement "long"), arrayParameter (integralElement "int"),
        objectParameter]]
    let cs := index.candidates "A" "m" 1
    let args := [some (.array .int)]
    ¬(index.fit (ResolvedType.int.arrays 2) (ResolvedType.boolean.arrays 2)).isSome ∧
      2 ≤ cs.length ∧
      (∃ c ∈ cs, c.method.isVariadic = false ∧ index.TakesTypes args c ∧
        index.choose callOfVariable cs args = .ok c) ∧
      index.resolveCall (contextOfVariable (.array .int)) callOfVariable = .ok "A.m(int[])" := by
  intro index cs args
  have htwo : 2 ≤ cs.length := by decide +kernel
  obtain ⟨c, hc, hfixed, hparams⟩ : ∃ c ∈ cs, c.method.isVariadic = false ∧
      (c.method.params.map fun param =>
        (index.resolveInMember c.owner.qualified param.type c.method.typeParams).toOption) =
        args := by
    decide +kernel
  have htypes : index.TakesTypes args c := takesTypes_of_map_eq hparams (by decide)
  obtain ⟨v, hchoose⟩ : ∃ v, index.choose callOfVariable cs args = .ok v :=
    exists_eq_ok (by decide +kernel)
  obtain ⟨hfits, hchosen⟩ := arrays_fit_as_elements index .int .boolean (.inl rfl) 2
  have heq : v = c := (hchosen callOfVariable cs args v htwo hchoose).2 c hc hfixed htypes
  refine ⟨fun hsome => ?_, htwo, ⟨c, hc, hfixed, htypes, heq ▸ hchoose⟩, by decide +kernel⟩
  rcases hfits.1 hsome with heq | hconverts
  · exact absurd heq (by decide)
  · cases hconverts with
    | widening h => exact absurd h (by decide)

/-- An `int[]` fits a `long[]`, an `Integer[]` and an `Object[]`, and of `m(long[])` and `m(Object)`
the first is chosen for it. -/
theorem not_arrays_invariant_longs :
    let index := build [overloadingFile [arrayParameter (integralElement "long"), objectParameter]]
    index.fit (.array .int) (.array (.primitive "long")) = some 2 ∧
      index.fit (.array .int) (.array (.ofClass "java.lang.Integer")) = some 1 ∧
      index.fit (.array .int) (.array (.ofClass ResolvedType.object)) = some 1 ∧
      index.resolveCall (contextOfVariable (.array .int)) callOfVariable = .ok "A.m(long[])" := by
  decide +kernel

end ProjectIndex

end CodeGraph.Java
