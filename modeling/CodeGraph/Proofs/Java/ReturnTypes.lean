import CodeGraph.Java.Expression

/-!
# Types of calls on generic types

The type of a call is the declared return type of the method, with the receiver's type arguments in
place of the type parameters of its class. A type variable may occur in the *bound* of a wildcard,
and it may be declared by the method itself, under the name of a parameter of the class even.
`occurrences` lists the occurrences in a type, and two ways to replace type variables give the same
type exactly if they agree at each of them (`replaceVariables_eq_iff`).

* `substitute_eq`: what is put in place of which occurrence.
* `typeOf_call_of_generic`: the type of a call is the return type as the receiver sees it exactly if
  the parameters of the class that occur in it do so in bounds where the method declares them anew,
  and elsewhere where it does not.

A parameter of the class in a bound stays as it is, and a type variable of the method is taken for
the parameter of the class that has its name (`not_seenFrom_boundedReturn`).
-/

namespace CodeGraph.Java

namespace ResolvedType

/-! ## Replacing type variables -/

mutual

/-- The type variables of a type in order, each with whether it occurs in the bound
of a wildcard. -/
def occurrences (inBound : Bool) : ResolvedType → List (String × Bool)
  | typeVariable v => [(v, inBound)]
  | reference _ args => occurrencesAll inBound args
  | array e => e.occurrences inBound
  | bounded _ t => t.occurrences true
  | _ => []

/-- The type variables of several types. -/
def occurrencesAll (inBound : Bool) : List ResolvedType → List (String × Bool)
  | [] => []
  | t :: ts => t.occurrences inBound ++ occurrencesAll inBound ts

end

mutual

/-- The type with another one in place of each occurrence of a type variable, at any depth. -/
def replaceVariables (f : String × Bool → ResolvedType) (inBound : Bool) :
    ResolvedType → ResolvedType
  | primitive p => primitive p
  | reference q args => reference q (replaceVariablesAll f inBound args)
  | array e => array (e.replaceVariables f inBound)
  | typeVariable v => f (v, inBound)
  | wildcard => wildcard
  | bounded b t => bounded b (t.replaceVariables f true)
  | nullType => nullType

/-- Several types with others in place of their type variables. -/
def replaceVariablesAll (f : String × Bool → ResolvedType) (inBound : Bool) :
    List ResolvedType → List ResolvedType
  | [] => []
  | t :: ts => t.replaceVariables f inBound :: replaceVariablesAll f inBound ts

end

/-- The type argument for a type parameter, and the type variable itself for any other name. -/
def argumentFor (params : List String) (args : List ResolvedType) (v : String) : ResolvedType :=
  ((params.zip args).lookup v).getD (typeVariable v)

variable {f g : String × Bool → ResolvedType}

mutual

/-- **Replacing type variables in two ways gives the same type exactly if both agree
at every occurrence.** -/
theorem replaceVariables_eq_iff (inBound : Bool) (t : ResolvedType) :
    t.replaceVariables f inBound = t.replaceVariables g inBound ↔
    ∀ o ∈ t.occurrences inBound, f o = g o := by
  cases t with
  | primitive | wildcard | nullType => simp [replaceVariables, occurrences]
  | typeVariable v => simp [replaceVariables, occurrences]
  | array e => simp [replaceVariables, occurrences, replaceVariables_eq_iff inBound e]
  | bounded b t => simp [replaceVariables, occurrences, replaceVariables_eq_iff true t]
  | reference q args =>
    simp [replaceVariables, occurrences, replaceVariablesAll_eq_iff inBound args]

theorem replaceVariablesAll_eq_iff (inBound : Bool) (ts : List ResolvedType) :
    replaceVariablesAll f inBound ts = replaceVariablesAll g inBound ts ↔
      ∀ o ∈ occurrencesAll inBound ts, f o = g o := by
  cases ts with
  | nil => simp [replaceVariablesAll, occurrencesAll]
  | cons t ts =>
    simp only [replaceVariablesAll, occurrencesAll, List.cons.injEq, List.forall_mem_append,
      replaceVariables_eq_iff inBound t, replaceVariablesAll_eq_iff inBound ts]

end

mutual

/-- A type variable in its own place changes nothing. -/
theorem replaceVariables_typeVariable (inBound : Bool) (t : ResolvedType) :
    t.replaceVariables (fun o => typeVariable o.1) inBound = t := by
  cases t with
  | primitive | wildcard | nullType | typeVariable => rfl
  | array e => rw [replaceVariables, replaceVariables_typeVariable inBound e]
  | bounded b t => rw [replaceVariables, replaceVariables_typeVariable true t]
  | reference q args => rw [replaceVariables, replaceVariablesAll_typeVariable inBound args]

theorem replaceVariablesAll_typeVariable (inBound : Bool) (ts : List ResolvedType) :
    replaceVariablesAll (fun o => typeVariable o.1) inBound ts = ts := by
  cases ts with
  | nil => rfl
  | cons t ts =>
    rw [replaceVariablesAll, replaceVariables_typeVariable inBound t,
      replaceVariablesAll_typeVariable inBound ts]

end

mutual

/-- All that occurs below a bound occurs in a bound. -/
theorem inBound_of_mem_occurrences {t : ResolvedType} {o : String × Bool}
    (h : o ∈ t.occurrences true) :
    o.2 = true := by
  cases t with
  | primitive | wildcard | nullType => cases h
  | typeVariable v => cases List.mem_singleton.1 h; rfl
  | array e => exact inBound_of_mem_occurrences (t := e) h
  | bounded b t => exact inBound_of_mem_occurrences (t := t) h
  | reference q args =>
    have hargs : o ∈ occurrencesAll true args := h
    exact inBound_of_mem_occurrencesAll hargs

theorem inBound_of_mem_occurrencesAll {ts : List ResolvedType} {o : String × Bool}
    (h : o ∈ occurrencesAll true ts) : o.2 = true := by
  match ts with
  | [] => cases h
  | t :: ts =>
    exact (List.mem_append.1 h).elim inBound_of_mem_occurrences inBound_of_mem_occurrencesAll

end

/-! ## Substitution -/

theorem argumentFor_eq (params : List String) (args : List ResolvedType) (v : String) :
    (match params.findIdx? (· == v) with
      | some i => args[i]?.getD (typeVariable v)
      | none => typeVariable v) = argumentFor params args v := by
  induction params generalizing args with
  | nil => rfl
  | cons param params ih =>
    cases args with
    | nil =>
      cases (param :: params).findIdx? (· == v) <;> rfl
    | cons arg args =>
      rw [List.findIdx?_cons, argumentFor, List.zip_cons_cons, List.lookup_cons]
      by_cases hparam : param = v
      · subst hparam
        simp
      · have hne : (v == param) = false := beq_eq_false_iff_ne.2 fun h => hparam h.symm
        have hrest := ih args
        rw [argumentFor] at hrest
        rw [if_neg (by simpa using hparam), hne]
        simp only [← hrest]
        cases params.findIdx? (· == v) <;> rfl

/-- What stands at an occurrence of a type variable after substitution. -/
def substituted (params : List String) (args : List ResolvedType) (o : String × Bool) :
    ResolvedType :=
  if o.2 then typeVariable o.1 else argumentFor params args o.1

variable {params : List String} {args : List ResolvedType}

mutual

/-- **Substitution puts arguments in place of parameters everywhere but in bounds.** -/
theorem substitute_eq (t : ResolvedType) :
    t.substitute params args = t.replaceVariables (substituted params args) false := by
  cases t with
  | primitive | wildcard | nullType => rfl
  | typeVariable v => exact argumentFor_eq params args v
  | array e => rw [substitute, replaceVariables, substitute_eq e]
  | reference q inner => rw [substitute, replaceVariables, substitutes_eq inner]
  | bounded b t =>
    have hstays : t.replaceVariables (substituted params args) true = t := by
      refine Eq.trans ?_ (replaceVariables_typeVariable true t)
      refine (replaceVariables_eq_iff true t).2 fun o ho => ?_
      rw [substituted, if_pos (inBound_of_mem_occurrences ho)]
    rw [replaceVariables, hstays]
    rfl

theorem substitutes_eq (ts : List ResolvedType) :
    substitutes params args ts = replaceVariablesAll (substituted params args) false ts := by
  cases ts with
  | nil => rfl
  | cons t ts => rw [substitutes, replaceVariablesAll, substitute_eq t, substitutes_eq ts]

end

end ResolvedType

/-! ## Calls -/

open ResolvedType

/-- What stands in the return type of a method for an occurrence of a type variable, seen from a
receiver with these type arguments: the argument for a parameter of the class, unless the method
declares the name anew. -/
def Member.standsFor (member : Member) (args : List ResolvedType) (o : String × Bool) :
    ResolvedType :=
  if o.1 ∈ member.method.typeParams then .typeVariable o.1
  else argumentFor member.owner.typeParams args o.1

/-- A type in the declaration of a method, seen from a receiver with these type arguments. -/
def Member.seenFrom (member : Member) (args : List ResolvedType) (type : ResolvedType) :
    ResolvedType :=
  type.replaceVariables (member.standsFor args) false

namespace ProjectIndex

variable {index : ProjectIndex} {ctx : Context} {call object : Tree} {binding : Binding}
  {member : Member} {args : List ResolvedType} {q : String}

/-- The receiver of a call on a value of a class type. -/
theorem receiver_of_resolveInvocation (hobject : call.child? "object" = some object)
    (hreceiver : index.receiver ctx object = .ok (.value (.reference q args)))
    (h : index.resolveInvocation ctx call = .ok binding) :
    binding.receiver = some (.reference q args) := by
  rw [resolveInvocation] at h
  split at h
  · cases h
  · dsimp only at h
    generalize howners : Except.bind _ (ownersOf ctx call) = owners at h
    have hvalue : owners = .ok ([q], some (.reference q args)) := by
      rw [← howners]
      split
      · rename_i hnone
        cases hobject.symm.trans hnone
      · rename_i other hother
        cases hobject.symm.trans hother
        rw [hreceiver]
        rfl
    rw [hvalue] at h
    dsimp only at h
    split at h
    · cases h
    · rename_i candidates _
      generalize index.choose call candidates _ = chosen at h
      cases chosen with
      | error e => cases h
      | ok member =>
        cases h
        rfl

/-- The return type of a method as a receiver of the class that declares it sees it. -/
theorem returnType_eq {written : WrittenType} (hwritten : member.method.returnType = some written)
    (hargs : args.length = member.owner.typeParams.length)
    (hgeneric : member.owner.typeParams ≠ []) :
    index.returnType member (some (.reference member.owner.qualified args)) =
      (index.resolveInMember member.owner.qualified written member.method.typeParams).map
        (·.replaceVariables (substituted member.owner.typeParams args) false) := by
  have hne : args.isEmpty = false := by
    cases args with
    | nil => exact absurd (List.length_eq_zero_iff.1 hargs.symm) hgeneric
    | cons => rfl
  rw [returnType, hwritten]
  dsimp only
  cases index.resolveInMember member.owner.qualified written member.method.typeParams with
  | error e => rfl
  | ok type =>
    have hsubstituted : type.substitute member.owner.typeParams args = _ := substitute_eq type
    simp [hargs, hne, hsubstituted, Except.map, bind, Except.bind, pure, Except.pure]

/-- The type of a call that binds to a method. -/
theorem typeOf_of_resolveInvocation (hkind : call.kind = "method_invocation")
    (h : index.resolveInvocation ctx call = .ok binding) :
    index.typeOf ctx call = index.returnType binding.member binding.receiver := by
  have hliteral : literalType? call = none := by
    simp [literalType?, hkind]
  rw [typeOf, hliteral]
  simp [hkind, h]

/-- The call binds to the member, and its receiver is a value of the generic class that declares the
member, with as many type arguments as the class has parameters. -/
structure BindsOnGeneric (index : ProjectIndex) (ctx : Context) (call : Tree) (member : Member)
    (args : List ResolvedType) : Prop where
  kind : call.kind = "method_invocation"
  receiver : ∃ object, call.child? "object" = some object ∧
    index.receiver ctx object = .ok (.value (.reference member.owner.qualified args))
  binds : ∃ binding, index.resolveInvocation ctx call = .ok binding ∧ binding.member = member
  length : args.length = member.owner.typeParams.length
  generic : member.owner.typeParams ≠ []

/-- **The type of a call on a generic type.** It is the return type of the method with the
receiver's type arguments in place of the parameters of the class wherever these do not occur in the
bound of a wildcard. That is the return type as the receiver sees it exactly if every occurrence of
a parameter, unless its argument is that very type variable, is in a bound where the method declares
a type variable of that name, and is in none where it does not. There is no type if the method has
no return type or one that does not resolve. -/
theorem typeOf_call_of_generic (h : index.BindsOnGeneric ctx call member args) :
    (member.method.returnType = none →
      index.typeOf ctx call = .error ⟨member.method.name, .noReturnType⟩) ∧
    ∀ written, member.method.returnType = some written →
      (∀ e, index.resolveInMember member.owner.qualified written member.method.typeParams =
        .error e →
        index.typeOf ctx call = .error e) ∧
      ∀ type, index.resolveInMember member.owner.qualified written member.method.typeParams =
        .ok type →
        index.typeOf ctx call =
            .ok (type.replaceVariables (substituted member.owner.typeParams args) false) ∧
          (index.typeOf ctx call = .ok (member.seenFrom args type) ↔
            ∀ o ∈ type.occurrences false,
              argumentFor member.owner.typeParams args o.1 ≠ .typeVariable o.1 →
                (o.2 = true ↔ o.1 ∈ member.method.typeParams)) := by
  obtain ⟨object, hobject, hreceiver⟩ := h.receiver
  obtain ⟨binding, hbinding, rfl⟩ := h.binds
  have htype : index.typeOf ctx call = index.returnType binding.member
      (some (.reference binding.member.owner.qualified args)) := by
    rw [typeOf_of_resolveInvocation h.kind hbinding,
      receiver_of_resolveInvocation hobject hreceiver hbinding]
  refine ⟨fun hnone => by rw [htype, returnType, hnone], fun written hwritten => ?_⟩
  rw [htype, returnType_eq hwritten h.length h.generic]
  refine ⟨fun e he => by rw [he]; rfl, fun type hresolved => ?_⟩
  rw [hresolved]
  refine ⟨rfl, ?_⟩
  rw [Except.map, Except.ok.injEq, Member.seenFrom, replaceVariables_eq_iff]
  refine forall₂_congr fun o _ => ?_
  rw [substituted, Member.standsFor]
  by_cases hbound : o.2 = true <;> by_cases hown : o.1 ∈ binding.member.method.typeParams
  · simp [hbound, hown]
  · simp [hbound, hown, eq_comm]
  · simp [hbound, hown]
  · simp [hbound, hown]

/-- A variable as a receiver. -/
theorem receiver_of_variableType {type : ResolvedType} (hkind : object.kind = "identifier")
    (h : index.variableType ctx object.text = .ok type) :
    index.receiver ctx object = .ok (.value type) := by
  have htype : index.typeOf ctx object = .ok type := by
    have hliteral : literalType? object = none := by
      simp [literalType?, hkind]
    rw [typeOf, hliteral]
    simp [hkind, h]
  rw [receiver]
  simp [hkind, htype]

/-- What is computed of a call determines the member, with its type parameters and
its return type. -/
theorem exists_bindsOnGeneric (q : String) (params own : List String) (type : ResolvedType)
    (hkind : call.kind = "method_invocation") (hobject : call.child? "object" = some object)
    (hreceiver : index.receiver ctx object = .ok (.value (.reference q args)))
    (hmember : (index.resolveInvocation ctx call).toOption.map (fun b =>
        (b.member.owner.qualified, b.member.owner.typeParams, b.member.method.typeParams,
          b.member.method.returnType.map fun written =>
            (index.resolveInMember q written b.member.method.typeParams).toOption)) =
      some (q, params, own, some (some type)))
    (hlength : args.length = params.length) (hgeneric : params ≠ []) :
    ∃ member, index.BindsOnGeneric ctx call member args ∧ member.owner.typeParams = params ∧
      member.method.typeParams = own ∧ ∃ written, member.method.returnType = some written ∧
        index.resolveInMember member.owner.qualified written member.method.typeParams =
          .ok type := by
  cases hbinding : index.resolveInvocation ctx call with
  | error e => rw [hbinding] at hmember; cases hmember
  | ok binding =>
    rw [hbinding] at hmember
    obtain ⟨hq, hparams, hown, hreturn⟩ : binding.member.owner.qualified = q ∧
        binding.member.owner.typeParams = params ∧ binding.member.method.typeParams = own ∧
        binding.member.method.returnType.map (fun written =>
          (index.resolveInMember q written binding.member.method.typeParams).toOption) =
            some (some type) := by
      simpa [Except.toOption] using hmember
    obtain ⟨written, hwritten, hresolved⟩ := Option.map_eq_some_iff.1 hreturn
    subst hq hparams
    refine ⟨binding.member, ⟨hkind, ⟨object, hobject, hreceiver⟩, ⟨binding, hbinding, rfl⟩, hlength,
      hgeneric⟩, rfl, hown, written, hwritten, ?_⟩
    cases htype : index.resolveInMember binding.member.owner.qualified written
        binding.member.method.typeParams with
    | error e => rw [htype] at hresolved; cases hresolved
    | ok resolved =>
      rw [htype] at hresolved
      exact congrArg Except.ok (Option.some.inj hresolved)

end ProjectIndex

/-- `name` as a type. -/
def typeNamed (name : String) : Tree := .mk "type_identifier" true "type" name 1 1 []

/-- `Box<…>` -/
def boxOf (args : List Tree) : Tree :=
  .mk "generic_type" true "type" "" 1 1 [typeNamed "Box", .mk "type_arguments" true "" "" 1 1 args]

/-- `<…>` before a return type or after the name of a class. -/
def typeParametersNamed (names : List String) : Tree :=
  .mk "type_parameters" true "type_parameters" "" 1 1 <| names.map fun name =>
    .mk "type_parameter" true "" "" 1 1 [typeNamed name]

/-- A method without parameters that returns a type. -/
def methodReturning (name : String) (typeParams : List String) (type : Tree) : Tree :=
  .mk "method_declaration" true "" "" 1 1
    [typeParametersNamed typeParams, type, .mk "identifier" true "name" name 1 1 [],
     .mk "formal_parameters" true "parameters" "()" 1 1 [], .mk "block" true "body" "" 1 1 []]

/-- `class Box<K, V> { <U> Box<V[], Box<K, ? super U>> turn() {…} Box<? extends K, V> wide() {…} <K>
K own() {…} }`, without the parts that nothing reads. -/
def boxFile : SourceFile where
  path := "/p/Box.java"
  root := .mk "program" true "" "" 1 1
    [.mk "class_declaration" true "" "" 1 1
      [.mk "identifier" true "name" "Box" 1 1 [],
       typeParametersNamed ["K", "V"],
       .mk "class_body" true "body" "" 1 1
        [methodReturning "turn" ["U"] <| boxOf
          [.mk "array_type" true "" "" 1 1
            [.mk "type_identifier" true "element" "V" 1 1 [],
              .mk "dimensions" true "dimensions" "[]" 1 1 []],
           boxOf [typeNamed "K",
            .mk "wildcard" true "" "" 1 1 [.mk "super" false "" "super" 1 1 [], typeNamed "U"]]],
         methodReturning "wide" [] (boxOf [.mk "wildcard" true "" "" 1 1 [typeNamed "K"],
           typeNamed "V"]),
         methodReturning "own" ["K"] (typeNamed "K")]]]

/-- `b.name()` -/
def callOnBox (name : String) : Tree :=
  .mk "method_invocation" true "" "" 1 1
    [.mk "identifier" true "object" "b" 1 1 [], .mk "identifier" true "name" name 1 1 [],
     .mk "argument_list" true "arguments" "()" 1 1 []]

/-- A context with a variable `b` of type `Box<String, int[]>`. -/
def boxContext : Context :=
  (Context.ofFile {}).declare "b" (some (.reference "Box" [.string, .array .int]))

open ProjectIndex

/-- Arguments are put in arrays and in arguments of arguments, and the type variable
of the method stays. -/
theorem typeOf_call_of_generic_boxFile :
    let index := build [boxFile]
    let args := [.string, .array .int]
    ∃ member written type, index.BindsOnGeneric boxContext (callOnBox "turn") member args ∧
      member.method.returnType = some written ∧
      index.resolveInMember member.owner.qualified written member.method.typeParams = .ok type ∧
      type.occurrences false = [("V", false), ("K", false), ("U", true)] ∧
      index.typeOf boxContext (callOnBox "turn") = .ok (member.seenFrom args type) ∧
      (member.seenFrom args type).describe = "Box<int[][], Box<java.lang.String, ? super U>>" := by
  intro index args
  have hreceiver : index.receiver boxContext (.mk "identifier" true "object" "b" 1 1 []) =
      .ok (.value (.reference "Box" args)) := receiver_of_variableType rfl rfl
  have hkind : (callOnBox "turn").kind = "method_invocation" := rfl
  obtain ⟨member, hbinds, hparams, hown, written, hwritten, htype⟩ :=
    exists_bindsOnGeneric "Box" ["K", "V"] ["U"] (.reference "Box" [.array (.typeVariable "V"),
      .reference "Box" [.typeVariable "K", .bounded .super (.typeVariable "U")]])
      hkind rfl hreceiver (by decide +kernel) rfl (by decide)
  refine ⟨member, written, _, hbinds, hwritten, htype, rfl, ?_, ?_⟩
  · refine (((typeOf_call_of_generic hbinds).2 written hwritten).2 _ htype).2.2 ?_
    rw [hparams, hown]
    decide
  · have hstands : member.standsFor args = fun o =>
        if o.1 ∈ ["U"] then .typeVariable o.1 else argumentFor ["K", "V"] args o.1 := by
      funext o
      rw [Member.standsFor, hparams, hown]
    rw [Member.seenFrom, hstands]
    decide +kernel

/-- In `Box<? extends K, V>` the bound stays as it is, and a method's own `K` becomes
the argument of the class. -/
theorem not_seenFrom_boundedReturn :
    let index := build [boxFile]
    let args := [.string, .array .int]
    (index.typeOf boxContext (callOnBox "wide")).toOption.map describe =
      some "Box<? extends K, int[]>" ∧
      (index.typeOf boxContext (callOnBox "own")).toOption.map describe = some "java.lang.String" ∧
      (∃ member written type, index.BindsOnGeneric boxContext (callOnBox "wide") member args ∧
        member.method.returnType = some written ∧
        index.resolveInMember member.owner.qualified written member.method.typeParams = .ok type ∧
        (member.seenFrom args type).describe = "Box<? extends java.lang.String, int[]>" ∧
        index.typeOf boxContext (callOnBox "wide") ≠ .ok (member.seenFrom args type)) ∧
      ∃ member written type, index.BindsOnGeneric boxContext (callOnBox "own") member args ∧
        member.method.returnType = some written ∧
        index.resolveInMember member.owner.qualified written member.method.typeParams = .ok type ∧
        (member.seenFrom args type).describe = "K" ∧
        index.typeOf boxContext (callOnBox "own") ≠ .ok (member.seenFrom args type) := by
  intro index args
  have hwide : (index.typeOf boxContext (callOnBox "wide")).toOption.map describe =
      some "Box<? extends K, int[]>" := by decide +kernel
  have hown : (index.typeOf boxContext (callOnBox "own")).toOption.map describe =
      some "java.lang.String" := by
    decide +kernel
  have hreceiver : index.receiver boxContext (.mk "identifier" true "object" "b" 1 1 []) =
      .ok (.value (.reference "Box" args)) := receiver_of_variableType rfl rfl
  refine ⟨hwide, hown, ?_, ?_⟩
  · have hkind : (callOnBox "wide").kind = "method_invocation" := rfl
    obtain ⟨member, hbinds, hparams, hnone, written, hwritten, htype⟩ :=
      exists_bindsOnGeneric "Box" ["K", "V"] []
        (.reference "Box" [.bounded .extends (.typeVariable "K"), .typeVariable "V"])
        hkind rfl hreceiver (by decide +kernel) rfl (by decide)
    have hstands : member.standsFor args = fun o => argumentFor ["K", "V"] args o.1 := by
      funext o
      rw [Member.standsFor, hparams, hnone]
      rfl
    have hseen : (member.seenFrom args (.reference "Box"
        [.bounded .extends (.typeVariable "K"), .typeVariable "V"])).describe =
          "Box<? extends java.lang.String, int[]>" := by
      rw [Member.seenFrom, hstands]
      decide +kernel
    refine ⟨member, written, _, hbinds, hwritten, htype, hseen, fun heq => ?_⟩
    rw [heq, Except.toOption, Option.map_some, hseen] at hwide
    exact absurd hwide (by decide)
  · have hkind : (callOnBox "own").kind = "method_invocation" := rfl
    obtain ⟨member, hbinds, hparams, hk, written, hwritten, htype⟩ :=
      exists_bindsOnGeneric "Box" ["K", "V"] ["K"] (.typeVariable "K")
        hkind rfl hreceiver (by decide +kernel) rfl (by decide)
    have hseen : (member.seenFrom args (.typeVariable "K")).describe = "K" := by
      rw [Member.seenFrom, replaceVariables, Member.standsFor, hk]
      rfl
    refine ⟨member, written, _, hbinds, hwritten, htype, hseen, fun heq => ?_⟩
    rw [heq, Except.toOption, Option.map_some, hseen] at hown
    exact absurd hown (by decide)

end CodeGraph.Java
