import CodeGraph.Proofs.Java.Scopes

/-!
# Names in the header and in the body of a type

In the header of a type, its `extends` and `implements` clauses, the type itself and its members are
not visible; in the body they come before everything else. So a name means the same in both places
unless the type `Shadows` it (`resolveSimple_memberScope`), and what the header resolves the body
resolves as well, if not to the same (`exists_resolveType_memberScope`).

* `mem_supertypes_iff`: the supertypes of a type are the classes to which its
  clauses resolve in the header.
* `qualified?_resolveType_memberScope`: a clause that begins with no shadowed name stands for the
  same class in the body.
-/

namespace CodeGraph.Java

/-- The simple name that the name of a class or of the elements of an array begins with. -/
def WrittenType.leading? : WrittenType → Option String
  | named name _ => (Text.split '.' name).head?
  | array element _ => element.leading?
  | _ => none

/-- The types in the header of a declaration, each with the relationship that it stands for. -/
def TypeDecl.clauses (decl : TypeDecl) : List (WrittenType × Relation) :=
  decl.superclass.toList.map (·, .extends) ++ decl.interfaces.map (·, interfaceRelation decl.kind)

namespace ProjectIndex

variable (index : ProjectIndex)

/-- The qualified name of a simple name. -/
def resolveSimple (simple : String) (scope : TypeScope) : Option String :=
  Id.run (Naming.resolveSimple index index.ancestors simple scope)

/-- The types that several written types stand for. -/
def resolveTypes (types : List WrittenType) (scope : TypeScope) :
    Except Unresolved (List ResolvedType) :=
  Id.run (Naming.resolveTypes index index.ancestors scope types)

/-- In the body of the type the name stands for the type itself or for a member type of it,
inherited ones included. -/
def Shadows (q simple : String) : Prop :=
  (index.get? q).any (·.name == simple) ∨ (index.memberType q simple).isSome

instance (q simple : String) : Decidable (index.Shadows q simple) :=
  inferInstanceAs (Decidable (_ ∨ _))

variable {index} {q simple name : String} {d : TypeDecl}

/-! ## Simple names -/

/-- **In the body a name is the type itself, or else a member of it, or else what it
is in the header.** -/
theorem resolveSimple_memberScope (hd : index.get? q = some d) (hq : d.qualified = q) :
    index.resolveSimple simple (index.memberScope q) =
      if d.name = simple then some q
      else (index.memberType q simple).or (index.resolveSimple simple (index.headerScope q)) := by
  simp only [memberScope_eq hd, resolveSimple, Naming.resolveSimple, List.reverse_append,
    List.reverse_singleton, List.singleton_append, Naming.inEnclosing, hq, hd, Option.any_some,
    beq_iff_eq]
  split
  · rfl
  · show _ = Option.or (Id.run (Naming.memberType index index.ancestors q simple)) _
    generalize Naming.memberType index index.ancestors q simple = found
    cases found with
    | none => rfl
    | some found => rfl

theorem resolveSimple_of_not_shadows (hd : index.get? q = some d) (hq : d.qualified = q)
    (h : ¬index.Shadows q simple) :
    index.resolveSimple simple (index.memberScope q) =
      index.resolveSimple simple (index.headerScope q) := by
  obtain ⟨hself, hmember⟩ := not_or.1 h
  have hname : d.name ≠ simple := by simpa [hd] using hself
  rw [resolveSimple_memberScope hd hq, if_neg hname, Option.not_isSome_iff_eq_none.1 hmember,
    Option.none_or]

theorem isSome_resolveSimple_memberScope (hd : index.get? q = some d) (hq : d.qualified = q)
    (h : (index.resolveSimple simple (index.headerScope q)).isSome) :
    (index.resolveSimple simple (index.memberScope q)).isSome := by
  rw [resolveSimple_memberScope hd hq]
  split
  · rfl
  · rw [Option.isSome_or, h, Bool.or_true]

/-! ## Dotted names -/

theorem resolveName_of_split_eq {head : String} {rest : List String}
    (hsplit : Text.split '.' name = head :: rest) (scope : TypeScope) :
    index.resolveName name scope =
      match index.resolveSimple head scope with
      | some base => some (Id.run (Naming.nestedPath index index.ancestors base rest))
      | none =>
        if rest.isEmpty then none else
          Id.run (Naming.resolveQualified index index.ancestors name) := by
  simp only [resolveName, Naming.resolveName, hsplit, resolveSimple]
  generalize Naming.resolveSimple index index.ancestors head scope = found
  cases found with
  | none => exact apply_ite Id.run _ _ _
  | some base => rfl

theorem resolveName_of_not_shadows (hd : index.get? q = some d) (hq : d.qualified = q)
    (h : ∀ head ∈ (Text.split '.' name).head?, ¬index.Shadows q head) :
    index.resolveName name (index.memberScope q) =
      index.resolveName name (index.headerScope q) := by
  cases hsplit : Text.split '.' name with
  | nil => simp only [resolveName, Naming.resolveName, hsplit]
  | cons head rest =>
    have hhead : ¬index.Shadows q head := h head (by rw [hsplit]; rfl)
    rw [resolveName_of_split_eq hsplit, resolveName_of_split_eq hsplit,
      resolveSimple_of_not_shadows hd hq hhead]

/-- What the header finds the body finds, if not the same. -/
theorem isSome_resolveName_memberScope (hd : index.get? q = some d) (hq : d.qualified = q)
    (h : (index.resolveName name (index.headerScope q)).isSome) :
    (index.resolveName name (index.memberScope q)).isSome := by
  cases hsplit : Text.split '.' name with
  | nil =>
    simp only [resolveName, Naming.resolveName, hsplit] at h
    cases h
  | cons head rest =>
    rw [resolveName_of_split_eq hsplit] at h ⊢
    cases hmember : index.resolveSimple head (index.memberScope q) with
    | some base => rfl
    | none =>
      have hheader : index.resolveSimple head (index.headerScope q) = none := by
        by_contra hne
        have hsome := isSome_resolveSimple_memberScope hd hq (Option.isSome_iff_ne_none.2 hne)
        rw [hmember] at hsome
        cases hsome
      rwa [hheader] at h

/-! ## Types -/

theorem exists_of_map_eq_ok {ε α β : Type} {x : Except ε α} {f : α → β} {b : β}
    (h : x.map f = .ok b) :
    ∃ a, x = .ok a ∧ b = f a := by
  cases x with
  | error e => cases h
  | ok a =>
    cases h
    exact ⟨a, rfl, rfl⟩

theorem typeVars_memberScope (hd : index.get? q = some d) :
    (index.memberScope q).typeVars = (index.headerScope q).typeVars := by
  rw [memberScope_eq hd]

theorem resolveType_array (element : WrittenType) (n : Nat) (scope : TypeScope) :
    index.resolveType (.array element n) scope =
      (index.resolveType element scope).map (.arrays n) := by
  simp only [resolveType, Naming.resolveType]
  rfl

theorem resolveType_bounded (b : Bound) (type : WrittenType) (scope : TypeScope) :
    index.resolveType (.bounded b type) scope =
      (index.resolveType type scope).map (.bounded b) := by
  simp only [resolveType, Naming.resolveType]
  rfl

theorem resolveType_named (name : String) (args : List WrittenType) (scope : TypeScope) :
    index.resolveType (.named name args) scope =
      if args.isEmpty && scope.typeVars.contains name then .ok (.typeVariable name)
      else match index.resolveName name scope with
        | none => .error ⟨(WrittenType.named name args).written, .unknownType⟩
        | some qualified => (index.resolveTypes args scope).map (.reference qualified) := by
  simp only [resolveType, Naming.resolveType, resolveName, resolveTypes]
  split
  · rfl
  · generalize Naming.resolveName index index.ancestors name scope = found
    cases found <;> rfl

theorem resolveTypes_cons (type : WrittenType) (types : List WrittenType) (scope : TypeScope) :
    index.resolveTypes (type :: types) scope =
      match index.resolveType type scope with
      | .error e => .error e
      | .ok r => (index.resolveTypes types scope).map (r :: ·) := by
  simp only [resolveType, Naming.resolveTypes, resolveTypes]
  generalize Naming.resolveType index index.ancestors scope type = resolved
  cases resolved <;> rfl

mutual

/-- **What the header resolves the body resolves, too,** if not to the same. -/
theorem exists_resolveType_memberScope (hd : index.get? q = some d) (hq : d.qualified = q)
    {type : WrittenType} {r : ResolvedType}
    (h : index.resolveType type (index.headerScope q) = .ok r) :
    ∃ r', index.resolveType type (index.memberScope q) = .ok r' := by
  match type with
  | .primitive p => exact ⟨_, rfl⟩
  | .wildcard => exact ⟨_, rfl⟩
  | .array element n =>
    rw [resolveType_array] at h ⊢
    obtain ⟨r, hr, -⟩ := exists_of_map_eq_ok h
    obtain ⟨r', hr'⟩ := exists_resolveType_memberScope hd hq hr
    exact ⟨_, by rw [hr']; rfl⟩
  | .bounded b type =>
    rw [resolveType_bounded] at h ⊢
    obtain ⟨r, hr, -⟩ := exists_of_map_eq_ok h
    obtain ⟨r', hr'⟩ := exists_resolveType_memberScope hd hq hr
    exact ⟨_, by rw [hr']; rfl⟩
  | .named name args =>
    rw [resolveType_named] at h ⊢
    rw [typeVars_memberScope hd]
    split
    · exact ⟨_, rfl⟩
    · rename_i hvar
      rw [if_neg hvar] at h
      cases hheader : index.resolveName name (index.headerScope q) with
      | none =>
        rw [hheader] at h
        cases h
      | some qualified =>
        rw [hheader] at h
        obtain ⟨rs, hrs, -⟩ := exists_of_map_eq_ok h
        obtain ⟨rs', hrs'⟩ := exists_resolveTypes_memberScope hd hq hrs
        obtain ⟨qualified', hmember⟩ := Option.isSome_iff_exists.1
          (isSome_resolveName_memberScope hd hq (Option.isSome_of_eq_some hheader))
        exact ⟨_, by rw [hmember, hrs']; rfl⟩

theorem exists_resolveTypes_memberScope (hd : index.get? q = some d) (hq : d.qualified = q)
    {types : List WrittenType} {rs : List ResolvedType}
    (h : index.resolveTypes types (index.headerScope q) = .ok rs) :
    ∃ rs', index.resolveTypes types (index.memberScope q) = .ok rs' := by
  match types with
  | [] => exact ⟨_, rfl⟩
  | type :: types =>
    rw [resolveTypes_cons] at h ⊢
    cases htype : index.resolveType type (index.headerScope q) with
    | error e =>
      rw [htype] at h
      cases h
    | ok r =>
      rw [htype] at h
      obtain ⟨rs, hrs, -⟩ := exists_of_map_eq_ok h
      obtain ⟨r', hr'⟩ := exists_resolveType_memberScope hd hq htype
      obtain ⟨rs', hrs'⟩ := exists_resolveTypes_memberScope hd hq hrs
      exact ⟨_, by rw [hr', hrs']; rfl⟩

end

/-- **A type that begins with no shadowed name stands for the same class in the body
as in the header.** -/
theorem qualified?_resolveType_memberScope (hd : index.get? q = some d) (hq : d.qualified = q)
    {type : WrittenType} {r : ResolvedType}
    (h : index.resolveType type (index.headerScope q) = .ok r)
    (hleading : ∀ head ∈ type.leading?, ¬index.Shadows q head) :
    ∃ r', index.resolveType type (index.memberScope q) = .ok r' ∧ r'.qualified? = r.qualified? := by
  match type with
  | .primitive p => exact ⟨_, h, rfl⟩
  | .wildcard => exact ⟨_, h, rfl⟩
  | .bounded b type =>
    rw [resolveType_bounded] at h ⊢
    obtain ⟨s, hs, rfl⟩ := exists_of_map_eq_ok h
    obtain ⟨s', hs'⟩ := exists_resolveType_memberScope hd hq hs
    exact ⟨.bounded b s', by rw [hs']; rfl, rfl⟩
  | .array element n =>
    rw [resolveType_array] at h ⊢
    obtain ⟨s, hs, rfl⟩ := exists_of_map_eq_ok h
    obtain ⟨s', hs', hsame⟩ := qualified?_resolveType_memberScope hd hq hs hleading
    refine ⟨_, by rw [hs']; rfl, ?_⟩
    cases n with
    | zero => exact hsame
    | succ n => rfl
  | .named name args =>
    rw [resolveType_named] at h ⊢
    rw [typeVars_memberScope hd, resolveName_of_not_shadows hd hq hleading]
    split at h
    · rename_i hvar
      exact ⟨_, by rw [if_pos hvar]; exact h, rfl⟩
    · rename_i hvar
      rw [if_neg hvar]
      cases hname : index.resolveName name (index.headerScope q) with
      | none =>
        rw [hname] at h
        cases h
      | some qualified =>
        rw [hname] at h
        obtain ⟨rs, hrs, rfl⟩ := exists_of_map_eq_ok h
        obtain ⟨rs', hrs'⟩ := exists_resolveTypes_memberScope hd hq hrs
        exact ⟨.reference qualified rs', by rw [hrs']; rfl, rfl⟩

/-! ## Clauses -/

/-- The class types that several written types resolve to. -/
theorem mem_resolveHeader_iff {n : String} {scope : TypeScope} {types : List WrittenType} :
    n ∈ Id.run (Naming.resolveHeader index index.ancestors scope types) ↔
      ∃ type ∈ types, ∃ args, index.resolveType type scope = .ok (.reference n args) := by
  induction types with
  | nil => simp [Naming.resolveHeader]
  | cons type types ih =>
    rw [List.exists_mem_cons_iff, ← ih]
    simp only [Naming.resolveHeader, resolveType]
    generalize Naming.resolveType index index.ancestors scope type = resolved
    generalize Naming.resolveHeader index index.ancestors scope types = rest
    cases hresolved : Id.run resolved with
    | error e => simp [hresolved]
    | ok r => cases r <;> simp [hresolved, eq_comm]

/-- **The supertypes of a type are the classes to which its clauses resolve in the header.** -/
theorem mem_supertypes_iff (hd : index.get? q = some d) {n : String} :
    n ∈ index.supertypes q ↔ ∃ c ∈ d.clauses, ∃ args,
      index.resolveType c.1 (index.headerScope q) = .ok (.reference n args) := by
  have hsupertypes : index.supertypes q = Id.run (Naming.resolveHeader index index.ancestors
      (index.headerScope q) (d.superclass.toList ++ d.interfaces)) := by
    rw [supertypes, Naming.supertypes, hd]
  have hclauses : d.superclass.toList ++ d.interfaces = d.clauses.map Prod.fst := by
    simp [TypeDecl.clauses, Function.comp_def]
  rw [hsupertypes, mem_resolveHeader_iff, hclauses]
  simp only [List.mem_map, exists_exists_and_eq_and]

end ProjectIndex

end CodeGraph.Java
