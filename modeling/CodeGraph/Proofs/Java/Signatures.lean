import CodeGraph.Proofs.Indexing.Owners
import CodeGraph.Proofs.Java.Entered
import CodeGraph.Proofs.Text.Lines

/-!
# What a signature determines

A signature puts a comma and a blank between parameters, and the text of a type does the
same between type arguments. It can be read back all the same, as the commas of a type
are inside angle brackets.

* `eq_of_intercalate_eq`: texts that close the brackets they open and have no comma outside of them
  (`Whole`) are determined by what they are put together to.
* `WellFormed.whole`, `WellFormed.appearance_eq`: such is the text of a well-formed type, and it
  determines the type up to `appearance`: a primitive type, a class without type arguments and a
  type variable look the same.
* `signature_determines`: so a signature determines the name, the number of parameters, and of each
  of them whether it is variadic and the appearance of its type.
-/

namespace CodeGraph.Java

/-! ## Commas outside angle brackets -/

/-- The characters before the first comma outside the angle brackets, of which so many are open. -/
def piece : (depth : Nat) → List Char → List Char
  | _, [] => []
  | depth, c :: cs =>
    if c = ',' ∧ depth = 0 then []
    else c :: piece (if c = '<' then depth + 1 else if c = '>' then depth - 1 else depth) cs

/-- The text closes the angle brackets that it opens, and it has no comma outside of them. -/
def Whole (cs : List Char) : Prop := ∀ depth rest, piece depth (cs ++ rest) = cs ++ piece depth rest

/-- What is between two parts of a list. -/
def separator : List Char := [',', ' ']

/-- Type arguments in angle brackets, if there are any. -/
def angle : List (List Char) → List Char
  | [] => []
  | text :: texts => '<' :: (separator.intercalate (text :: texts) ++ ['>'])

section Whole

variable {cs ds : List Char} {texts texts' : List (List Char)}

theorem Whole.nil : Whole [] := fun _ _ => rfl

theorem Whole.append (hc : Whole cs) (hd : Whole ds) : Whole (cs ++ ds) := fun depth rest => by
  rw [List.append_assoc, hc, hd, List.append_assoc]

theorem Whole.of_notMem (hcomma : ',' ∉ cs) (hopen : '<' ∉ cs) (hclose : '>' ∉ cs) : Whole cs := by
  intro depth rest
  induction cs with
  | nil => rfl
  | cons c cs ih =>
    rw [List.mem_cons, not_or] at hcomma hopen hclose
    rw [List.cons_append, piece, if_neg fun hc => hcomma.1 hc.1.symm,
      if_neg fun hc => hopen.1 hc.symm, if_neg fun hc => hclose.1 hc.symm,
      ih hcomma.2 hopen.2 hclose.2, List.cons_append]

/-- Inside a bracket commas are passed over. -/
theorem piece_intercalate (h : ∀ text ∈ texts, Whole text) (depth : Nat) (rest : List Char) :
    piece (depth + 1) (separator.intercalate texts ++ rest) =
      separator.intercalate texts ++ piece (depth + 1) rest := by
  induction texts with
  | nil => rfl
  | cons text texts ih =>
    have htext := h text List.mem_cons_self
    cases texts with
    | nil => simpa using htext (depth + 1) rest
    | cons next texts =>
      have hcomma (cs : List Char) :
          piece (depth + 1) (separator ++ cs) = separator ++ piece (depth + 1) cs := rfl
      rw [List.intercalate_cons_cons, List.append_assoc, List.append_assoc, htext, hcomma,
        ih fun t ht => h t (List.mem_cons_of_mem _ ht), List.append_assoc, List.append_assoc]

theorem Whole.angle (h : ∀ text ∈ texts, Whole text) : Whole (angle texts) := by
  cases texts with
  | nil => exact .nil
  | cons text texts =>
    intro depth rest
    have hopen (cs : List Char) : piece depth ('<' :: cs) = '<' :: piece (depth + 1) cs := rfl
    have hclose (cs : List Char) : piece (depth + 1) ('>' :: cs) = '>' :: piece depth cs := rfl
    rw [Java.angle, List.cons_append, hopen, List.append_assoc, piece_intercalate h,
      List.cons_append, List.nil_append, hclose]
    simp

/-- The first part is what stands before the first comma outside of brackets. -/
theorem piece_intercalate_cons (h : Whole cs) (texts : List (List Char)) :
    piece 0 (separator.intercalate (cs :: texts)) = cs := by
  cases texts with
  | nil => simpa [piece] using h 0 []
  | cons text texts =>
    have hcomma (ds : List Char) : piece 0 (separator ++ ds) = [] := rfl
    rw [List.intercalate_cons_cons, List.append_assoc, h, hcomma, List.append_nil]

/-- **Parts in one piece are determined by the list they make.** -/
theorem eq_of_intercalate_eq (h : ∀ text ∈ texts, Whole text ∧ text ≠ [])
    (h' : ∀ text ∈ texts', Whole text ∧ text ≠ [])
    (heq : separator.intercalate texts = separator.intercalate texts') : texts = texts' := by
  induction texts generalizing texts' with
  | nil =>
    cases texts' with
    | nil => rfl
    | cons text' texts' =>
      obtain ⟨hwhole, hne⟩ := h' text' List.mem_cons_self
      rw [← piece_intercalate_cons hwhole texts', ← heq] at hne
      exact absurd rfl hne
  | cons text texts ih =>
    obtain ⟨hwhole, hne⟩ := h text List.mem_cons_self
    cases texts' with
    | nil =>
      rw [← piece_intercalate_cons hwhole texts, heq] at hne
      exact absurd rfl hne
    | cons text' texts' =>
      have hfirst : text = text' := by
        rw [← piece_intercalate_cons hwhole texts, heq,
          piece_intercalate_cons (h' text' List.mem_cons_self).1]
      subst hfirst
      have hrest : texts = [] ↔ texts' = [] := by
        cases texts <;> cases texts' <;> simp [separator] at heq ⊢
      congr 1
      refine ih (fun t ht => h t (List.mem_cons_of_mem _ ht))
        (fun t ht => h' t (List.mem_cons_of_mem _ ht)) ?_
      cases texts with
      | nil => rw [hrest.1 rfl]
      | cons next texts =>
        obtain ⟨next', texts', rfl⟩ := List.exists_cons_of_ne_nil fun hnil => by cases hrest.2 hnil
        rw [List.intercalate_cons_cons, List.intercalate_cons_cons] at heq
        exact List.append_cancel_left heq

end Whole

theorem map_eq_map_of_forall {α β γ : Type} {f : α → β} {g : α → γ} {xs ys : List α}
    (h : ∀ x ∈ xs, ∀ y ∈ ys, f x = f y → g x = g y) (heq : xs.map f = ys.map f) :
    xs.map g = ys.map g := by
  induction xs generalizing ys with
  | nil =>
    cases ys with
    | nil => rfl
    | cons => cases heq
  | cons x xs ih =>
    cases ys with
    | nil => cases heq
    | cons y ys =>
      obtain ⟨hhead, htail⟩ := List.cons.inj heq
      rw [List.map_cons, List.map_cons, h x List.mem_cons_self y List.mem_cons_self hhead,
        ih (fun x' hx' y' hy' => h x' (List.mem_cons_of_mem _ hx') y' (List.mem_cons_of_mem _ hy'))
          htail]

/-! ## Names -/

/-- The characters that the texts of types and signatures are put together with. -/
def punctuation : List Char := ['<', '>', ',', '[', ']', '?', '(', ')', ' ']

/-- A name of segments with dots between them, none of them empty, and without punctuation. -/
def IsDottedName (name : String) : Prop :=
  (∀ segment ∈ Text.split '.' name, segment ≠ "") ∧ ∀ c ∈ name.toList, c ∉ punctuation

instance (name : String) : Decidable (IsDottedName name) :=
  @instDecidableAnd _ _ (List.decidableBAll _ _) (List.decidableBAll _ _)

namespace IsDottedName

variable {name name' : String} {texts texts' : List (List Char)}

theorem ne_nil (h : IsDottedName name) : name.toList ≠ [] := fun hnil =>
  h.1 "" (by rw [Text.split, hnil]; exact List.mem_cons_self) rfl

/-- A name does not end in a dot, as its last segment is not empty. -/
theorem getLast?_ne (h : IsDottedName name) : name.toList.getLast? ≠ some '.' := fun hlast => by
  obtain ⟨front, hfront⟩ := List.getLast?_eq_some_iff.1 hlast
  refine h.1 "" ?_ rfl
  rw [Text.split, hfront, Text.splitAll_append]
  exact List.mem_map.2 ⟨[], List.mem_append_right _ List.mem_cons_self, rfl⟩

theorem notMem (h : IsDottedName name) {c : Char} (hc : c ∈ punctuation) : c ∉ name.toList :=
  fun hmem => h.2 c hmem hc

theorem whole (h : IsDottedName name) : Whole name.toList :=
  .of_notMem (h.notMem (by decide)) (h.notMem (by decide)) (h.notMem (by decide))

/-- A name and its type arguments are determined by their text. -/
theorem eq_of_append_angle (h : IsDottedName name) (h' : IsDottedName name')
    (ht : ∀ text ∈ texts, Whole text ∧ text ≠ []) (ht' : ∀ text ∈ texts', Whole text ∧ text ≠ [])
    (heq : name.toList ++ angle texts = name'.toList ++ angle texts') :
    name = name' ∧ texts = texts' := by
  have hopen : '<' ∉ name.toList := h.notMem (by decide)
  have hopen' : '<' ∉ name'.toList := h'.notMem (by decide)
  cases texts with
  | nil =>
    cases texts' with
    | nil => exact ⟨String.toList_inj.1 (by simpa [angle] using heq), rfl⟩
    | cons text' texts' =>
      rw [angle, List.append_nil, angle] at heq
      exact absurd (heq ▸ List.mem_append_right _ List.mem_cons_self) hopen
  | cons text texts =>
    cases texts' with
    | nil =>
      rw [angle, angle, List.append_nil] at heq
      exact absurd (heq ▸ List.mem_append_right _ List.mem_cons_self) hopen'
    | cons text' texts' =>
      have hname : name.toList = name'.toList := eq_of_append_cons_eq heq hopen hopen'
      rw [hname] at heq
      have hinner := List.append_cancel_right (List.cons.inj (List.append_cancel_left heq)).2
      exact ⟨String.toList_inj.1 hname, eq_of_intercalate_eq ht ht' hinner⟩

end IsDottedName

/-! ## Types -/

namespace ResolvedType

/-- The characters of the text of a type. -/
def text (t : ResolvedType) : List Char := t.describe.toList

/-- The name of a type with its type arguments. A primitive type and a type variable
have none of these. -/
def named? : ResolvedType → Option (String × List ResolvedType)
  | primitive p => some (p, [])
  | reference q args => some (q, args)
  | typeVariable v => some (v, [])
  | _ => none

mutual

/-- A type as its text shows it: a primitive type and a type variable look like a class. -/
def appearance : ResolvedType → ResolvedType
  | primitive p => reference p []
  | reference q args => reference q (appearances args)
  | array e => array e.appearance
  | typeVariable v => reference v []
  | wildcard => wildcard
  | bounded b t => bounded b t.appearance
  | nullType => nullType

/-- Several types as their texts show them. -/
def appearances : List ResolvedType → List ResolvedType
  | [] => []
  | t :: ts => t.appearance :: appearances ts

end

/-- The names in the type are dotted names, wildcards occur in it as type arguments only, and the
type of `null` does not. -/
inductive WellFormed : (asArgument : Bool) → ResolvedType → Prop
  | named {asArgument : Bool} {t : ResolvedType} {name : String} {args : List ResolvedType}
      (ht : t.named? = some (name, args)) (hname : IsDottedName name) (hargs : ∀ a ∈ args,
        WellFormed true a) :
      WellFormed asArgument t
  | array {asArgument : Bool} {e : ResolvedType} (he : WellFormed false e) :
      WellFormed asArgument (.array e)
  | wildcard : WellFormed true .wildcard
  | bounded {b : Bound} {t : ResolvedType} (ht : WellFormed false t) :
      WellFormed true (.bounded b t)

variable {t u e : ResolvedType} {name : String} {args : List ResolvedType}
  {asArgument asArgument' : Bool}

theorem appearances_eq_map (ts : List ResolvedType) : appearances ts = ts.map appearance := by
  induction ts with
  | nil => rfl
  | cons t ts ih => rw [appearances, ih, List.map_cons]

theorem describes_eq_map (ts : List ResolvedType) : describes ts = ts.map describe := by
  induction ts with
  | nil => rfl
  | cons t ts ih => rw [describes, ih, List.map_cons]

mutual

/-- The text of a type shows no more than its appearance. -/
theorem describe_appearance (t : ResolvedType) : t.appearance.describe = t.describe := by
  match t with
  | .primitive _ => rfl
  | .reference _ [] => rfl
  | .reference q (a :: args) =>
    have hargs := describes_appearances (a :: args)
    rw [appearances] at hargs
    rw [appearance, appearances, describe, describe, hargs]
  | .array e => rw [appearance, describe, describe, describe_appearance e]
  | .typeVariable _ => rfl
  | .wildcard => rfl
  | .bounded _ t => rw [appearance, describe, describe, describe_appearance t]
  | .nullType => rfl

theorem describes_appearances (ts : List ResolvedType) :
    describes (appearances ts) = describes ts := by
  match ts with
  | [] => rfl
  | t :: ts =>
    rw [appearances, describes, describes, describe_appearance t, describes_appearances ts]

end

/-! ### Texts -/

theorem map_toList_describes (ts : List ResolvedType) :
    (describes ts).map String.toList = ts.map text := by
  rw [describes_eq_map, List.map_map]
  rfl

theorem text_of_named? (h : t.named? = some (name, args)) :
    t.text = name.toList ++ angle (args.map text) := by
  cases t <;> cases h
  case primitive => simp [text, describe, angle]
  case typeVariable => simp [text, describe, angle]
  case reference =>
    cases args with
    | nil => simp [text, describe, angle]
    | cons a args =>
      rw [text, describe]
      simp only [String.toList_append, String.toList_intercalate, map_toList_describes]
      simp [separator, angle]

theorem text_array : (array e).text = e.text ++ ['[', ']'] := by
  simp [text, describe]

theorem text_bounded (b : Bound) :
    (bounded b t).text = '?' :: ' ' :: (b.keyword.toList ++ ' ' :: t.text) := by
  simp [text, describe]

theorem appearance_of_named? (h : t.named? = some (name, args)) :
    t.appearance = reference name (args.map appearance) := by
  cases t <;> cases h <;> simp [appearance, appearances_eq_map]

namespace WellFormed

theorem text_ne_nil (h : t.WellFormed asArgument) : t.text ≠ [] := by
  cases h with
  | named ht hname =>
    rw [text_of_named? ht]
    exact List.append_ne_nil_of_left_ne_nil hname.ne_nil _
  | array =>
    rw [text_array]
    exact List.append_ne_nil_of_right_ne_nil _ (List.cons_ne_nil _ _)
  | wildcard => exact List.cons_ne_nil _ _
  | bounded =>
    rw [text_bounded]
    exact List.cons_ne_nil _ _

/-- **The commas of a type are inside angle brackets.** -/
theorem whole (h : t.WellFormed asArgument) : Whole t.text := by
  induction h with
  | named ht hname _ ih =>
    rw [text_of_named? ht]
    exact hname.whole.append (.angle (List.forall_mem_map.2 ih))
  | array _ ih =>
    rw [text_array]
    exact ih.append (.of_notMem (by decide) (by decide) (by decide))
  | wildcard => exact .of_notMem (by decide) (by decide) (by decide)
  | @bounded b t _ ih =>
    have hkeyword : Whole ('?' :: ' ' :: (b.keyword.toList ++ [' '])) := by
      cases b <;> exact .of_notMem (by decide) (by decide) (by decide)
    rw [text_bounded]
    simpa using hkeyword.append ih

end WellFormed

/-! ### How texts begin and end -/

theorem head?_text_of_named? (ht : t.named? = some (name, args)) (hname : IsDottedName name) :
    t.text.head? ≠ some '?' := fun hhead => by
  rw [text_of_named? ht, List.head?_append_of_ne_nil _ hname.ne_nil] at hhead
  exact hname.notMem (by decide) (List.mem_of_mem_head? hhead)

theorem getLast?_text_of_named? (ht : t.named? = some (name, args)) :
    t.text.getLast? = name.toList.getLast? ∨ t.text.getLast? = some '>' := by
  rw [text_of_named? ht]
  cases args with
  | nil => exact .inl (by rw [List.map_nil, angle, List.append_nil])
  | cons a args =>
    rw [List.map_cons, angle, ← List.cons_append, ← List.append_assoc]
    exact .inr List.getLast?_concat

theorem getLast?_text_array : (array e).text.getLast? = some ']' := by
  rw [text_array, ← List.singleton_append, ← List.append_assoc]
  exact List.getLast?_concat

theorem text_ne_text_array (ht : t.named? = some (name, args)) (hname : IsDottedName name) :
    t.text ≠ (array e).text := fun heq => by
  have hlast := getLast?_text_array (e := e)
  rw [← heq] at hlast
  rcases getLast?_text_of_named? ht with h | h
  · rw [h] at hlast
    exact hname.notMem (by decide) (List.mem_of_getLast? hlast)
  · rw [h] at hlast
    cases hlast

namespace WellFormed

/-- Only type arguments begin with a question mark. -/
theorem head?_text_ne (h : t.WellFormed false) : t.text.head? ≠ some '?' := by
  generalize hargument : false = asArgument at h
  induction h with
  | named ht hname => exact head?_text_of_named? ht hname
  | array he ih =>
    rw [text_array, List.head?_append_of_ne_nil _ he.text_ne_nil]
    exact ih rfl
  | wildcard => cases hargument
  | bounded => cases hargument

/-- Such types do not end in a dot. -/
theorem getLast?_text_ne (h : t.WellFormed false) : t.text.getLast? ≠ some '.' := by
  cases h with
  | named ht hname =>
    rcases getLast?_text_of_named? ht with h | h
    · rw [h]
      exact hname.getLast?_ne
    · rw [h]
      decide
  | array =>
    rw [getLast?_text_array]
    decide

/-- **A type can be read from its text**, up to its appearance. -/
theorem appearance_eq (h : t.WellFormed asArgument) (hu : u.WellFormed asArgument')
    (heq : t.text = u.text) :
    t.appearance = u.appearance := by
  have hparts {args : List ResolvedType} (hargs : ∀ a ∈ args, a.WellFormed true) :
      ∀ cs ∈ args.map text, Whole cs ∧ cs ≠ [] :=
    List.forall_mem_map.2 fun a ha => ⟨(hargs a ha).whole, (hargs a ha).text_ne_nil⟩
  induction h generalizing u asArgument' with
  | named ht hname hargs ih =>
    cases hu with
    | named hu hname' hargs' =>
      rw [text_of_named? ht, text_of_named? hu] at heq
      obtain ⟨rfl, htexts⟩ := hname.eq_of_append_angle hname' (hparts hargs) (hparts hargs') heq
      rw [appearance_of_named? ht, appearance_of_named? hu]
      refine congrArg _ (map_eq_map_of_forall (fun a ha a' ha' => ?_) htexts)
      exact ih a ha (hargs' a' ha')
    | array => exact absurd heq (text_ne_text_array ht hname)
    | wildcard => exact absurd (heq ▸ rfl) (head?_text_of_named? ht hname)
    | bounded => exact absurd (heq ▸ by rw [text_bounded]; rfl) (head?_text_of_named? ht hname)
  | array he ih =>
    cases hu with
    | named hu hname => exact absurd heq.symm (text_ne_text_array hu hname)
    | array he' =>
      rw [text_array, text_array] at heq
      rw [appearance, appearance, ih he' (List.append_cancel_right heq)]
    | wildcard => exact absurd (heq ▸ rfl) (WellFormed.array he).head?_text_ne
    | bounded => exact absurd (heq ▸ by rw [text_bounded]; rfl) (WellFormed.array he).head?_text_ne
  | wildcard =>
    cases hu with
    | named hu hname => exact absurd (heq ▸ rfl) (head?_text_of_named? hu hname)
    | array he => exact absurd (heq ▸ rfl) (WellFormed.array he).head?_text_ne
    | wildcard => rfl
    | bounded =>
      rw [text_bounded] at heq
      cases heq
  | @bounded b t ht ih =>
    cases hu with
    | named hu hname =>
      exact absurd (heq ▸ by rw [text_bounded]; rfl) (head?_text_of_named? hu hname)
    | array he => exact absurd (heq ▸ by rw [text_bounded]; rfl) (WellFormed.array he).head?_text_ne
    | wildcard =>
      rw [text_bounded] at heq
      cases heq
    | @bounded b' t' ht' =>
      have hblank (b : Bound) : ' ' ∉ b.keyword.toList := by cases b <;> decide
      rw [text_bounded, text_bounded] at heq
      have hrest := (List.cons.inj (List.cons.inj heq).2).2
      have hkeyword : b.keyword = b'.keyword :=
        String.toList_inj.1 (eq_of_append_cons_eq hrest (hblank b) (hblank b'))
      rw [hkeyword] at hrest
      have hbound : b = b' := by
        cases b <;> cases b' <;> first | rfl | exact absurd hkeyword (by decide)
      rw [appearance, appearance, hbound, ih ht' (List.cons.inj (List.append_cancel_left hrest)).2]

end WellFormed

end ResolvedType

/-! ## Parameters and signatures -/

open ResolvedType in
theorem ParamDecl.toList_shown (p : ParamDecl) (t : ResolvedType) :
    (p.shown t).toList = t.text ++ if p.varargs then ['.', '.', '.'] else [] := by
  unfold ParamDecl.shown
  split <;> simp [text]

namespace ProjectIndex

variable {index : ProjectIndex} {q : String} {typeParams typeParams' : List String}
  {p p' : ParamDecl} {t t' : ResolvedType} {m n : MethodDecl}

/-- A parameter, of a method with these type parameters, has this type, and the type
is well-formed. -/
def HasType (index : ProjectIndex) (q : String) (typeParams : List String) (p : ParamDecl)
    (t : ResolvedType) :
    Prop :=
  index.resolveInMember q p.type typeParams = .ok t ∧ t.WellFormed false

/-- Every parameter resolves to a well-formed type. -/
def WellFormedParams (index : ProjectIndex) (q : String) (m : MethodDecl) : Prop :=
  ∀ p ∈ m.params, ∃ t, index.HasType q m.typeParams p t

/-- The parameters, of methods with these type parameters, agree in being variadic, and
their types look the same. -/
def ParamsAlike (index : ProjectIndex) (q : String) (typeParams typeParams' : List String)
    (p p' : ParamDecl) : Prop :=
  p.varargs = p'.varargs ∧ ∃ t t', index.resolveInMember q p.type typeParams = .ok t ∧
    index.resolveInMember q p'.type typeParams' = .ok t' ∧ t.appearance = t'.appearance

theorem whole_shown (h : t.WellFormed false) :
    Whole (p.shown t).toList ∧ (p.shown t).toList ≠ [] := by
  rw [ParamDecl.toList_shown]
  refine ⟨h.whole.append ?_, List.append_ne_nil_of_left_ne_nil h.text_ne_nil _⟩
  split
  · exact .of_notMem (by decide) (by decide) (by decide)
  · exact .nil

/-- **A parameter can be read from what is shown of it.** -/
theorem eq_of_shown_eq (h : t.WellFormed false) (h' : t'.WellFormed false)
    (heq : p.shown t = p'.shown t') :
    p.varargs = p'.varargs ∧ t.appearance = t'.appearance := by
  have hlist := congrArg String.toList heq
  rw [ParamDecl.toList_shown, ParamDecl.toList_shown] at hlist
  cases hp : p.varargs <;> cases hp' : p'.varargs <;>
    simp only [hp, hp', Bool.false_eq_true, if_true, if_false, List.append_nil] at hlist
  case false.false => exact ⟨rfl, h.appearance_eq h' hlist⟩
  case false.true => exact absurd (hlist ▸ by simp) h.getLast?_text_ne
  case true.false => exact absurd (hlist ▸ by simp) h'.getLast?_text_ne
  case true.true => exact ⟨rfl, h.appearance_eq h' (List.append_cancel_right hlist)⟩

theorem shown_eq_iff (h : index.HasType q typeParams p t) (h' : index.HasType q typeParams' p' t') :
    p.shown t = p'.shown t' ↔ index.ParamsAlike q typeParams typeParams' p p' := by
  constructor
  · intro heq
    obtain ⟨hvarargs, hlook⟩ := eq_of_shown_eq h.2 h'.2 heq
    exact ⟨hvarargs, t, t', h.1, h'.1, hlook⟩
  · rintro ⟨hvarargs, u, u', hu, hu', hlook⟩
    obtain rfl : t = u := Except.ok.inj (h.1.symm.trans hu)
    obtain rfl : t' = u' := Except.ok.inj (h'.1.symm.trans hu')
    rw [ParamDecl.shown, ParamDecl.shown, hvarargs, ← t.describe_appearance, hlook,
      t'.describe_appearance]

section Lists

variable {params params' : List ParamDecl} {types types' : List ResolvedType}

theorem map_shown_eq_iff (h : List.Forall₂ (index.HasType q typeParams) params types)
    (h' : List.Forall₂ (index.HasType q typeParams') params' types') :
    List.zipWith ParamDecl.shown params types = List.zipWith ParamDecl.shown params' types' ↔
      List.Forall₂ (index.ParamsAlike q typeParams typeParams') params params' := by
  induction h generalizing params' types' with
  | nil => cases h' <;> simp
  | cons hp _ ih =>
    cases h' with
    | nil => simp
    | cons hp' hrest' =>
      rw [List.zipWith_cons_cons, List.zipWith_cons_cons, List.cons.injEq, ih hrest',
        List.forall₂_cons, shown_eq_iff hp hp']

/-- What is shown of parameters is determined by the list of it. -/
theorem eq_of_intercalate_shown (h : List.Forall₂ (index.HasType q typeParams) params types)
    (h' : List.Forall₂ (index.HasType q typeParams') params' types')
    (heq : ", ".intercalate (List.zipWith ParamDecl.shown params types) =
      ", ".intercalate (List.zipWith ParamDecl.shown params' types')) :
    List.zipWith ParamDecl.shown params types = List.zipWith ParamDecl.shown params' types' := by
  have hparts {typeParams : List String} {params : List ParamDecl} {types : List ResolvedType}
      (h : List.Forall₂ (index.HasType q typeParams) params types) :
      ∀ cs ∈ (List.zipWith ParamDecl.shown params types).map String.toList, Whole cs ∧ cs ≠ [] := by
    induction h with
    | nil => simp
    | cons hp _ ih => exact List.forall_mem_cons.2 ⟨whole_shown hp.2, ih⟩
  have hlist := congrArg String.toList heq
  rw [String.toList_intercalate, String.toList_intercalate] at hlist
  have hinjective : Function.Injective String.toList := fun _ _ => String.toList_inj.1
  exact List.map_injective_iff.2 hinjective (eq_of_intercalate_eq (hparts h) (hparts h') hlist)

end Lists

theorem exists_signature (h : index.WellFormedParams q m) :
    ∃ types, List.Forall₂ (index.HasType q m.typeParams) m.params types ∧
      index.signature q m = .ok (q ++ "." ++ m.name ++ "(" ++
        ", ".intercalate (List.zipWith ParamDecl.shown m.params types) ++ ")") := by
  choose! type htype using h
  have htypes : List.Forall₂ (index.HasType q m.typeParams) m.params (m.params.map type) :=
    List.forall₂_map_right_iff.2 (List.forall₂_same.2 htype)
  refine ⟨_, htypes, ?_⟩
  rw [signature, mapM_describeParam_eq_ok_iff.2 ⟨_, htypes.imp fun _ _ h => h.1, rfl⟩]
  rfl

/-- **A signature determines the parameters.** Two methods whose parameters resolve to
well-formed types have signatures, and these are equal exactly if the methods agree in their
names, in the number of their parameters and, for each of them, in whether it is variadic and
in what its type looks like. -/
theorem signature_determines (hm : PlainName m.name) (hn : PlainName n.name)
    (hmtypes : index.WellFormedParams q m) (hntypes : index.WellFormedParams q n) :
    (∃ signature, index.signature q m = .ok signature) ∧
    (∃ signature, index.signature q n = .ok signature) ∧
      (index.signature q m = index.signature q n ↔
        m.name = n.name ∧ m.params.length = n.params.length ∧
          List.Forall₂ (index.ParamsAlike q m.typeParams n.typeParams) m.params n.params) := by
  obtain ⟨types, htypes, hsignature⟩ := exists_signature hmtypes
  obtain ⟨types', htypes', hsignature'⟩ := exists_signature hntypes
  refine ⟨⟨_, hsignature⟩, ⟨_, hsignature'⟩, ?_⟩
  rw [hsignature, hsignature', Except.ok.injEq]
  constructor
  · intro heq
    have hlist := congrArg String.toList heq
    simp only [String.toList_append, List.append_assoc] at hlist
    have hrest := List.append_cancel_left (List.append_cancel_left hlist)
    have hname : m.name = n.name := String.toList_inj.1 (eq_of_append_cons_eq hrest hm.2.2 hn.2.2)
    rw [hname] at hrest
    have hparams :=
      List.append_cancel_right (List.append_cancel_left (List.append_cancel_left hrest))
    have halike := (map_shown_eq_iff htypes htypes').1
      (eq_of_intercalate_shown htypes htypes' (String.toList_inj.1 hparams))
    exact ⟨hname, halike.length_eq, halike⟩
  · rintro ⟨hname, -, halike⟩
    rw [hname, (map_shown_eq_iff htypes htypes').2 halike]

/-- `class T {}`, `class M<K, V> {}` and a class `A` with the methods
`void m(M<T, ? extends T[]> x, int... ys) {}` and `<T> void m(M<T, ? extends T[]> x, int... ys) {}`,
without the parts that nothing reads. -/
def shadowingFile : SourceFile where
  path := "/p/A.java"
  root :=
    let typeT (field : String) : Tree := .mk "type_identifier" true field "T" 1 1 []
    let parameters : Tree := .mk "formal_parameters" true "parameters" "" 1 1
      [.mk "formal_parameter" true "" "" 1 1
        [.mk "generic_type" true "type" "" 1 1
          [.mk "type_identifier" true "" "M" 1 1 [],
           .mk "type_arguments" true "" "" 1 1
            [typeT "",
             .mk "wildcard" true "" "" 1 1
              [.mk "array_type" true "" "" 1 1
                [typeT "element", .mk "dimensions" true "dimensions" "[]" 1 1 []]]]],
         .mk "identifier" true "name" "x" 1 1 []],
       .mk "spread_parameter" true "" "" 1 1
        [.mk "integral_type" true "" "int" 1 1 [],
         .mk "variable_declarator" true "" "" 1 1 [.mk "identifier" true "name" "ys" 1 1 []]]]
    let method (typeParams : List Tree) : Tree := .mk "method_declaration" true "" "" 1 1
      (typeParams ++
        [.mk "void_type" true "type" "void" 1 1 [], .mk "identifier" true "name" "m" 1 1 [],
          parameters,
         .mk "block" true "body" "" 1 1 []])
    let declaration (name : String) (members : List Tree) : Tree :=
      .mk "class_declaration" true "" "" 1 1 [.mk "identifier" true "name" name 1 1 [],
        .mk "class_body" true "body" "" 1 1 members]
    .mk "program" true "" "" 1 1
      [declaration "T" [], declaration "M" [],
       declaration "A"
        [method [],
         method [.mk "type_parameters" true "type_parameters" "" 1 1
           [.mk "type_parameter" true "" "" 1 1 [typeT ""]]]]]

/-- The type of the first parameter has a class as its argument in one method and a
type variable in the other. -/
theorem signature_determines_shadowingFile :
    let index := build [shadowingFile]
    let methods := ((index.get? "A").map (·.methods)).getD []
    let m := methods.getD 0 default
    let n := methods.getD 1 default
    PlainName m.name ∧ PlainName n.name ∧ index.WellFormedParams "A" m ∧
      index.WellFormedParams "A" n ∧
      index.signature "A" m = .ok "A.m(M<T, ? extends T[]>, int...)" ∧
      index.signature "A" n = index.signature "A" m ∧
      List.Forall₂ (index.ParamsAlike "A" m.typeParams n.typeParams) m.params n.params ∧
      m.params.map (fun p => (index.resolveInMember "A" p.type m.typeParams).toOption) ≠
        n.params.map (fun p => (index.resolveInMember "A" p.type n.typeParams).toOption) := by
  intro index methods m n
  let generic (t : ResolvedType) : ResolvedType := .reference "M" [t, .bounded .extends (.array t)]
  have hm : m.params.map (fun p => (index.resolveInMember "A" p.type m.typeParams).toOption) =
      [some (generic (.reference "T" [])), some (.primitive "int")] := by decide +kernel
  have hn : n.params.map (fun p => (index.resolveInMember "A" p.type n.typeParams).toOption) =
      [some (generic (.typeVariable "T")), some (.primitive "int")] := by decide +kernel
  have hname : PlainName m.name ∧ PlainName n.name := by decide +kernel
  have hwell (m : MethodDecl) (t : ResolvedType) (ht : t.named? = some ("T", []))
      (h : m.params.map (fun p => (index.resolveInMember "A" p.type m.typeParams).toOption) =
        [some (generic t), some (.primitive "int")]) : index.WellFormedParams "A" m := by
    have hargument (asArgument : Bool) : t.WellFormed asArgument :=
      .named ht (by decide +kernel) (by simp)
    have hgeneric : (generic t).WellFormed false := by
      refine .named rfl (by decide +kernel) fun a ha => ?_
      rcases List.mem_pair.1 ha with rfl | rfl
      · exact hargument true
      · exact .bounded (.array (hargument false))
    intro p hp
    have hmem := h ▸ List.mem_map_of_mem hp
    cases htype : index.resolveInMember "A" p.type m.typeParams with
    | error e =>
      rw [htype] at hmem
      simp [Except.toOption] at hmem
    | ok u =>
      rw [htype] at hmem
      refine ⟨u, htype, ?_⟩
      rcases List.mem_pair.1 hmem with hu | hu
      · exact Option.some.inj hu ▸ hgeneric
      · exact Option.some.inj hu ▸ .named rfl (by decide +kernel) (by simp)
  have hmtypes := hwell m _ rfl hm
  have hntypes := hwell n _ rfl hn
  have hsignature : index.signature "A" m = .ok "A.m(M<T, ? extends T[]>, int...)" := by
    decide +kernel
  have hsame : index.signature "A" n = index.signature "A" m := by decide +kernel
  obtain ⟨-, -, hiff⟩ := signature_determines hname.1 hname.2 hmtypes hntypes
  refine ⟨hname.1, hname.2, hmtypes, hntypes, hsignature, hsame, (hiff.1 hsame.symm).2.2, ?_⟩
  rw [hm, hn]
  simp [generic]

end ProjectIndex

end CodeGraph.Java
