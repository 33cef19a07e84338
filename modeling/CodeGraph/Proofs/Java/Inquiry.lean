import CodeGraph.Java.Naming

/-!
# Computations that put questions

An `Inquiry` is a computation that may put questions and goes on with the answers it gets. The
naming rules are stated over any monad that answers for hierarchies, so each of them is an inquiry
(`Inquiry.put` in place of the answers), and every other reading of a rule is the run of that
inquiry: `run_memberType`, …, `run_levels`. What is proved of runs once is proved of all rules.

* `run_eq_none_iff`: a run without result is one that puts an unanswered question.
* `run_of_le`, `asks_of_le`: more answers keep the result and the questions.
-/

namespace CodeGraph.Java

/-- A result, or a question and how the computation goes on with the answer. -/
inductive Inquiry (Q A α : Type)
  | result (a : α)
  | ask (question : Q) (next : A → Inquiry Q A α)

namespace Inquiry

variable {Q A α β : Type}

/-- One computation after another. -/
protected def bind (p : Inquiry Q A α) (f : α → Inquiry Q A β) : Inquiry Q A β :=
  match p with
  | result a => f a
  | ask q next => ask q fun x => (next x).bind f

instance : Monad (Inquiry Q A) where
  pure := result
  bind := Inquiry.bind

/-- Put one question. -/
def put (q : Q) : Inquiry Q A A := ask q result

/-- Carry a computation out with the given answers. -/
def run {m : Type → Type} [Monad m] (answer : Q → m A) : Inquiry Q A α → m α
  | result a => pure a
  | ask q next => do
    let x ← answer q
    (next x).run answer

section Run

variable {m : Type → Type} [Monad m] (answer : Q → m A)

@[simp] theorem run_pure (a : α) : run answer (pure a : Inquiry Q A α) = pure a := rfl

@[simp] theorem run_ite (c : Prop) [Decidable c] (p q : Inquiry Q A α) :
    run answer (if c then p else q) = if c then run answer p else run answer q := by
  split <;> rfl

variable [LawfulMonad m]

@[simp] theorem run_put (q : Q) : run answer (put q) = answer q := by
  simp [put, run]

@[simp] theorem run_bind (p : Inquiry Q A α) (f : α → Inquiry Q A β) :
    run answer (p >>= f) = run answer p >>= fun a => run answer (f a) := by
  induction p with
  | result a => exact (pure_bind a fun a => run answer (f a)).symm
  | ask q next ih =>
    show (answer q >>= fun x => run answer (next x >>= f)) = _
    simp only [ih, run, bind_assoc]

end Run

/-! ## The questions of a run -/

/-- The questions put in a run, up to the first that has no answer. -/
def Asks (answer : Q → Option A) : Inquiry Q A α → Q → Prop
  | result _, _ => False
  | ask q next, other => other = q ∨ ∃ x, answer q = some x ∧ (next x).Asks answer other

variable {f g : Q → Option A}

@[simp] theorem not_asks_pure (a : α) (q : Q) : ¬(pure a : Inquiry Q A α).Asks f q := id

theorem asks_bind {p : Inquiry Q A α} {k : α → Inquiry Q A β} {q : Q} :
    (p >>= k).Asks f q ↔ p.Asks f q ∨ ∃ a, p.run f = some a ∧ (k a).Asks f q := by
  induction p with
  | result a =>
    show (k a).Asks f q ↔ False ∨ ∃ b, some a = some b ∧ (k b).Asks f q
    simp
  | ask r next ih =>
    show (q = r ∨ ∃ x, f r = some x ∧ (next x >>= k).Asks f q) ↔ _
    cases hr : f r with
    | none => simp [Asks, run, hr]
    | some x => simp [Asks, run, hr, ih, or_assoc]

/-- A run has no result exactly if one of its questions has no answer. -/
theorem run_eq_none_iff {p : Inquiry Q A α} :
    p.run f = none ↔ ∃ q, p.Asks f q ∧ f q = none := by
  induction p with
  | result a => simp [run, Asks]
  | ask r next ih =>
    cases hr : f r with
    | none =>
      simp only [run, hr, Asks]
      exact ⟨fun _ => ⟨r, .inl rfl, hr⟩, fun _ => rfl⟩
    | some x =>
      have hx : (ask r next).run f = (next x).run f := by simp [run, hr]
      rw [hx, ih x]
      constructor
      · rintro ⟨q, hq, hn⟩
        exact ⟨q, .inr ⟨x, hr, hq⟩, hn⟩
      · rintro ⟨q, rfl | ⟨y, hy, hq⟩, hn⟩
        · rw [hr] at hn; cases hn
        · cases hr.symm.trans hy
          exact ⟨q, hq, hn⟩

/-- Every question of a run with a result has an answer. -/
theorem Asks.isSome {p : Inquiry Q A α} {a : α} {q : Q} (h : p.Asks f q) (hp : p.run f = some a) :
    (f q).isSome := by
  refine Option.isSome_iff_ne_none.2 fun hn => ?_
  have : p.run f = none := run_eq_none_iff.2 ⟨q, h, hn⟩
  rw [hp] at this; cases this

theorem isSome_run (h : ∀ q, (f q).isSome) (p : Inquiry Q A α) : (p.run f).isSome := by
  refine Option.isSome_iff_ne_none.2 fun hn => ?_
  obtain ⟨q, -, hq⟩ := run_eq_none_iff.1 hn
  simpa [hq] using h q

/-- Further answers do not change a result. -/
theorem run_of_le (h : ∀ q x, f q = some x → g q = some x) {p : Inquiry Q A α} {a : α}
    (hp : p.run f = some a) : p.run g = some a := by
  induction p with
  | result b => exact hp
  | ask q next ih =>
    obtain ⟨x, hx, hn⟩ := Option.bind_eq_some_iff.1 hp
    exact Option.bind_eq_some_iff.2 ⟨x, h q x hx, ih x hn⟩

/-- Further answers do not change the questions of a run that has a result without them. -/
theorem Asks.of_le (h : ∀ q x, f q = some x → g q = some x) {p : Inquiry Q A α} {a : α}
    (hp : p.run f = some a) {q : Q} (hq : p.Asks g q) : p.Asks f q := by
  induction p with
  | result b => exact hq
  | ask r next ih =>
    obtain ⟨x, hx, hn⟩ := Option.bind_eq_some_iff.1 hp
    rcases hq with rfl | ⟨y, hy, hq⟩
    · exact .inl rfl
    · cases (h r x hx).symm.trans hy
      exact .inr ⟨x, hx, ih x hn hq⟩

/-! ## The naming rules as inquiries -/

section Rules

variable {m : Type → Type} [Monad m] [LawfulMonad m] (index : ProjectIndex)
  (answer : String → m (List String))

theorem run_memberType (owner simple : String) :
    (Naming.memberType index put owner simple).run answer =
      Naming.memberType index answer owner simple := by
  simp [Naming.memberType]

theorem run_inEnclosing (simple : String) (enclosing : List String) :
    (Naming.inEnclosing index put simple enclosing).run answer =
      Naming.inEnclosing index answer simple enclosing := by
  induction enclosing with
  | nil => simp [Naming.inEnclosing]
  | cons outer rest ih =>
    simp only [Naming.inEnclosing, run_ite, run_pure, run_bind, run_memberType]
    split
    · rfl
    · congr 1
      funext found
      cases found with
      | none => exact ih
      | some found => rfl

theorem run_resolveSimple (simple : String) (scope : TypeScope) :
    (Naming.resolveSimple index put simple scope).run answer =
      Naming.resolveSimple index answer simple scope := by
  simp only [Naming.resolveSimple, run_bind, run_inEnclosing]
  congr 1
  funext found
  cases found <;> rfl

theorem run_nestedPath (base : String) (rest : List String) :
    (Naming.nestedPath index put base rest).run answer =
      Naming.nestedPath index answer base rest := by
  induction rest generalizing base with
  | nil => rfl
  | cons segment rest ih => simp only [Naming.nestedPath, run_bind, run_memberType, ih]

theorem run_resolveByLongest (segments : List String) (count : Nat) :
    (Naming.resolveByLongest index put segments count).run answer =
      Naming.resolveByLongest index answer segments count := by
  induction count with
  | zero => rfl
  | succ count ih =>
    simp only [Naming.resolveByLongest, run_ite, run_bind, run_nestedPath, run_pure, ih]

theorem run_resolveQualified (name : String) :
    (Naming.resolveQualified index put name).run answer =
      Naming.resolveQualified index answer name := by
  simp only [Naming.resolveQualified, run_ite, run_bind, run_pure, run_resolveByLongest]
  congr 2
  funext found
  cases found with
  | none => simp only [run_ite, run_pure]
  | some found => rfl

theorem run_resolveName (name : String) (scope : TypeScope) :
    (Naming.resolveName index put name scope).run answer =
      Naming.resolveName index answer name scope := by
  rw [Naming.resolveName, Naming.resolveName]
  split
  · rfl
  · simp only [run_bind, run_resolveSimple]
    congr 1
    funext base
    cases base with
    | none => simp only [run_ite, run_pure, run_resolveQualified]
    | some base => simp only [run_bind, run_nestedPath, run_pure]

mutual

theorem run_resolveType (scope : TypeScope) (type : WrittenType) :
    (Naming.resolveType index put scope type).run answer =
      Naming.resolveType index answer scope type := by
  cases type with
  | primitive p => rfl
  | array element n => simp only [Naming.resolveType, run_bind, run_pure, run_resolveType]
  | wildcard => rfl
  | bounded b type => simp only [Naming.resolveType, run_bind, run_pure, run_resolveType]
  | named name args =>
    simp only [Naming.resolveType]
    split
    · rfl
    · simp only [run_bind, run_resolveName]
      congr 1
      funext qualified
      cases qualified with
      | none => rfl
      | some qualified => simp only [run_bind, run_pure, run_resolveTypes]

theorem run_resolveTypes (scope : TypeScope) (types : List WrittenType) :
    (Naming.resolveTypes index put scope types).run answer =
      Naming.resolveTypes index answer scope types := by
  cases types with
  | nil => rfl
  | cons t ts =>
    simp only [Naming.resolveTypes, run_bind, run_resolveType]
    congr 1
    funext resolved
    cases resolved with
    | error e => rfl
    | ok r => simp only [run_bind, run_pure, run_resolveTypes]

end

theorem run_resolveHeader (scope : TypeScope) (types : List WrittenType) :
    (Naming.resolveHeader index put scope types).run answer =
      Naming.resolveHeader index answer scope types := by
  induction types with
  | nil => rfl
  | cons t ts ih => simp only [Naming.resolveHeader, run_bind, run_pure, run_resolveType, ih]

theorem run_supertypes (qualified : String) :
    (Naming.supertypes index put qualified).run answer =
      Naming.supertypes index answer qualified := by
  rw [Naming.supertypes, Naming.supertypes]
  split
  · rfl
  · exact run_resolveHeader index answer _ _

theorem run_parents (types : List String) :
    (Naming.parents index put types).run answer = Naming.parents index answer types := by
  induction types with
  | nil => rfl
  | cons t ts ih => simp only [Naming.parents, run_bind, run_pure, run_supertypes, ih]

theorem run_levels (rounds : Nat) (seen frontier : List String) :
    (Naming.levels index put rounds seen frontier).run answer =
      Naming.levels index answer rounds seen frontier := by
  induction rounds generalizing seen frontier with
  | zero => cases frontier <;> rfl
  | succ rounds ih =>
    cases frontier with
    | nil => rfl
    | cons t ts => simp only [Naming.levels, run_bind, run_pure, run_parents, ih]

end Rules

end Inquiry

end CodeGraph.Java
