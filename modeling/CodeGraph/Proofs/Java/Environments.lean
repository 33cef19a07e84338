import CodeGraph.Java.Context
import Mathlib.Data.List.Chain
import Mathlib.Data.List.Infix
import Mathlib.Logic.Function.Iterate

/-!
# Contexts as stacks of environments

A context keeps all that is visible in three lists and remembers for each scope how long
they were at its entry. It stands for a stack of environments: its own one and those that
the exits to come bring back.

* `Context.stack_follow`: moves do to a context what they do to its stack.
* `Context.follow_eq`: scopes that were left leave no trace, so moves end where those of
  them end that are still open.
* `environments_scoped`: how a context simulates a stack, what its exits restore,
  and what names mean in it.

Whether a move is still open is a matter of counting: no exit behind it lacks its
entry there (`Paired`).
-/

namespace CodeGraph.Java

/-! ## Moves -/

/-- A change of a context. -/
inductive Move
  | enterClass (qualified : String) (typeParams : List String)
  | enterExecutable (executable : Executable) (typeParams : List String)
  | enterBlock
  | declare (name : String) (type : Option ResolvedType)
  | exit
deriving DecidableEq

namespace Move

/-- The move begins a scope. -/
def isEntry : Move → Bool
  | enterClass .. | enterExecutable .. | enterBlock => true
  | declare .. | exit => false

def apply (ctx : Context) : Move → Context
  | enterClass qualified typeParams => ctx.enterClass qualified typeParams
  | enterExecutable executable typeParams => ctx.enterExecutable executable typeParams
  | enterBlock => ctx.enterBlock
  | declare name type => ctx.declare name type
  | exit => ctx.exit

/-- The type that the move gives to a variable, which may be unknown. -/
def declared? (name : String) : Move → Option (Option ResolvedType)
  | declare other type => if other = name then some type else none
  | _ => none

def class? : Move → Option String
  | enterClass qualified _ => some qualified
  | _ => none

def executable? : Move → Option Executable
  | enterExecutable executable _ => some executable
  | _ => none

end Move

/-- Make moves one after another. -/
def Context.follow (ctx : Context) (moves : List Move) : Context := moves.foldl Move.apply ctx

/-- No exit lacks its entry. -/
def Paired (moves : List Move) : Prop :=
  ∀ start, start <+: moves → start.count .exit ≤ start.countP Move.isEntry

/-- No exit lacks its entry and no entry its exit. -/
def Balanced (moves : List Move) : Prop :=
  Paired moves ∧ moves.countP Move.isEntry = moves.count .exit

/-- Of the moves that are still open and give something, the latest one gives `a`. -/
def LatestOpen {α : Type} (gives : Move → Option α) (moves : List Move) (a : α) : Prop :=
  ∃ before m rest, moves = before ++ m :: rest ∧ Paired rest ∧ gives m = some a ∧
    ∀ between m' rest', rest = between ++ m' :: rest' → Paired rest' → gives m' = none

variable {ctx : Context} {m : Move} {moves : List Move} {name : String} {n : Nat}

theorem Context.follow_cons (ctx : Context) (m : Move) (moves : List Move) :
    ctx.follow (m :: moves) = (m.apply ctx).follow moves :=
  rfl

theorem Context.follow_append (ctx : Context) (moves moves' : List Move) :
    ctx.follow (moves ++ moves') = (ctx.follow moves).follow moves' :=
  List.foldl_append

/-! ## Exits without entries -/

/-- The number of exits that lack their entry. -/
def unmatched : List Move → Nat
  | [] => 0
  | .exit :: moves => unmatched moves + 1
  | .declare _ _ :: moves => unmatched moves
  | _ :: moves => unmatched moves - 1

theorem Move.cases_isEntry (m : Move) :
    m = exit ∨ (∃ name type, m = declare name type) ∨ m.isEntry = true := by
  cases m <;> simp [isEntry]

theorem Move.ne_exit_of_isEntry (h : m.isEntry) : m ≠ exit := by
  rintro rfl
  cases h

theorem unmatched_cons_of_isEntry (h : m.isEntry) (moves : List Move) :
    unmatched (m :: moves) = unmatched moves - 1 := by
  cases m <;> first | rfl | cases h

theorem forall_prefix_cons_iff {P : List Move → Prop} (hnil : P []) :
    (∀ start, start <+: m :: moves → P start) ↔ ∀ start, start <+: moves → P (m :: start) := by
  constructor
  · intro h start hstart
    exact h _ ((List.prefix_cons_inj m).2 hstart)
  · intro h start hstart
    rcases List.prefix_cons_iff.1 hstart with rfl | ⟨rest, rfl, hrest⟩
    · exact hnil
    · exact h rest hrest

/-- The number of exits that lack their entry is the most by which the exits exceed
the entries in a start. -/
theorem unmatched_le_iff : unmatched moves ≤ n ↔
    ∀ start, start <+: moves → start.count .exit ≤ start.countP Move.isEntry + n := by
  induction moves generalizing n with
  | nil => simp [unmatched]
  | cons m moves ih =>
    rw [forall_prefix_cons_iff (Nat.zero_le _)]
    rcases m.cases_isEntry with rfl | ⟨name, type, rfl⟩ | hentry
    · cases n with
      | zero =>
        exact iff_of_false (Nat.not_succ_le_zero _) fun h =>
          absurd (h [] List.nil_prefix) (by decide)
      | succ n => simp [unmatched, ih, Move.isEntry, ← Nat.add_assoc]
    · simp [unmatched, ih, Move.isEntry]
    · rw [unmatched_cons_of_isEntry hentry, Nat.sub_le_iff_le_add, ih]
      refine forall₂_congr fun start _ => ?_
      rw [List.count_cons_of_ne (Move.ne_exit_of_isEntry hentry), List.countP_cons_of_pos hentry,
        Nat.add_assoc, Nat.add_comm n]

theorem paired_iff : Paired moves ↔ unmatched moves = 0 := by
  rw [← Nat.le_zero, unmatched_le_iff]
  rfl

instance : Decidable (Paired moves) := decidable_of_iff _ paired_iff.symm

instance : Decidable (Balanced moves) := inferInstanceAs (Decidable (_ ∧ _))

/-- Behind balanced moves an exit lacks its entry, whichever of them are left out at the start. -/
theorem unmatched_concat_exit_of_suffix (h : Balanced moves) {rest : List Move}
    (hrest : rest <:+ moves) :
    unmatched (rest ++ [.exit]) ≠ 0 := by
  obtain ⟨hpaired, hbalanced⟩ := h
  obtain ⟨start, rfl⟩ := hrest
  have hstart := hpaired start (List.prefix_append start rest)
  intro hzero
  have hle := paired_iff.2 hzero _ List.prefix_rfl
  simp only [List.countP_append, List.count_append] at hbalanced hle
  have hexit : [Move.exit].count .exit = 1 ∧ [Move.exit].countP Move.isEntry = 0 := by decide
  omega

theorem Balanced.unmatched_concat_exit (h : Balanced moves) : unmatched (moves ++ [.exit]) = 1 := by
  refine Nat.le_antisymm (unmatched_le_iff.2 fun start hstart => ?_)
    (Nat.one_le_iff_ne_zero.2 (unmatched_concat_exit_of_suffix h List.suffix_rfl))
  rcases List.prefix_concat_iff.1 hstart with rfl | hstart
  · rw [List.count_append, List.countP_append, h.2]
    exact Nat.le_refl _
  · exact Nat.le_succ_of_le (h.1 start hstart)

/-! ## Moves that are still open -/

/-- The moves that are still open behind the last one: no exit behind them lacks its entry there. -/
def stillOpen : List Move → List Move
  | [] => []
  | m :: moves => if m ≠ .exit ∧ unmatched moves = 0 then m :: stillOpen moves else stillOpen moves

theorem stillOpen_cons_of_ne_zero (h : unmatched moves ≠ 0) (m : Move) :
    stillOpen (m :: moves) = stillOpen moves :=
  if_neg fun hand => h hand.2

/-- Nothing is still open when the scope around balanced moves is left. -/
theorem Balanced.stillOpen_concat_exit (h : Balanced moves) :
    stillOpen (moves ++ [.exit]) = [] := by
  have hall {rest : List Move} (hrest : rest <:+ moves) : stillOpen (rest ++ [.exit]) = [] := by
    induction rest with
    | nil => rfl
    | cons m rest ih =>
      have hrest := (List.suffix_cons m rest).trans hrest
      rw [List.cons_append, stillOpen_cons_of_ne_zero (unmatched_concat_exit_of_suffix h hrest),
        ih hrest]
  exact hall List.suffix_rfl

namespace Context

/-! ## Leaving scopes -/

/-- No more variables are remembered of a scope than there were when the next one was entered. -/
def Delimited (ctx : Context) : Prop :=
  (ctx.locals.length :: ctx.frames.map (·.locals)).IsChain (· ≥ ·)

theorem delimited_ofFile (file : FileScope) : (ofFile file).Delimited := .singleton _

/-- Leaving a scope at once changes nothing. -/
theorem exit_apply_of_isEntry (h : m.isEntry) (ctx : Context) : (m.apply ctx).exit = ctx := by
  cases m with
  | declare | exit => cases h
  | _ => simp [Move.apply, enterClass, enterExecutable, enterBlock, mark, exit]

theorem depth_apply_of_isEntry (h : m.isEntry) (ctx : Context) :
    (m.apply ctx).depth = ctx.depth + 1 := by
  cases m with
  | declare | exit => cases h
  | _ => rfl

theorem depth_exit (ctx : Context) : ctx.exit.depth = ctx.depth - 1 := by
  obtain ⟨file, frames, classes, typeVars, locals⟩ := ctx
  cases frames <;> rfl

theorem exit_of_depth_eq_zero (h : ctx.depth = 0) : ctx.exit = ctx := by
  have hframes : ctx.frames = [] := List.length_eq_zero_iff.1 h
  rw [exit, hframes]

theorem Delimited.exit (h : ctx.Delimited) : ctx.exit.Delimited := by
  obtain ⟨file, frames, classes, typeVars, locals⟩ := ctx
  cases frames with
  | nil => exact h
  | cons frame frames =>
    obtain ⟨hle, hchain⟩ := List.isChain_cons_cons.1 h
    have hlength : (locals.take frame.locals).length = frame.locals := List.length_take_of_le hle
    rw [Delimited, Context.exit, hlength]
    exact hchain

theorem Delimited.apply (h : ctx.Delimited) (m : Move) : (m.apply ctx).Delimited := by
  rcases m.cases_isEntry with rfl | ⟨name, type, rfl⟩ | hentry
  · exact h.exit
  · have hmore : ctx.locals.length ≤ (ctx.declare name type).locals.length := by simp [declare]
    exact List.IsChain.imp_head (fun {z} (hge : z ≤ ctx.locals.length) => hge.trans hmore) h
  · -- an entry remembers the variables that there are
    have hentered : (ctx.locals.length :: ctx.locals.length :: ctx.frames.map (·.locals)).IsChain
        (· ≥ ·) :=
      List.isChain_cons_cons.2 ⟨Nat.le_refl _, h⟩
    cases m with
    | declare | exit => cases hentry
    | _ => exact hentered

/-- A scope takes the variables with it that are declared in it. -/
theorem Delimited.exit_declare (h : ctx.Delimited) (hdepth : 0 < ctx.depth) (name : String)
    (type : Option ResolvedType) : (ctx.declare name type).exit = ctx.exit := by
  obtain ⟨file, frames, classes, typeVars, locals⟩ := ctx
  cases frames with
  | nil => cases hdepth
  | cons frame frames =>
    have hle : frame.locals ≤ locals.length := (List.isChain_cons_cons.1 h).1
    simp only [declare, Context.exit, List.take_append_of_le_length hle]

/-- **Scopes that were left leave no trace.** Moves end where those of them end that are still open,
begun in the scope that the exits without entry lead to. -/
theorem follow_eq (h : ctx.Delimited) (hdepth : unmatched moves ≤ ctx.depth) :
    ctx.follow moves = (exit^[unmatched moves] ctx).follow (stillOpen moves) := by
  induction moves generalizing ctx with
  | nil => rfl
  | cons m moves ih =>
    rw [follow_cons]
    rcases m.cases_isEntry with rfl | ⟨name, type, rfl⟩ | hentry
    · have hexit : unmatched moves ≤ ctx.exit.depth := by
        rw [depth_exit]
        exact Nat.le_sub_of_add_le hdepth
      exact ih h.exit hexit
    · rw [ih (h.apply (.declare name type)) hdepth, stillOpen, unmatched]
      cases hmoves : unmatched moves with
      | zero => rfl
      | succ k =>
        have hpos : 0 < ctx.depth := Nat.lt_of_lt_of_le (hmoves ▸ Nat.succ_pos k) hdepth
        rw [Function.iterate_succ_apply, Function.iterate_succ_apply, Move.apply,
          h.exit_declare hpos, if_neg (by simp)]
    · rw [unmatched_cons_of_isEntry hentry] at hdepth ⊢
      have hentered : unmatched moves ≤ (m.apply ctx).depth := by
        rw [depth_apply_of_isEntry hentry]
        exact Nat.sub_le_iff_le_add.1 hdepth
      rw [ih (h.apply m) hentered, stillOpen]
      cases hmoves : unmatched moves with
      | zero =>
        rw [if_pos ⟨Move.ne_exit_of_isEntry hentry, rfl⟩]
        rfl
      | succ k =>
        rw [Function.iterate_succ_apply, exit_apply_of_isEntry hentry, if_neg (by simp)]
        rfl

/-- The exit that matches an entry restores the context from before the entry. -/
theorem Delimited.follow_scope (h : ctx.Delimited) (hentry : m.isEntry) (hinside : Balanced moves) :
    ctx.follow (m :: (moves ++ [.exit])) = ctx := by
  have hexit := hinside.unmatched_concat_exit
  have hdepth : unmatched (moves ++ [.exit]) ≤ (m.apply ctx).depth := by
    rw [hexit, depth_apply_of_isEntry hentry]
    exact Nat.le_add_left 1 _
  rw [follow_cons, follow_eq (h.apply m) hdepth, hexit, hinside.stillOpen_concat_exit]
  exact exit_apply_of_isEntry hentry ctx

theorem Delimited.follow (h : ctx.Delimited) (moves : List Move) :
    (ctx.follow moves).Delimited := by
  induction moves generalizing ctx with
  | nil => exact h
  | cons m moves ih => exact ih (h.apply m)

end Context

/-! ## Stacks of environments -/

/-- What is visible at one point. -/
structure Environment where
  classes : List String := []
  typeVars : List String := []
  locals : List Local := []
  executable : Option Executable := none
deriving DecidableEq

/-- An environment and those around it, innermost first. -/
structure ScopeStack where
  here : Environment := {}
  around : List Environment := []
deriving DecidableEq

namespace ScopeStack

/-- Put an environment on the others. -/
def push (s : ScopeStack) (e : Environment) : ScopeStack := ⟨e, s.here :: s.around⟩

/-- Take an environment off, if there is one around it. -/
def pop (s : ScopeStack) : ScopeStack :=
  match s.around with
  | [] => s
  | e :: around => ⟨e, around⟩

def apply (s : ScopeStack) : Move → ScopeStack
  | .enterClass qualified typeParams =>
    s.push { s.here with
      classes := s.here.classes ++ [qualified]
      typeVars := s.here.typeVars ++ typeParams }
  | .enterExecutable executable typeParams =>
    s.push { s.here with
      typeVars := s.here.typeVars ++ typeParams
      executable := some executable }
  | .enterBlock => s.push s.here
  | .declare name type =>
    { s with here := { s.here with locals := s.here.locals ++ [⟨name, type⟩] } }
  | .exit => s.pop

def follow (s : ScopeStack) (moves : List Move) : ScopeStack := moves.foldl apply s

end ScopeStack

namespace Context

def environment (ctx : Context) : Environment :=
  ⟨ctx.classes, ctx.typeVars, ctx.locals, ctx.currentExecutable?⟩

/-- The environments that a number of exits bring back. -/
def around (ctx : Context) : Nat → List Environment
  | 0 => []
  | n + 1 => ctx.exit.environment :: ctx.exit.around n

/-- The stack of environments that a context stands for. -/
def stack (ctx : Context) : ScopeStack := ⟨ctx.environment, ctx.around ctx.depth⟩

theorem stack_apply_of_isEntry (h : m.isEntry) (ctx : Context) :
    (m.apply ctx).stack = ctx.stack.push (m.apply ctx).environment := by
  rw [stack, depth_apply_of_isEntry h, around, exit_apply_of_isEntry h]
  rfl

theorem stack_exit (ctx : Context) : ctx.exit.stack = ctx.stack.pop := by
  cases hdepth : ctx.depth with
  | zero =>
    rw [exit_of_depth_eq_zero hdepth, ScopeStack.pop, stack, hdepth]
    rfl
  | succ n =>
    rw [stack, stack, depth_exit, hdepth]
    rfl

theorem Delimited.around_declare (h : ctx.Delimited) (name : String) (type : Option ResolvedType) :
    (ctx.declare name type).around ctx.depth = ctx.around ctx.depth := by
  cases hdepth : ctx.depth with
  | zero => rfl
  | succ n => rw [around, around, h.exit_declare (hdepth ▸ Nat.succ_pos n)]

/-- **A move does to a context what it does to its stack.** -/
theorem Delimited.stack_apply (h : ctx.Delimited) (m : Move) :
    (m.apply ctx).stack = ctx.stack.apply m := by
  cases m with
  | declare name type => exact congrArg (ScopeStack.mk _) (h.around_declare name type)
  | exit => exact stack_exit ctx
  | _ => exact stack_apply_of_isEntry rfl ctx

theorem Delimited.stack_follow (h : ctx.Delimited) (moves : List Move) :
    (ctx.follow moves).stack = ctx.stack.follow moves := by
  induction moves generalizing ctx with
  | nil => rfl
  | cons m moves ih =>
    rw [follow_cons, ih (h.apply m), h.stack_apply]
    rfl

theorem length_around (ctx : Context) (n : Nat) : (ctx.around n).length = n := by
  induction n generalizing ctx with
  | zero => rfl
  | succ n ih => exact congrArg (· + 1) (ih ctx.exit)

end Context

/-! ## The latest open move -/

section

variable {α : Type} {gives : Move → Option α} {view : Context → Option α} {a : α}

/-- What the latest one of the moves gives that are still open and give something. -/
def latest (gives : Move → Option α) : List Move → Option α
  | [] => none
  | m :: moves => (latest gives moves).or (if unmatched moves = 0 then gives m else none)

theorem latest_eq_none_iff : latest gives moves = none ↔
    ∀ before m rest, moves = before ++ m :: rest → Paired rest → gives m = none := by
  induction moves with
  | nil => simp [latest]
  | cons m moves ih =>
    rw [latest, Option.or_eq_none_iff, ih]
    constructor
    · rintro ⟨hlater, hm⟩ before m' rest hmoves hrest
      cases before with
      | nil =>
        cases hmoves
        rwa [if_pos (paired_iff.1 hrest)] at hm
      | cons b before =>
        cases hmoves
        exact hlater before m' rest rfl hrest
    · intro h
      refine ⟨fun before m' rest hmoves => h (m :: before) m' rest (congrArg (m :: ·) hmoves), ?_⟩
      split
      case isTrue hzero => exact h [] m moves rfl (paired_iff.2 hzero)
      case isFalse => rfl

theorem latest_eq_some_iff : latest gives moves = some a ↔ LatestOpen gives moves a := by
  induction moves with
  | nil => simp [latest, LatestOpen]
  | cons m moves ih =>
    rw [latest, Option.or_eq_some_iff, ih, latest_eq_none_iff]
    constructor
    · rintro (⟨before, m', rest, rfl, h⟩ | ⟨hlater, hm⟩)
      · exact ⟨m :: before, m', rest, rfl, h⟩
      · obtain ⟨hzero, hm⟩ := Option.ite_none_right_eq_some.1 hm
        exact ⟨[], m, moves, rfl, paired_iff.2 hzero, hm, hlater⟩
    · rintro ⟨before, m', rest, hmoves, hrest, hm, hlater⟩
      cases before with
      | nil =>
        cases hmoves
        exact .inr ⟨hlater, (if_pos (paired_iff.1 hrest)).trans hm⟩
      | cons b before =>
        cases hmoves
        exact .inl ⟨before, m', rest, rfl, hrest, hm, hlater⟩

/-- What every move but an exit either gives or leaves is given by the latest open move. -/
theorem view_follow_stillOpen
    (hview : ∀ ctx m, m ≠ .exit → view (m.apply ctx) = (gives m).or (view ctx))
    (hexit : gives .exit = none) (ctx : Context) (moves : List Move) :
    view (ctx.follow (stillOpen moves)) = (latest gives moves).or (view ctx) := by
  induction moves generalizing ctx with
  | nil => rfl
  | cons m moves ih =>
    rw [stillOpen, latest, Option.or_assoc]
    split
    case isTrue hopen => rw [Context.follow_cons, ih, hview ctx m hopen.1, if_pos hopen.2]
    case isFalse hclosed =>
      have hnone : (if unmatched moves = 0 then gives m else none) = none := by
        split
        case isTrue hzero =>
          obtain rfl : m = .exit := by_contra fun hm => hclosed ⟨hm, hzero⟩
          exact hexit
        case isFalse => rfl
      rw [ih, hnone, Option.none_or]

theorem view_follow_eq_some_iff (view : Context → Option α)
    (hview : ∀ ctx m, m ≠ .exit → view (m.apply ctx) = (gives m).or (view ctx))
    (hexit : gives .exit = none) {file : FileScope} (hnone : view (.ofFile file) = none)
    (h : Paired moves) :
    view ((Context.ofFile file).follow moves) = some a ↔ LatestOpen gives moves a := by
  have hzero := paired_iff.1 h
  rw [Context.follow_eq (Context.delimited_ofFile file) (hzero.trans_le (Nat.zero_le _)), hzero,
    Function.iterate_zero_apply, view_follow_stillOpen hview hexit, hnone, Option.or_none,
    latest_eq_some_iff]

end

theorem Context.local?_apply (name : String) (ctx : Context) (m : Move) (h : m ≠ .exit) :
    ((m.apply ctx).local? name).map (·.type) =
      (m.declared? name).or ((ctx.local? name).map (·.type)) := by
  cases m with
  | exit => exact absurd rfl h
  | declare other type =>
    by_cases hname : other = name <;>
      simp [Move.apply, Move.declared?, Context.local?, Context.declare, hname]
  | _ => rfl

theorem Context.currentClass?_apply (ctx : Context) (m : Move) (h : m ≠ .exit) :
    (m.apply ctx).currentClass? = m.class?.or ctx.currentClass? := by
  cases m with
  | exit => exact absurd rfl h
  | enterClass qualified typeParams => exact List.getLast?_concat
  | _ => rfl

theorem Context.currentExecutable?_apply (ctx : Context) (m : Move) (h : m ≠ .exit) :
    (m.apply ctx).currentExecutable? = m.executable?.or ctx.currentExecutable? := by
  cases m with
  | exit => exact absurd rfl h
  | _ => rfl

/-- **A context simulates a stack of environments that never change.** After moves none of
whose exits lacks its entry it shows the environment on top of the stack and is as deep as the
stack, whose further environments are what exits bring back. The exit that matches an entry
restores all as it was before the entry. A name means the latest variable of this name whose
scope has not been left, of known type or not, and the current class and method are the latest
ones that have not been left. -/
theorem environments_scoped (file : FileScope) {moves : List Move} (h : Paired moves) :
    let ctx := (Context.ofFile file).follow moves
    let stack := ScopeStack.follow {} moves
    (ctx.stack = stack ∧ ctx.environment = stack.here ∧ ctx.depth = stack.around.length) ∧
    (∀ before m inside rest, moves = before ++ m :: (inside ++ .exit :: rest) → m.isEntry →
      Balanced inside →
      (Context.ofFile file).follow (before ++ m :: (inside ++ [.exit])) =
        (Context.ofFile file).follow before) ∧
    (∀ name type, (ctx.local? name).map (·.type) = some type ↔
      LatestOpen (Move.declared? name) moves type) ∧
    (∀ qualified, ctx.currentClass? = some qualified ↔ LatestOpen Move.class? moves qualified) ∧
    ∀ executable, ctx.currentExecutable? = some executable ↔
      LatestOpen Move.executable? moves executable := by
  intro ctx stack
  have hdelimited := Context.delimited_ofFile file
  have hstack : ctx.stack = stack := hdelimited.stack_follow moves
  refine ⟨⟨hstack, congrArg ScopeStack.here hstack, ?_⟩,
    fun before m inside rest _ hentry hinside => ?_, fun name type => ?_, fun qualified => ?_,
      fun executable => ?_⟩
  · rw [← hstack]
    exact (ctx.length_around ctx.depth).symm
  · rw [Context.follow_append]
    exact (hdelimited.follow before).follow_scope hentry hinside
  · exact view_follow_eq_some_iff (fun ctx => (ctx.local? name).map (·.type))
      (Context.local?_apply name) rfl rfl h
  · exact view_follow_eq_some_iff Context.currentClass? Context.currentClass?_apply rfl rfl h
  · exact view_follow_eq_some_iff Context.currentExecutable?
      Context.currentExecutable?_apply rfl rfl h

/-- A variable of unknown type hides one of known type up to the end of its block. -/
theorem environments_scoped_hiddenVariable :
    let run : Executable := ⟨"app.A.run()", false⟩
    let outside : List Move :=
      [.enterClass "app.A" ["T"], .enterExecutable run [], .declare "x" (some (.primitive "int"))]
    let inside : List Move := outside ++ [.enterBlock, .declare "x" none]
    let at? := fun moves => (((Context.ofFile {}).follow moves).local? "x").map (·.type)
    Paired inside ∧ at? inside = some none ∧
      ((Context.ofFile {}).follow inside).currentExecutable? = some run ∧
      (Context.ofFile {}).follow (inside ++ [.exit]) = (Context.ofFile {}).follow outside ∧
      at? (inside ++ [.exit]) = some (some (.primitive "int")) := by
  intro run outside inside at?
  have hinside : Paired inside := by decide
  have hleft : Paired (inside ++ [.exit]) := by decide
  obtain ⟨-, -, hlocal, -, hexecutable⟩ := environments_scoped {} hinside
  obtain ⟨-, hrestored, hlocalAfter, -, -⟩ := environments_scoped {} hleft
  refine ⟨hinside, (hlocal "x" none).2 ?_, (hexecutable run).2 ?_,
    hrestored outside .enterBlock [.declare "x" none] [] rfl rfl (by decide),
    (hlocalAfter "x" _).2 ?_⟩
  · exact latest_eq_some_iff.1 rfl
  · exact latest_eq_some_iff.1 rfl
  · exact latest_eq_some_iff.1 rfl

end CodeGraph.Java
