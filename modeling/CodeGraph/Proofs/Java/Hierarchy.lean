import CodeGraph.Proofs.Java.Inquiry
import Mathlib.Data.Finset.Card
import Mathlib.Logic.Relation
import Mathlib.Data.Fintype.Card
import Mathlib.Data.Set.Finite.Basic
import Mathlib.Order.WellFounded
import Mathlib.Order.RelClasses

/-!
# When hierarchies have an answer

Asking for the hierarchy of a type resolves the headers of all types above it, and a dotted name or
an enclosing type in a header asks for further hierarchies. `hierarchyWithin` cuts such questions
off at a depth, and `hierarchy?` takes a depth at which nothing is cut off that a greater depth
would answer (`hierarchyWithin_eq_hierarchy?`).

A type `Extends` the class types of its header and `LooksInto` the types whose members the
resolution of its header looks for. Inheritance may be cyclic, since a hierarchy lists every type
once. What may not happen is a *circular header*: one that looks into a type from which inheritance
and further look-ups lead back to it. `forall_isSome_hierarchy?_iff` shows that nothing else keeps a
hierarchy from having an answer.
-/

namespace CodeGraph.Java

namespace Naming

variable (index : ProjectIndex) (answer : String → Option (List String))

/-- The second type is a class type in the header of the first. -/
def Extends (t s : String) : Prop := ∃ types, supertypes index answer t = some types ∧ s ∈ types

/-- Resolving the header of the first type asks for the hierarchy of the second. -/
def LooksInto (t s : String) : Prop := (supertypes index Inquiry.put t).Asks answer s

variable {index answer}

theorem supertypes_of_not_contains {m : Type → Type} [Monad m] {f : String → m (List String)}
    {t : String} (h : ¬index.contains t) : supertypes index f t = pure [] := by
  have : index.get? t = none := by simpa [ProjectIndex.contains] using h
  rw [supertypes, this]

/-! ## One level and the next -/

theorem mem_fresh {seen names : List String} {x : String} :
    x ∈ (fresh seen names).1 ↔ x ∈ names ∧ x ∉ seen := by
  induction names generalizing seen with
  | nil => simp [fresh]
  | cons name rest ih =>
    rw [fresh]
    split
    case isTrue h =>
      have h : name ∈ seen := by simpa using h
      rw [ih, List.mem_cons]
      constructor
      · rintro ⟨hx, hs⟩
        exact ⟨.inr hx, hs⟩
      · rintro ⟨rfl | hx, hs⟩
        · exact absurd h hs
        · exact ⟨hx, hs⟩
    case isFalse h =>
      have h : name ∉ seen := by simpa using h
      simp only [List.mem_cons, ih]
      constructor
      · rintro (rfl | ⟨hx, hs⟩)
        · exact ⟨.inl rfl, h⟩
        · exact ⟨.inr hx, fun hs' => hs (.inr hs')⟩
      · rintro ⟨rfl | hx, hs⟩
        · exact .inl rfl
        · by_cases hn : x = name
          · exact .inl hn
          · exact .inr ⟨hx, not_or.2 ⟨hn, hs⟩⟩

theorem mem_seen_fresh {seen names : List String} {x : String} :
    x ∈ (fresh seen names).2 ↔ x ∈ seen ∨ x ∈ names := by
  induction names generalizing seen with
  | nil => simp [fresh]
  | cons name rest ih =>
    rw [fresh]
    split
    case isTrue h =>
      have h : name ∈ seen := by simpa using h
      rw [ih, List.mem_cons]
      exact ⟨fun hx => hx.imp_right .inr, fun hx => hx.elim .inl fun hx =>
        hx.elim (fun e => .inl (e ▸ h)) .inr⟩
    case isFalse h => simp only [ih, List.mem_cons]; tauto

theorem parents_cons {t : String} {ts above : List String}
    (h : parents index answer (t :: ts) = some above) :
    ∃ first rest, supertypes index answer t = some first ∧ parents index answer ts = some rest ∧
      above = first ++ rest := by
  obtain ⟨first, hf, h⟩ := Option.bind_eq_some_iff.1 h
  obtain ⟨rest, hr, h⟩ := Option.bind_eq_some_iff.1 h
  exact ⟨first, rest, hf, hr, (Option.some.inj h).symm⟩

theorem supertypes_of_parents {ts above : List String} (h : parents index answer ts = some above)
    {t : String} (ht : t ∈ ts) :
    ∃ types, supertypes index answer t = some types ∧ ∀ s ∈ types, s ∈ above := by
  induction ts generalizing above with
  | nil => simp at ht
  | cons r rs ih =>
    obtain ⟨first, rest, hf, hr, rfl⟩ := parents_cons h
    rcases List.mem_cons.1 ht with rfl | ht
    · exact ⟨first, hf, fun s hs => List.mem_append_left _ hs⟩
    · obtain ⟨types, htypes, hsub⟩ := ih hr ht
      exact ⟨types, htypes, fun s hs => List.mem_append_right _ (hsub s hs)⟩

theorem extends_of_mem_parents {ts above : List String}
    (h : parents index answer ts = some above) {s : String} (hs : s ∈ above) :
    ∃ t ∈ ts, Extends index answer t s := by
  induction ts generalizing above with
  | nil => cases h; simp at hs
  | cons r rs ih =>
    obtain ⟨first, rest, hf, hr, rfl⟩ := parents_cons h
    rcases List.mem_append.1 hs with hs | hs
    · exact ⟨r, List.mem_cons_self, first, hf, hs⟩
    · obtain ⟨t, ht, he⟩ := ih hr hs
      exact ⟨t, List.mem_cons_of_mem _ ht, he⟩

theorem isSome_parents {ts : List String} (h : ∀ t ∈ ts, (supertypes index answer t).isSome) :
    ∃ above, parents index answer ts = some above := by
  induction ts with
  | nil => exact ⟨[], rfl⟩
  | cons t ts ih =>
    obtain ⟨rest, hr⟩ := ih fun x hx => h x (List.mem_cons_of_mem _ hx)
    obtain ⟨first, hf⟩ := Option.isSome_iff_exists.1 (h t List.mem_cons_self)
    exact ⟨first ++ rest, by simp [parents, hf, hr]⟩

theorem looksInto_of_asks_parents {ts : List String} {u : String}
    (h : (parents index Inquiry.put ts).Asks answer u) : ∃ t ∈ ts, LooksInto index answer t u := by
  induction ts with
  | nil => exact absurd h (Inquiry.not_asks_pure _ _)
  | cons t ts ih =>
    rcases Inquiry.asks_bind.1 h with h | ⟨first, -, h⟩
    · exact ⟨t, List.mem_cons_self, h⟩
    · rcases Inquiry.asks_bind.1 h with h | ⟨rest, -, h⟩
      · obtain ⟨r, hr, hl⟩ := ih h
        exact ⟨r, List.mem_cons_of_mem _ hr, hl⟩
      · exact absurd h (Inquiry.not_asks_pure _ _)

/-! ## All levels -/

/-- The number of project types not seen yet. -/
def unseen (index : ProjectIndex) (seen : List String) : Nat :=
  (index.types.keys.toFinset \ seen.toFinset).card

/-- So many rounds reach the last level: every round but the last sees a project type for the first
time. -/
def Suffices (index : ProjectIndex) (rounds : Nat) (seen frontier : List String) : Prop :=
  (∀ t ∈ frontier, ¬index.contains t) ∨ unseen index seen < rounds

theorem mem_keys_of_contains {t : String} (h : index.contains t) : t ∈ index.types.keys := by
  obtain ⟨decl, hd⟩ := Option.isSome_iff_exists.1 h
  exact List.mem_map.2 ⟨_, Dict.mem_of_get? hd, rfl⟩

theorem card_keys_le (index : ProjectIndex) : index.types.keys.toFinset.card ≤ index.typeCount :=
  (List.toFinset_card_le _).trans (List.length_map _).le

theorem unseen_lt {seen seen' : List String} {t : String} (hsub : ∀ x ∈ seen, x ∈ seen')
    (ht : index.contains t) (hn : t ∉ seen) (hs : t ∈ seen') :
    unseen index seen' < unseen index seen := by
  refine Finset.card_lt_card ((Finset.ssubset_iff_of_subset fun x hx => ?_).2 ⟨t, ?_, ?_⟩)
  · simp only [Finset.mem_sdiff, List.mem_toFinset] at hx ⊢
    exact ⟨hx.1, fun h => hx.2 (hsub x h)⟩
  · simp [mem_keys_of_contains ht, hn]
  · simp [hs]

theorem suffices_typeCount (index : ProjectIndex) (owner : String) :
    Suffices index index.typeCount [owner] [owner] := by
  by_cases h : index.contains owner
  · have : unseen index [owner] < unseen index [] :=
      unseen_lt (by simp) h (by simp) List.mem_cons_self
    have hall : unseen index [] ≤ index.typeCount := by simpa [unseen] using card_keys_le index
    exact .inr (this.trans_le hall)
  · exact .inl (by simpa using h)

theorem Suffices.step {rounds : Nat} {seen frontier above : List String}
    (h : Suffices index (rounds + 1) seen frontier)
    (ha : parents index answer frontier = some above) :
    Suffices index rounds (fresh seen above).2 (fresh seen above).1 := by
  by_cases hout : ∀ t ∈ (fresh seen above).1, ¬index.contains t
  · exact .inl hout
  push Not at hout
  obtain ⟨t, ht, hc⟩ := hout
  obtain ⟨hta, hts⟩ := mem_fresh.1 ht
  rcases h with h | h
  · -- a frontier outside the project has nothing above it
    obtain ⟨r, hr, types, htypes, hm⟩ := extends_of_mem_parents ha hta
    rw [supertypes_of_not_contains (h r hr)] at htypes
    cases htypes
    simp at hm
  · have : unseen index (fresh seen above).2 < unseen index seen :=
      unseen_lt (fun x hx => mem_seen_fresh.2 (.inl hx)) hc hts (mem_seen_fresh.2 (.inr hta))
    exact .inr (by omega)

theorem levels_succ {rounds : Nat} {seen frontier types : List String} (hne : frontier ≠ [])
    (h : levels index answer (rounds + 1) seen frontier = some types) :
    ∃ above rest, parents index answer frontier = some above ∧
      levels index answer rounds (fresh seen above).2 (fresh seen above).1 = some rest ∧
      types = frontier ++ rest := by
  obtain ⟨x, xs, rfl⟩ := List.exists_cons_of_ne_nil hne
  obtain ⟨above, ha, h⟩ := Option.bind_eq_some_iff.1 h
  obtain ⟨rest, hr, h⟩ := Option.bind_eq_some_iff.1 h
  exact ⟨above, rest, ha, hr, (Option.some.inj h).symm⟩

/-- With enough rounds, every type of the levels has its class types among them or among those seen
before. -/
theorem levels_closed {rounds : Nat} {seen frontier types : List String}
    (h : levels index answer rounds seen frontier = some types)
    (hs : Suffices index rounds seen frontier) :
    (∀ t ∈ frontier, t ∈ types) ∧ ∀ t ∈ types, ∃ above,
      supertypes index answer t = some above ∧ ∀ s ∈ above, s ∈ seen ∨ s ∈ types := by
  induction rounds generalizing seen frontier types with
  | zero =>
    have htypes : types = frontier := by cases frontier <;> exact (Option.some.inj h).symm
    subst htypes
    refine ⟨fun t ht => ht, fun t ht => ⟨[], ?_, by simp⟩⟩
    rcases hs with hs | hs
    · exact supertypes_of_not_contains (hs t ht)
    · omega
  | succ rounds ih =>
    by_cases hne : frontier = []
    · subst hne
      cases h
      simp
    obtain ⟨above, rest, ha, hr, rfl⟩ := levels_succ hne h
    obtain ⟨hfront, hclosed⟩ := ih hr (hs.step ha)
    refine ⟨fun t ht => List.mem_append_left _ ht, fun t ht => ?_⟩
    rcases List.mem_append.1 ht with ht | ht
    · obtain ⟨supers, hsupers, hsub⟩ := supertypes_of_parents ha ht
      refine ⟨supers, hsupers, fun s hs => ?_⟩
      by_cases hseen : s ∈ seen
      · exact .inl hseen
      · exact .inr (List.mem_append_right _ (hfront s (mem_fresh.2 ⟨hsub s hs, hseen⟩)))
    · obtain ⟨supers, hsupers, hsub⟩ := hclosed t ht
      refine ⟨supers, hsupers, fun s hs => ?_⟩
      rcases hsub s hs with h | h
      · rcases mem_seen_fresh.1 h with h | h
        · exact .inl h
        · by_cases hseen : s ∈ seen
          · exact .inl hseen
          · exact .inr (List.mem_append_right _ (hfront s (mem_fresh.2 ⟨h, hseen⟩)))
      · exact .inr (List.mem_append_right _ h)

/-- Levels that stay among types whose headers can be resolved have an answer. -/
theorem isSome_levels {S : String → Prop}
    (hS : ∀ t, S t → ∃ above, supertypes index answer t = some above ∧ ∀ s ∈ above, S s)
    (rounds : Nat) {seen frontier : List String} (hf : ∀ t ∈ frontier, S t) :
    (levels index answer rounds seen frontier).isSome := by
  induction rounds generalizing seen frontier with
  | zero => cases frontier <;> rfl
  | succ rounds ih =>
    cases frontier with
    | nil => rfl
    | cons x xs =>
      have hsome : ∀ t ∈ x :: xs, (supertypes index answer t).isSome := by
        intro t ht
        obtain ⟨supers, hsupers, -⟩ := hS t (hf t ht)
        simp [hsupers]
      obtain ⟨above, ha⟩ := isSome_parents hsome
      have hnew : ∀ t ∈ (fresh seen above).1, S t := by
        intro t ht
        obtain ⟨r, hr, supers, hsupers, hm⟩ := extends_of_mem_parents ha (mem_fresh.1 ht).1
        obtain ⟨supers', hsupers', hsub⟩ := hS r (hf r hr)
        cases hsupers.symm.trans hsupers'
        exact hsub t hm
      obtain ⟨rest, hrest⟩ : ∃ rest,
          levels index answer rounds (fresh seen above).2 (fresh seen above).1 = some rest :=
        Option.isSome_iff_exists.1 (ih hnew)
      simp only [levels, ha, hrest, Option.bind_eq_bind, Option.bind_some, Option.pure_def,
        Option.isSome_some]

/-- The questions of the levels come from headers of types that inheritance leads to. -/
theorem looksInto_of_asks_levels {rounds : Nat} {seen frontier : List String} {u : String}
    (h : (levels index Inquiry.put rounds seen frontier).Asks answer u) :
    ∃ x ∈ frontier, ∃ t, Relation.ReflTransGen (Extends index answer) x t ∧
      LooksInto index answer t u := by
  induction rounds generalizing seen frontier with
  | zero => cases frontier <;> exact absurd h (Inquiry.not_asks_pure _ _)
  | succ rounds ih =>
    cases frontier with
    | nil => exact absurd h (Inquiry.not_asks_pure _ _)
    | cons x xs =>
      rcases Inquiry.asks_bind.1 h with h | ⟨above, ha, h⟩
      · obtain ⟨t, ht, hl⟩ := looksInto_of_asks_parents h
        exact ⟨t, ht, t, .refl, hl⟩
      · rw [Inquiry.run_parents] at ha
        rcases Inquiry.asks_bind.1 h with h | ⟨rest, -, h⟩
        · obtain ⟨y, hy, t, hyt, hl⟩ := ih h
          obtain ⟨r, hr, he⟩ := extends_of_mem_parents ha (mem_fresh.1 hy).1
          exact ⟨r, hr, t, .head he hyt, hl⟩
        · exact absurd h (Inquiry.not_asks_pure _ _)

end Naming

/-! ## Nesting -/

namespace ProjectIndex

open Naming

variable (index : ProjectIndex)

/-- The evaluation of a hierarchy. Its questions are further hierarchies. -/
def inquiry (owner : String) : Inquiry String (List String) (List String) :=
  levels index Inquiry.put index.typeCount [owner] [owner]

variable {index}

theorem hierarchyWithin_succ (depth : Nat) (owner : String) :
    index.hierarchyWithin (depth + 1) owner =
      (index.inquiry owner).run (index.hierarchyWithin depth) :=
  (Inquiry.run_levels ..).symm

theorem hierarchyWithin_step {depth : Nat} {owner : String} {types : List String}
    (h : index.hierarchyWithin depth owner = some types) :
    index.hierarchyWithin (depth + 1) owner = some types := by
  induction depth generalizing owner types with
  | zero => cases h
  | succ depth ih =>
    rw [hierarchyWithin_succ] at h ⊢
    exact Inquiry.run_of_le (fun _ _ => ih) h

theorem hierarchyWithin_mono {depth depth' : Nat} (hle : depth ≤ depth') {owner : String}
    {types : List String} (h : index.hierarchyWithin depth owner = some types) :
    index.hierarchyWithin depth' owner = some types := by
  induction hle with
  | refl => exact h
  | step _ ih => exact hierarchyWithin_step ih

/-- A type outside the project stands alone. -/
theorem hierarchyWithin_of_not_contains (depth : Nat) {owner : String}
    (h : ¬index.contains owner) : index.hierarchyWithin (depth + 1) owner = some [owner] := by
  have hp : parents index (index.hierarchyWithin depth) [owner] = some [] := by
    simp [parents, supertypes_of_not_contains h]
  rw [hierarchyWithin]
  cases index.typeCount with
  | zero => rfl
  | succ rounds => simp [levels, hp, fresh]

/-- The project types whose hierarchy has an answer at a depth. -/
def answered (index : ProjectIndex) (depth : Nat) : Finset String :=
  index.types.keys.toFinset.filter fun t => (index.hierarchyWithin depth t).isSome

theorem answered_subset (index : ProjectIndex) (depth : Nat) :
    index.answered depth ⊆ index.answered (depth + 1) := by
  intro t ht
  simp only [answered, Finset.mem_filter] at ht ⊢
  obtain ⟨types, htypes⟩ := Option.isSome_iff_exists.1 ht.2
  exact ⟨ht.1, by simp [hierarchyWithin_step htypes]⟩

theorem hierarchyWithin_eq_of_answered_eq {depth : Nat}
    (h : index.answered (depth + 1) = index.answered (depth + 2)) :
    index.hierarchyWithin (depth + 1) = index.hierarchyWithin (depth + 2) := by
  funext t
  by_cases hc : index.contains t
  · cases ht : index.hierarchyWithin (depth + 2) t with
    | none =>
      cases ht' : index.hierarchyWithin (depth + 1) t with
      | none => rfl
      | some types => cases (hierarchyWithin_step ht').symm.trans ht
    | some types =>
      have hm : t ∈ index.answered (depth + 1) := by
        rw [h]
        simp [answered, ht, mem_keys_of_contains hc]
      obtain ⟨types', ht'⟩ := Option.isSome_iff_exists.1 (Finset.mem_filter.1 hm).2
      rw [ht', ← ht, hierarchyWithin_step ht']
  · rw [hierarchyWithin_of_not_contains _ hc, hierarchyWithin_of_not_contains _ hc]

/-- As long as every depth answers for more types than the one before, there are as many answers as
depths. -/
theorem exists_answered_eq (index : ProjectIndex) (n : Nat) :
    (∃ depth ≤ n, index.answered (depth + 1) = index.answered (depth + 2)) ∨
      n < (index.answered (n + 2)).card := by
  have step : ∀ depth, index.answered (depth + 1) = index.answered (depth + 2) ∨
      (index.answered (depth + 1)).card < (index.answered (depth + 2)).card := by
    intro depth
    rcases (answered_subset index (depth + 1)).eq_or_ssubset with h | h
    · exact .inl h
    · exact .inr (Finset.card_lt_card h)
  induction n with
  | zero => exact (step 0).imp (fun h => ⟨0, le_rfl, h⟩) fun h => by omega
  | succ n ih =>
    rcases ih with ⟨depth, hd, h⟩ | h
    · exact .inl ⟨depth, by omega, h⟩
    · refine (step (n + 1)).imp (fun h => ⟨n + 1, le_rfl, h⟩) fun h' => ?_
      have : n + 1 + 1 = n + 2 := rfl
      rw [this] at h'
      omega

/-- Nesting deeper than `hierarchy?` does changes no answer. -/
theorem hierarchyWithin_eq_hierarchy? {depth : Nat} (h : index.typeCount + 1 ≤ depth) :
    index.hierarchyWithin depth = index.hierarchy? := by
  have hcard : (index.answered (index.typeCount + 2)).card ≤ index.typeCount :=
    (Finset.card_filter_le _ _).trans (card_keys_le index)
  obtain ⟨d, hd, heq⟩ :=
    (exists_answered_eq index index.typeCount).resolve_right (by omega)
  have hfix := hierarchyWithin_eq_of_answered_eq heq
  have hconst : ∀ e, d + 1 ≤ e → index.hierarchyWithin e = index.hierarchyWithin (d + 1) := by
    intro e he
    induction he with
    | refl => rfl
    | step _ ih =>
      funext owner
      rw [hierarchyWithin_succ, ih, ← hierarchyWithin_succ, hfix]
  rw [hconst depth (by omega)]
  exact (hconst (index.typeCount + 1) (by omega)).symm

theorem hierarchy?_of_hierarchyWithin {depth : Nat} {owner : String} {types : List String}
    (h : index.hierarchyWithin depth owner = some types) : index.hierarchy? owner = some types := by
  rw [← hierarchyWithin_eq_hierarchy? (Nat.le_max_right depth (index.typeCount + 1))]
  exact hierarchyWithin_mono (Nat.le_max_left _ _) h

/-- The hierarchies answer for one another. -/
theorem hierarchy?_eq_run (owner : String) :
    index.hierarchy? owner = (index.inquiry owner).run index.hierarchy? := by
  have hlimit := hierarchyWithin_eq_hierarchy? (Nat.le_succ (index.typeCount + 1))
  rw [← congrFun hlimit owner]
  exact hierarchyWithin_succ _ _

/-! ## Circular headers -/

/-- The second type is a class type in the header of the first. -/
def Extends (index : ProjectIndex) : String → String → Prop := Naming.Extends index index.hierarchy?

/-- Resolving the header of the first type looks for a member of the second. -/
def LooksInto (index : ProjectIndex) : String → String → Prop :=
  Naming.LooksInto index index.hierarchy?

/-- Inheritance and look-ups for headers lead from the first type to the second. -/
def LeadsTo (index : ProjectIndex) : String → String → Prop :=
  Relation.ReflTransGen fun t s => index.Extends t s ∨ index.LooksInto t s

/-- The header of the type looks into a type that leads back to it. -/
def CircularHeader (index : ProjectIndex) (t : String) : Prop :=
  ∃ s, index.LooksInto t s ∧ index.LeadsTo s t

/-- What inheritance reaches is answered at the same depth. -/
theorem Extends.isSome_hierarchyWithin {depth : Nat} {t s : String} (h : index.Extends t s)
    (ht : (index.hierarchyWithin depth t).isSome) : (index.hierarchyWithin depth s).isSome := by
  cases depth with
  | zero => cases ht
  | succ depth =>
    obtain ⟨types, htypes⟩ := Option.isSome_iff_exists.1 ht
    obtain ⟨hfront, hclosed⟩ := levels_closed htypes (suffices_typeCount index t)
    have hself : t ∈ types := hfront t List.mem_cons_self
    have hclosed' : ∀ r ∈ types, ∃ above,
        Naming.supertypes index (index.hierarchyWithin depth) r = some above ∧
          ∀ x ∈ above, x ∈ types := by
      intro r hr
      obtain ⟨above, ha, hsub⟩ := hclosed r hr
      refine ⟨above, ha, fun x hx => (hsub x hx).elim (fun h => ?_) id⟩
      exact (List.mem_singleton.1 h) ▸ hself
    obtain ⟨above, ha, hsub⟩ := hclosed' t hself
    obtain ⟨above', ha', hm⟩ := h
    have hsame : Naming.supertypes index index.hierarchy? t = some above := by
      rw [← Inquiry.run_supertypes] at ha ⊢
      exact Inquiry.run_of_le (fun _ _ => hierarchy?_of_hierarchyWithin) ha
    cases hsame.symm.trans ha'
    have hs : s ∈ types := hsub s hm
    exact isSome_levels hclosed' _ fun x hx => (List.mem_singleton.1 hx) ▸ hs

/-- What a header looks into is answered one level less deep. -/
theorem LooksInto.isSome_hierarchyWithin {depth : Nat} {t s : String} (h : index.LooksInto t s)
    (ht : (index.hierarchyWithin (depth + 1) t).isSome) :
    (index.hierarchyWithin depth s).isSome := by
  obtain ⟨types, htypes⟩ := Option.isSome_iff_exists.1 ht
  obtain ⟨hfront, hclosed⟩ := levels_closed htypes (suffices_typeCount index t)
  obtain ⟨above, ha, -⟩ := hclosed t (hfront t List.mem_cons_self)
  rw [← Inquiry.run_supertypes] at ha
  exact (Inquiry.Asks.of_le (fun _ _ => hierarchy?_of_hierarchyWithin) ha h).isSome ha

theorem LeadsTo.isSome_hierarchyWithin {depth : Nat} {t s : String} (h : index.LeadsTo t s)
    (ht : (index.hierarchyWithin depth t).isSome) : (index.hierarchyWithin depth s).isSome := by
  induction h with
  | refl => exact ht
  | tail _ h ih =>
    rcases h with h | h
    · exact h.isSome_hierarchyWithin ih
    · obtain ⟨types, htypes⟩ := Option.isSome_iff_exists.1 ih
      exact h.isSome_hierarchyWithin (by simp [hierarchyWithin_step htypes])

/-- The hierarchy of a type with a circular header has no answer, however deep it may nest. -/
theorem CircularHeader.hierarchyWithin_eq_none {t : String} (h : index.CircularHeader t)
    (depth : Nat) : index.hierarchyWithin depth t = none := by
  obtain ⟨s, hl, hb⟩ := h
  induction depth with
  | zero => rfl
  | succ depth ih =>
    by_contra hn
    have hs := hl.isSome_hierarchyWithin (Option.isSome_iff_ne_none.2 hn)
    have := hb.isSome_hierarchyWithin hs
    simp [ih] at this

/-! ## Unanswered hierarchies -/

/-- The hierarchy of the first type needs the one of the second: a type that
inheritance leads to looks into it. -/
def Needs (index : ProjectIndex) (owner s : String) : Prop :=
  ∃ t, Relation.ReflTransGen index.Extends owner t ∧ index.LooksInto t s

theorem leadsTo_of_extends {t s : String} (h : Relation.ReflTransGen index.Extends t s) :
    index.LeadsTo t s :=
  Relation.ReflTransGen.mono (fun _ _ => .inl) _ _ h

theorem Needs.leadsTo {owner s : String} (h : index.Needs owner s) : index.LeadsTo owner s := by
  obtain ⟨t, ht, hl⟩ := h
  exact (leadsTo_of_extends ht).tail (.inr hl)

/-- A hierarchy without an answer needs another one that has none. -/
theorem exists_needs_of_hierarchy?_eq_none {owner : String} (h : index.hierarchy? owner = none) :
    ∃ s, index.hierarchy? s = none ∧ index.Needs owner s := by
  rw [hierarchy?_eq_run] at h
  obtain ⟨s, hs, hnone⟩ := Inquiry.run_eq_none_iff.1 h
  obtain ⟨x, hx, t, ht, hl⟩ := looksInto_of_asks_levels hs
  cases List.mem_singleton.1 hx
  exact ⟨s, hnone, t, ht, hl⟩

/-- Only types of the project can have a hierarchy without an answer. -/
theorem finite_unanswered (index : ProjectIndex) : {t | index.hierarchy? t = none}.Finite := by
  refine (index.types.keys.toFinset.finite_toSet).subset fun t ht => ?_
  have hcontains : index.contains t := by
    by_contra hc
    have halone := hierarchyWithin_of_not_contains index.typeCount hc
    exact absurd (halone.symm.trans ht) (by simp)
  simpa using mem_keys_of_contains hcontains

/-- A hierarchy that needs itself comes from a circular header. -/
theorem exists_circularHeader_of_needs {owner : String}
    (h : Relation.TransGen index.Needs owner owner) : ∃ t, index.CircularHeader t := by
  obtain ⟨s, ⟨t, ht, hl⟩, hback⟩ := Relation.TransGen.head'_iff.1 h
  have howner : index.LeadsTo s owner := hback.lift' id fun _ _ hn => hn.leadsTo
  exact ⟨t, s, hl, howner.trans (leadsTo_of_extends ht)⟩

/-- In a finite set whose every element is related to one of the set, some element is related to
itself. -/
theorem exists_transGen_self {α : Type} {r : α → α → Prop} {S : Set α} (hfin : S.Finite)
    (hne : S.Nonempty) (h : ∀ x ∈ S, ∃ y ∈ S, r x y) : ∃ x, Relation.TransGen r x x := by
  by_contra hn
  push Not at hn
  have : Finite S := hfin
  have : IsTrans S fun a b => Relation.TransGen r b a := ⟨fun _ _ _ hab hbc => hbc.trans hab⟩
  have : Std.Irrefl fun a b : S => Relation.TransGen r (b : α) a := ⟨fun a => hn a⟩
  obtain ⟨x₀, hx₀⟩ := hne
  obtain ⟨m, -, hm⟩ := (Finite.wellFounded_of_trans_of_irrefl
    fun a b : S => Relation.TransGen r (b : α) a).has_min Set.univ ⟨⟨x₀, hx₀⟩, trivial⟩
  obtain ⟨y, hy, hr⟩ := h m m.2
  exact hm ⟨y, hy⟩ trivial (.single hr)

/-- **Hierarchies have answers exactly if no header is circular.** -/
theorem forall_isSome_hierarchy?_iff :
    (∀ owner, (index.hierarchy? owner).isSome) ↔ ∀ t, ¬index.CircularHeader t := by
  constructor
  · intro h t hc
    have := h t
    rw [hierarchy?, hc.hierarchyWithin_eq_none] at this
    cases this
  · intro h
    by_contra hn
    push Not at hn
    obtain ⟨owner, howner⟩ := hn
    -- one unanswered hierarchy needs the next, among finitely many
    have hnonempty : {t | index.hierarchy? t = none}.Nonempty := ⟨owner, by simpa using howner⟩
    obtain ⟨x, hx⟩ := exists_transGen_self (finite_unanswered index) hnonempty
      fun _ ha => exists_needs_of_hierarchy?_eq_none ha
    obtain ⟨t, ht⟩ := exists_circularHeader_of_needs hx
    exact h t ht

/-- It is enough that the types of the index have answers. -/
theorem not_circularHeader_of_answered (h : ∀ q ∈ index.types.keys, (index.hierarchy? q).isSome)
    (t : String) : ¬index.CircularHeader t := by
  refine forall_isSome_hierarchy?_iff.1 (fun owner => ?_) t
  by_cases hcontains : index.contains owner
  · exact h owner (mem_keys_of_contains hcontains)
  · rw [hierarchy?, hierarchyWithin_of_not_contains _ hcontains]
    rfl

/-- Without supertypes there are no headers to be circular. -/
theorem not_circularHeader_of_forall
    (h : ∀ q decl, index.get? q = some decl → decl.superclass = none ∧ decl.interfaces = [])
    (t : String) :
    ¬index.CircularHeader t := by
  rintro ⟨s, hl, -⟩
  suffices Naming.supertypes index Inquiry.put t = pure [] by
    rw [LooksInto, Naming.LooksInto, this] at hl
    exact Inquiry.not_asks_pure _ _ hl
  unfold Naming.supertypes
  cases hdecl : index.get? t with
  | none => rfl
  | some decl =>
    obtain ⟨hsuperclass, hinterfaces⟩ := h t decl hdecl
    simp only [hsuperclass, hinterfaces, Option.toList_none, List.append_nil]
    rfl

end ProjectIndex

end CodeGraph.Java
