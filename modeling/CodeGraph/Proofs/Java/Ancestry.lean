import CodeGraph.Proofs.Java.Hierarchy
import Mathlib.Data.ENat.Lattice

/-!
# Hierarchies are breadth first

A type is *above* another by a number of steps of inheritance (`Above`), and its `ascent` is the
least such number. A hierarchy that has an answer consists of the types above its first one, each of
them once and the nearest first (`covers_hierarchy`), also where inheritance is cyclic and where
types are outside the project.

* `ascent_eq_succ_iff`: a type is one step further than the nearest of the types that inherit it.
* `Layer.next`: the new supertypes of the types of one ascent are those of the next.
* `Layer.covers_levels`: so the levels list the types by ascent.
-/

namespace CodeGraph.Java

/-- The results of a run do not depend on how questions without answers are treated,
if there are none. -/
theorem Inquiry.run_ancestors {index : ProjectIndex} {α : Type}
    {p : Inquiry String (List String) α} {a : α}
    (h : p.run index.hierarchy? = some a) : Id.run (p.run index.ancestors) = a := by
  induction p with
  | result b => exact Option.some.inj h
  | ask q next ih =>
    obtain ⟨types, htypes, hnext⟩ := Option.bind_eq_some_iff.1 h
    have hanswer : index.ancestors q = types := by
      show (index.hierarchy? q).getD [q] = types
      rw [htypes, Option.getD_some]
    show Id.run ((next (index.ancestors q)).run index.ancestors) = a
    rw [hanswer]
    exact ih types hnext

namespace ProjectIndex

open Naming

variable (index : ProjectIndex)

/-- The second type is a direct supertype of the first. -/
def Inherits (t s : String) : Prop := s ∈ index.supertypes t

/-- The type is so many steps of inheritance above the owner. -/
def Above (owner : String) : Nat → String → Prop
  | 0, t => t = owner
  | steps + 1, t => ∃ s, Above owner steps s ∧ index.Inherits s t

/-- The least number of steps of inheritance from the owner to a type, if there is one. -/
noncomputable def ascent (owner t : String) : ℕ∞ := ⨅ steps : {n // index.Above owner n t},
    (steps.1 : ℕ∞)

variable {index} {owner t s : String} {steps : Nat}

/-! ## Ways of inheritance -/

theorem succ_le_of_not_le {a : ℕ∞} (h : ¬a ≤ steps) : ((steps + 1 : ℕ) : ℕ∞) ≤ a := by
  rw [Nat.cast_add, Nat.cast_one]
  exact Order.add_one_le_of_lt (not_le.1 h)

theorem exists_above_iff : (∃ steps, index.Above owner steps t) ↔
    Relation.ReflTransGen index.Inherits owner t := by
  constructor
  · rintro ⟨steps, h⟩
    induction steps generalizing t with
    | zero => exact h ▸ .refl
    | succ steps ih =>
      obtain ⟨s, hs, hst⟩ := h
      exact (ih hs).tail hst
  · intro h
    induction h with
    | refl => exact ⟨0, rfl⟩
    | tail _ hst ih =>
      obtain ⟨steps, hs⟩ := ih
      exact ⟨steps + 1, _, hs, hst⟩

theorem ascent_le_iff : index.ascent owner t ≤ steps ↔ ∃ n ≤ steps, index.Above owner n t := by
  constructor
  · intro h
    by_contra hnone
    push Not at hnone
    have hfar : ((steps + 1 : ℕ) : ℕ∞) ≤ index.ascent owner t := le_iInf fun ⟨n, hn⟩ => by
      have : steps < n := by
        by_contra hle
        exact hnone n (not_lt.1 hle) hn
      exact_mod_cast this
    exact absurd (hfar.trans h) (by exact_mod_cast Nat.not_succ_le_self steps)
  · rintro ⟨n, hle, hn⟩
    exact (iInf_le _ (⟨n, hn⟩ : {n // index.Above owner n t})).trans (by exact_mod_cast hle)

theorem ascent_eq_zero_iff : index.ascent owner t = 0 ↔ t = owner := by
  have h : index.ascent owner t ≤ (0 : ℕ) ↔ t = owner := by
    rw [ascent_le_iff]
    constructor
    · rintro ⟨n, hle, hn⟩
      obtain rfl := Nat.le_zero.1 hle
      exact hn
    · exact fun h => ⟨0, le_rfl, h⟩
  rw [← h, Nat.cast_zero, nonpos_iff_eq_zero]

theorem ascent_ne_top_iff : index.ascent owner t ≠ ⊤ ↔
    Relation.ReflTransGen index.Inherits owner t := by
  rw [← exists_above_iff]
  constructor
  · intro h
    obtain ⟨steps, hsteps⟩ := ENat.ne_top_iff_exists.1 h
    obtain ⟨n, -, hn⟩ := ascent_le_iff.1 hsteps.ge
    exact ⟨n, hn⟩
  · rintro ⟨n, hn⟩
    exact ne_top_of_le_ne_top (ENat.natCast_ne_top n) (ascent_le_iff.2 ⟨n, le_rfl, hn⟩)

/-- **A type is one step further than the nearest that inherits it.** -/
theorem ascent_eq_succ_iff : index.ascent owner t = (steps + 1 : ℕ) ↔
    ¬index.ascent owner t ≤ steps ∧ ∃ s, index.ascent owner s = steps ∧ index.Inherits s t := by
  constructor
  · intro h
    have hfar : ¬index.ascent owner t ≤ steps := by
      rw [h]
      exact_mod_cast Nat.not_succ_le_self steps
    obtain ⟨n, hle, hn⟩ := ascent_le_iff.1 h.le
    have hsucc : n = steps + 1 := by
      by_contra hne
      exact hfar (ascent_le_iff.2 ⟨n, by omega, hn⟩)
    subst hsucc
    obtain ⟨s, hs, hst⟩ := hn
    refine ⟨hfar, s, le_antisymm (ascent_le_iff.2 ⟨steps, le_rfl, hs⟩) ?_, hst⟩
    -- a shorter way to the one that inherits would be a shorter way to the type
    by_contra hshort
    obtain ⟨k, hk⟩ := ENat.ne_top_iff_exists.1 (ne_top_of_lt (not_le.1 hshort))
    rw [← hk, not_le, Nat.cast_lt] at hshort
    obtain ⟨m, hmk, hm⟩ := ascent_le_iff.1 hk.ge
    exact hfar (ascent_le_iff.2 ⟨m + 1, by omega, s, hm, hst⟩)
  · rintro ⟨hfar, s, hs, hst⟩
    obtain ⟨n, hle, hn⟩ := ascent_le_iff.1 hs.le
    have hnear : index.ascent owner t ≤ (steps + 1 : ℕ) :=
      ascent_le_iff.2 ⟨n + 1, by omega, s, hn, hst⟩
    exact le_antisymm hnear (succ_le_of_not_le hfar)

/-- On the way to a type there is one at each ascent before. -/
theorem exists_ascent_eq {m : ℕ} (h : index.ascent owner t = m) (hle : steps ≤ m) :
    ∃ s, index.ascent owner s = steps := by
  induction m generalizing t with
  | zero =>
    obtain rfl : steps = 0 := Nat.le_zero.1 hle
    exact ⟨t, h⟩
  | succ m ih =>
    rcases Nat.lt_or_eq_of_le hle with hlt | rfl
    · obtain ⟨s, hs, -⟩ := (ascent_eq_succ_iff.1 h).2
      exact ih hs (Nat.le_of_lt_succ hlt)
    · exact ⟨t, h⟩

/-! ## One level -/

theorem supertypes_of_hierarchy? {types : List String}
    (h : Naming.supertypes index index.hierarchy? t = some types) : index.supertypes t = types := by
  rw [← Inquiry.run_supertypes] at h
  have hrun := Inquiry.run_ancestors h
  rwa [Inquiry.run_supertypes] at hrun

theorem parents_hierarchy? {ts above : List String}
    (h : parents index index.hierarchy? ts = some above) :
    above = ts.flatMap index.supertypes := by
  induction ts generalizing above with
  | nil => exact (Option.some.inj h).symm
  | cons t ts ih =>
    obtain ⟨first, rest, hfirst, hrest, rfl⟩ := parents_cons h
    rw [List.flatMap_cons, supertypes_of_hierarchy? hfirst, ih hrest]

theorem nodup_fresh (seen names : List String) : (fresh seen names).1.Nodup := by
  induction names generalizing seen with
  | nil => exact .nil
  | cons name rest ih =>
    rw [fresh]
    split
    case isTrue => exact ih seen
    case isFalse =>
      exact List.nodup_cons.2 ⟨fun h => (mem_fresh.1 h).2 List.mem_cons_self, ih (name :: seen)⟩

/-- The types of one ascent, and all that are seen by then. -/
structure Layer (index : ProjectIndex) (owner : String) (steps : Nat)
    (seen frontier : List String) : Prop where
  nodup : frontier.Nodup
  mem_frontier : ∀ t, t ∈ frontier ↔ index.ascent owner t = steps
  mem_seen : ∀ t, t ∈ seen ↔ index.ascent owner t ≤ steps

/-- The types from one ascent on, each once and the nearest first. -/
structure Covers (index : ProjectIndex) (owner : String) (steps : Nat) (types : List String) :
    Prop where
  nodup : types.Nodup
  sorted : types.Pairwise fun s t => index.ascent owner s ≤ index.ascent owner t
  mem : ∀ t, t ∈ types ↔ steps ≤ index.ascent owner t ∧ index.ascent owner t ≠ ⊤

variable {seen frontier : List String}

theorem layer_start (index : ProjectIndex) (owner : String) :
    Layer index owner 0 [owner] [owner] where
  nodup := List.nodup_singleton owner
  mem_frontier t := by rw [List.mem_singleton, Nat.cast_zero, ascent_eq_zero_iff]
  mem_seen t := by rw [List.mem_singleton, Nat.cast_zero, nonpos_iff_eq_zero, ascent_eq_zero_iff]

/-- **The unseen supertypes of one layer are the next.** -/
theorem Layer.next (h : Layer index owner steps seen frontier) :
    Layer index owner (steps + 1) (fresh seen (frontier.flatMap index.supertypes)).2
      (fresh seen (frontier.flatMap index.supertypes)).1 := by
  have habove (t : String) : t ∈ frontier.flatMap index.supertypes ↔
      ∃ s, index.ascent owner s = steps ∧ index.Inherits s t := by
    simp only [List.mem_flatMap, h.mem_frontier, Inherits]
  have hmem (t : String) : t ∈ (fresh seen (frontier.flatMap index.supertypes)).1 ↔
      index.ascent owner t = (steps + 1 : ℕ) := by
    rw [mem_fresh, and_comm, habove, h.mem_seen, ascent_eq_succ_iff]
  refine ⟨nodup_fresh _ _, hmem, fun t => ?_⟩
  rw [mem_seen_fresh]
  constructor
  · rintro (hseen | hnew)
    · exact ((h.mem_seen t).1 hseen).trans (by exact_mod_cast Nat.le_succ steps)
    · obtain ⟨s, hs, hst⟩ := (habove t).1 hnew
      obtain ⟨n, hle, hn⟩ := ascent_le_iff.1 hs.le
      exact ascent_le_iff.2 ⟨n + 1, by omega, s, hn, hst⟩
  · intro hnear
    by_cases hseen : t ∈ seen
    · exact .inl hseen
    · have hfar : ¬index.ascent owner t ≤ steps := fun hle => hseen ((h.mem_seen t).2 hle)
      exact .inr (mem_fresh.1 ((hmem t).2 (le_antisymm hnear (succ_le_of_not_le hfar)))).1

/-- Behind a layer without supertypes there is nothing. -/
theorem Layer.covers_of_forall (h : Layer index owner steps seen frontier)
    (hnone : ∀ s ∈ frontier, index.supertypes s = []) : Covers index owner steps frontier where
  nodup := h.nodup
  sorted := List.pairwise_of_forall_mem_list fun s hs t ht => by
    rw [(h.mem_frontier s).1 hs, (h.mem_frontier t).1 ht]
  mem t := by
    rw [h.mem_frontier]
    refine ⟨fun heq => ⟨heq.ge, by rw [heq]; exact ENat.natCast_ne_top steps⟩,
      fun ⟨hle, htop⟩ => ?_⟩
    obtain ⟨n, hn⟩ := ENat.ne_top_iff_exists.1 htop
    rw [← hn, Nat.cast_le] at hle
    rcases Nat.lt_or_eq_of_le hle with hlt | rfl
    · obtain ⟨r, hr⟩ := exists_ascent_eq hn.symm hlt
      obtain ⟨-, s, hs, hsr⟩ := ascent_eq_succ_iff.1 hr
      rw [Inherits, hnone s ((h.mem_frontier s).2 hs)] at hsr
      cases hsr
    · exact hn.symm

/-! ## All levels -/

theorem supertypes_eq_nil (h : ¬index.contains t) : index.supertypes t = [] :=
  congrArg Id.run (supertypes_of_not_contains h)

/-- **From a layer on the levels list all types above it**, in as many rounds as suffice. -/
theorem Layer.covers_levels (h : Layer index owner steps seen frontier) {rounds : Nat}
    {types : List String} (hs : Suffices index rounds seen frontier)
    (hlevels : levels index index.hierarchy? rounds seen frontier = some types) :
    Covers index owner steps types := by
  induction rounds generalizing steps seen frontier types with
  | zero =>
    have htypes : types = frontier := by cases frontier <;> exact (Option.some.inj hlevels).symm
    have hout : ∀ s ∈ frontier, ¬index.contains s := hs.resolve_right (Nat.not_lt_zero _)
    exact htypes ▸ h.covers_of_forall fun s hs => supertypes_eq_nil (hout s hs)
  | succ rounds ih =>
    by_cases hne : frontier = []
    · subst hne
      cases hlevels
      exact h.covers_of_forall fun s hs => absurd hs List.not_mem_nil
    obtain ⟨above, rest, habove, hrest, rfl⟩ := levels_succ hne hlevels
    obtain rfl := parents_hierarchy? habove
    have hfirst : ∀ s ∈ frontier, index.ascent owner s = steps := fun s => (h.mem_frontier s).1
    have hcovers := ih h.next (hs.step habove) hrest
    have hlast (t : String) (ht : t ∈ rest) : ((steps + 1 : ℕ) : ℕ∞) ≤ index.ascent owner t :=
      ((hcovers.mem t).1 ht).1
    have hlt : (steps : ℕ∞) < (steps + 1 : ℕ) := by exact_mod_cast Nat.lt_succ_self steps
    refine ⟨h.nodup.append hcovers.nodup fun t ht ht' => ?_, ?_, fun t => ?_⟩
    · exact absurd (hlast t ht') (by rw [hfirst t ht]; exact hlt.not_ge)
    · refine List.pairwise_append.2 ⟨?_, hcovers.sorted, fun s hs t ht => ?_⟩
      · exact List.pairwise_of_forall_mem_list fun s hs t ht => by rw [hfirst s hs, hfirst t ht]
      · rw [hfirst s hs]
        exact hlt.le.trans (hlast t ht)
    · rw [List.mem_append, h.mem_frontier, hcovers.mem]
      generalize index.ascent owner t = a
      cases a with
      | top => simp
      | coe a =>
        simp only [Nat.cast_inj, Nat.cast_le, ne_eq, ENat.natCast_ne_top,
          not_false_eq_true, and_true]
        omega

/-- **A hierarchy is a breadth-first closure.** -/
theorem covers_hierarchy (h : (index.hierarchy? owner).isSome) :
    Covers index owner 0 (index.hierarchy owner) := by
  obtain ⟨types, htypes⟩ := Option.isSome_iff_exists.1 h
  have hhierarchy : index.hierarchy owner = types := by rw [hierarchy, htypes, Option.getD_some]
  rw [hierarchy?_eq_run, inquiry, Inquiry.run_levels] at htypes
  rw [hhierarchy]
  exact (layer_start index owner).covers_levels (suffices_typeCount index owner) htypes

theorem mem_hierarchy_iff (h : (index.hierarchy? owner).isSome) :
    t ∈ index.hierarchy owner ↔ Relation.ReflTransGen index.Inherits owner t := by
  rw [(covers_hierarchy h).mem, Nat.cast_zero, ascent_ne_top_iff]
  exact and_iff_right bot_le

/-- The nearest type is the owner itself. -/
theorem head?_hierarchy (h : (index.hierarchy? owner).isSome) :
    (index.hierarchy owner).head? = some owner := by
  have hmem : owner ∈ index.hierarchy owner := (mem_hierarchy_iff h).2 .refl
  have hsorted := (covers_hierarchy h).sorted
  match htypes : index.hierarchy owner with
  | [] => rw [htypes] at hmem; cases hmem
  | first :: rest =>
    rw [htypes] at hmem hsorted
    rcases List.mem_cons.1 hmem with rfl | hrest
    · rfl
    · have hle := (List.pairwise_cons.1 hsorted).1 owner hrest
      rw [ascent_eq_zero_iff.2 rfl, nonpos_iff_eq_zero, ascent_eq_zero_iff] at hle
      rw [hle]
      rfl

end ProjectIndex

end CodeGraph.Java
