import CodeGraph.Proofs.Retrieval.Views
import CodeGraph.Proofs.Text.Lines

/-!
# How queries end

A query can be hindered in seven ways, several of them at once. `Retrieval.Ends` lists the ways in
which it ends, each under the condition that nothing graver is amiss, and `Retrieval.Asks` says when
the embedder is asked at all.

* `Text.trimmed_trimmed`, `Text.isEmpty_trimmed_iff`: what is left of a text without
  the blanks around it.
* `Retrieval.outcome_eq_iff`: given the embedder's answer, a query ends in exactly one way.
* `Retrieval.query_ends`: so does the query that waits for this answer, and the blanks
  around its text do not matter.
-/

namespace CodeGraph

namespace Text

/-- White space alone. -/
def IsBlank (text : String) : Prop := ∀ c ∈ text.toList, isBlank c

instance (text : String) : Decidable (IsBlank text) :=
  decidable_of_iff (text.toList.all isBlank) List.all_eq_true

variable {text : String}

theorem trimmed_trimmed (text : String) : trimmed (trimmed text) = trimmed text := by
  rw [trimmed, trimmed, String.toList_ofList, trim_trim]

theorem isEmpty_trimmed_iff : (trimmed text).isEmpty ↔ IsBlank text := by
  rw [String.isEmpty_iff, ← String.toList_inj, trimmed, String.toList_ofList]
  exact trim_eq_nil_iff

end Text

namespace Retrieval

variable {m : Type → Type}

/-! ## Ways to end -/

/-- Nothing hinders the query from asking the embedder. -/
structure Asks (r : Retrieval m) (s : Store) (text : String) (count : Nat) (e : Embedder m) :
    Prop where
  text : ¬Text.IsBlank text
  connected : s.connected
  embedder : r.embedder = some e
  count : count ≠ 0

/-- `r.Ends s text count answer out`: if the embedder, should it be asked, gives this
answer, the query ends in `out`. -/
inductive Ends (r : Retrieval m) (s : Store) (text : String) (count : Nat)
    (answer : Except EmbedError (List Single)) : Except RetrievalError QueryResult → Prop
  | blank (h : Text.IsBlank text) : Ends r s text count answer (.error .blankQuery)
  | unavailable (htext : ¬Text.IsBlank text) (hs : s.connected = false) :
      Ends r s text count answer (.error (.store .unavailable))
  | noEmbedder (htext : ¬Text.IsBlank text) (hs : s.connected) (he : r.embedder = none) :
      Ends r s text count answer (.error .noEmbedder)
  | nothingWanted {e : Embedder m} (htext : ¬Text.IsBlank text) (hs : s.connected)
      (he : r.embedder = some e) (hcount : count = 0) : Ends r s text count answer (.ok .empty)
  | refused {e : Embedder m} {cause : EmbedError} (hasks : r.Asks s text count e)
      (hanswer : answer = .error cause) : Ends r s text count answer (.error (.embedding cause))
  | noVector {e : Embedder m} (hasks : r.Asks s text count e) (hanswer : answer = .ok []) :
      Ends r s text count answer (.error (.embedding (.noVector e.name)))
  | noIndex {e : Embedder m} {v : List Single} (hasks : r.Asks s text count e)
      (hanswer : answer = .ok v) (hv : v ≠ []) (hindex : s.state.indexes.get? r.indexName = none) :
      Ends r s text count answer (.error (.noIndex r.indexName))
  | dimensions {e : Embedder m} {v : List Single} {index : VectorIndex}
      (hasks : r.Asks s text count e) (hanswer : answer = .ok v) (hv : v ≠ [])
        (hindex : s.state.indexes.get? r.indexName = some index)
      (hlength : v.length ≠ index.dimensions) :
      Ends r s text count answer (.error (.dimensions index.name index.dimensions v.length))
  | answered {e : Embedder m} {v : List Single} {index : VectorIndex}
      (hasks : r.Asks s text count e) (hanswer : answer = .ok v) (hv : v ≠ [])
        (hindex : s.state.indexes.get? r.indexName = some index)
      (hlength : v.length = index.dimensions) :
      Ends r s text count answer
        (.ok (r.gather s ((rank (index.scores s.state.graph v)).take count)))

/-- How a query ends once the embedder has answered. -/
def outcome (r : Retrieval m) (s : Store) (text : String) (count : Nat)
    (answer : Except EmbedError (List Single)) : Except RetrievalError QueryResult :=
  if Text.IsBlank text then .error .blankQuery
  else if s.connected then
    match r.embedder with
    | none => .error .noEmbedder
    | some e => if count = 0 then .ok .empty else r.answer s e.name count answer
  else .error (.store .unavailable)

variable {r : Retrieval m} {s : Store} {text : String} {count : Nat} {e : Embedder m}
  {answer : Except EmbedError (List Single)} {out out' : Except RetrievalError QueryResult}

theorem Asks.outcome_eq (h : r.Asks s text count e) (answer : Except EmbedError (List Single)) :
    r.outcome s text count answer = r.answer s e.name count answer := by
  rw [outcome, if_neg h.text, if_pos h.connected, h.embedder]
  exact if_neg h.count

/-! ### With a vector -/

theorem answer_of_ne_nil {v : List Single} (name : String) (hv : v ≠ []) :
    r.answer s name count (.ok v) =
      (Store.retrieved (s.nearest r.indexName v count)).map (r.gather s) := by
  obtain ⟨x, v, rfl⟩ := List.exists_cons_of_ne_nil hv
  show (do return r.gather s (← Store.retrieved (s.nearest r.indexName (x :: v) count))) = _
  cases Store.retrieved (s.nearest r.indexName (x :: v) count) <;> rfl

theorem retrieved_nearest_of_noIndex {v : List Single} (hs : s.connected)
    (hindex : s.state.indexes.get? r.indexName = none) :
    Store.retrieved (s.nearest r.indexName v count) = .error (.noIndex r.indexName) := by
  rw [Store.nearest, Store.read, if_pos hs, hindex]
  rfl

theorem retrieved_nearest_of_length_ne {v : List Single} {index : VectorIndex} (hs : s.connected)
    (hindex : s.state.indexes.get? r.indexName = some index)
    (hlength : v.length ≠ index.dimensions) :
    Store.retrieved (s.nearest r.indexName v count) =
      .error (.dimensions index.name index.dimensions v.length) := by
  rw [Store.nearest, Store.read, if_pos hs, hindex]
  dsimp only
  rw [if_neg hlength]
  rfl

/-- Once the embedder is asked, its answer and the index decide. -/
theorem Asks.ends_answer (h : r.Asks s text count e) (answer : Except EmbedError (List Single)) :
    r.Ends s text count answer (r.answer s e.name count answer) := by
  cases answer with
  | error cause => exact .refused h rfl
  | ok v =>
    by_cases hv : v = []
    · subst hv
      exact .noVector h rfl
    · rw [answer_of_ne_nil e.name hv]
      cases hindex : s.state.indexes.get? r.indexName with
      | none =>
        rw [retrieved_nearest_of_noIndex h.connected hindex]
        exact .noIndex h rfl hv hindex
      | some index =>
        by_cases hlength : v.length = index.dimensions
        · rw [Store.nearest_eq h.connected hindex hlength]
          exact .answered h rfl hv hindex hlength
        · rw [retrieved_nearest_of_length_ne h.connected hindex hlength]
          exact .dimensions h rfl hv hindex hlength

/-! ### Exactly one way -/

theorem ends_outcome (r : Retrieval m) (s : Store) (text : String) (count : Nat)
    (answer : Except EmbedError (List Single)) :
    r.Ends s text count answer (r.outcome s text count answer) := by
  by_cases htext : Text.IsBlank text
  · rw [outcome, if_pos htext]
    exact .blank htext
  · cases hs : s.connected with
    | false =>
      rw [outcome, if_neg htext, hs]
      exact .unavailable htext hs
    | true =>
      cases he : r.embedder with
      | none =>
        rw [outcome, if_neg htext, if_pos hs, he]
        exact .noEmbedder htext hs he
      | some e =>
        by_cases hcount : count = 0
        · rw [outcome, if_neg htext, if_pos hs, he]
          dsimp only
          rw [if_pos hcount]
          exact .nothingWanted htext hs he hcount
        · have hasks : r.Asks s text count e := ⟨htext, hs, he, hcount⟩
          rw [hasks.outcome_eq]
          exact hasks.ends_answer answer

/-- Each way to end is what is computed. -/
theorem Ends.eq_outcome (h : r.Ends s text count answer out) :
    r.outcome s text count answer = out := by
  cases h with
  | blank h => rw [outcome, if_pos h]
  | unavailable htext hs => rw [outcome, if_neg htext, hs, if_neg Bool.false_ne_true]
  | noEmbedder htext hs he => rw [outcome, if_neg htext, if_pos hs, he]
  | nothingWanted htext hs he hcount =>
    rw [outcome, if_neg htext, if_pos hs, he]
    exact if_pos hcount
  | refused hasks hanswer => rw [hasks.outcome_eq, hanswer, Retrieval.answer]
  | noVector hasks hanswer => rw [hasks.outcome_eq, hanswer, Retrieval.answer]
  | noIndex hasks hanswer hv hindex =>
    rw [hasks.outcome_eq, hanswer, answer_of_ne_nil _ hv,
      retrieved_nearest_of_noIndex hasks.connected hindex]
    rfl
  | dimensions hasks hanswer hv hindex hlength =>
    rw [hasks.outcome_eq, hanswer, answer_of_ne_nil _ hv,
      retrieved_nearest_of_length_ne hasks.connected hindex hlength]
    rfl
  | answered hasks hanswer hv hindex hlength =>
    rw [hasks.outcome_eq, hanswer, answer_of_ne_nil _ hv,
      Store.nearest_eq hasks.connected hindex hlength]
    rfl

/-- **Given the embedder's answer, a query ends in exactly one way.** -/
theorem outcome_eq_iff : r.outcome s text count answer = out ↔ r.Ends s text count answer out :=
  ⟨fun h => h ▸ ends_outcome r s text count answer, Ends.eq_outcome⟩

/-! ## Waiting for the answer -/

variable [Monad m]

theorem Asks.tryQuery_eq_outcome (h : r.Asks s text count e) :
    r.tryQuery s text count = do return r.outcome s text count (← e.embed (Text.trimmed text)) := by
  have hprobe : Store.retrieved s.probe = .ok () := by rw [Store.probe, if_pos h.connected]; rfl
  have htext : ¬(Text.trimmed text).isEmpty :=
    fun hempty => h.text (Text.isEmpty_trimmed_iff.1 hempty)
  simp only [tryQuery, hprobe, h.embedder, if_neg htext, if_neg h.count, h.outcome_eq]

/-- A query that does not ask the embedder ends the same whatever the embedder would answer. -/
theorem tryQuery_of_not_asks (h : ∀ e, ¬r.Asks s text count e)
    (answer : Except EmbedError (List Single)) :
    r.tryQuery s text count = pure (r.outcome s text count answer) := by
  by_cases htext : Text.IsBlank text
  · simp only [tryQuery, outcome, if_pos (Text.isEmpty_trimmed_iff.2 htext), if_pos htext]
  · have hempty : ¬(Text.trimmed text).isEmpty :=
      fun hempty => htext (Text.isEmpty_trimmed_iff.1 hempty)
    cases hs : s.connected with
    | false =>
      have hprobe : Store.retrieved s.probe = .error (.store .unavailable) := by
        rw [Store.probe, hs]
        rfl
      simp only [tryQuery, outcome, if_neg hempty, if_neg htext, hprobe, hs,
        Bool.false_eq_true, if_false]
    | true =>
      have hprobe : Store.retrieved s.probe = .ok () := by rw [Store.probe, if_pos hs]; rfl
      cases he : r.embedder with
      | none => simp only [tryQuery, outcome, if_neg hempty, if_neg htext, hprobe, if_pos hs, he]
      | some e =>
        have hcount : count = 0 := by
          by_contra hne
          exact h e ⟨htext, hs, he, hne⟩
        simp only [tryQuery, outcome, if_neg hempty, if_neg htext, hprobe, if_pos hs, he,
          if_pos hcount]

theorem tryQuery_trimmed (r : Retrieval m) (s : Store) (text : String) (count : Nat) :
    r.tryQuery s (Text.trimmed text) count = r.tryQuery s text count := by
  simp only [tryQuery, Text.trimmed_trimmed]

/-- **When a query fails and how.** The embedder is asked for the vector of the text without the
blanks around it, unless something is amiss before. Its answer and the store then decide the one way
in which the query ends, and `query` answers an empty result where that is a failure. The blanks
around the text do not matter. -/
theorem query_ends (r : Retrieval m) (s : Store) (text : String) (count : Nat) :
    (∀ answer out, r.outcome s text count answer = out ↔ r.Ends s text count answer out) ∧
    (∀ e, r.Asks s text count e → r.tryQuery s text count =
      do return r.outcome s text count (← e.embed (Text.trimmed text))) ∧
    ((∀ e, ¬r.Asks s text count e) →
      ∀ answer, r.tryQuery s text count = pure (r.outcome s text count answer)) ∧
    (r.query s text count = do
      match ← r.tryQuery s text count with
      | .ok result => return result
      | .error _ => return .empty) ∧
    r.tryQuery s (Text.trimmed text) count = r.tryQuery s text count ∧
    r.query s (Text.trimmed text) count = r.query s text count := by
  have htrimmed := tryQuery_trimmed r s text count
  refine ⟨fun answer out => outcome_eq_iff, fun e h => h.tryQuery_eq_outcome,
    tryQuery_of_not_asks, ?_, htrimmed, ?_⟩
  · rw [query]
    refine congrArg (r.tryQuery s text count >>= ·) (funext fun out => ?_)
    cases out <;> rfl
  · rw [query, htrimmed, query]

/-- An embedder whose vectors have one entry too many for the index of `coveredMethod`. -/
def tooLongVector : Embedder Id where
  name := "long"
  dimensions := 2
  embed _ := .ok [⟨0x3f800000⟩, ⟨0x3f800000⟩]
  embedBatch texts := .ok (texts.map fun _ => [⟨0x3f800000⟩, ⟨0x3f800000⟩])

/-- With everything amiss at once the text counts first and the store second; with nothing else
amiss the length of the vector counts. -/
theorem query_ends_coveredMethod :
    let s := Store.History.store coveredMethod
    let bare : Retrieval Id := ⟨none, "missing", .omitted, Pattern.defaults⟩
    let long : Retrieval Id := ⟨some tooLongVector, "methodEmbeddings", .omitted, Pattern.defaults⟩
    bare.tryQuery s.disconnect " " 0 = Except.error .blankQuery ∧
      bare.tryQuery s.disconnect " run " 0 = Except.error (.store .unavailable) ∧
      long.tryQuery s " run " 5 = Except.error (.dimensions "methodEmbeddings" 1 2) := by
  intro s bare long
  have hbare (text : String) (e : Embedder Id) : ¬bare.Asks s.disconnect text 0 e :=
    fun h => h.count rfl
  have hlong : long.Asks s " run " 5 tooLongVector :=
    ⟨by decide +kernel, by decide +kernel, rfl, by decide⟩
  have hindex : s.state.indexes.get? "methodEmbeddings" =
      some ⟨"methodEmbeddings", .method, "embedding", 1⟩ := by
    decide +kernel
  refine ⟨?_, ?_, ?_⟩
  · obtain ⟨hends, -, hsettled, -⟩ := query_ends bare s.disconnect " " 0
    exact (hsettled (hbare " ") (.ok [])).trans ((hends _ _).2 (.blank (by decide +kernel)))
  · obtain ⟨hends, -, hsettled, -⟩ := query_ends bare s.disconnect " run " 0
    exact (hsettled (hbare " run ") (.ok [])).trans
      ((hends _ _).2 (.unavailable (by decide +kernel) rfl))
  · obtain ⟨hends, hasked, -⟩ := query_ends long s " run " 5
    exact (hasked tooLongVector hlong).trans
      ((hends _ _).2 (.dimensions hlong rfl (by decide) hindex (by decide)))

end Retrieval

end CodeGraph
