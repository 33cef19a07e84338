import CodeGraph.Proofs.Data.Dict
import CodeGraph.Proofs.Embedding.Rounds
import CodeGraph.Proofs.Store.Nearest

/-!
# What an embedding job leaves

The outcome of a run is read off its rounds: what was sent, what the report counts, which methods
have got which vectors and that nothing else has changed (`EmbeddingJob.Outcome`).

* `mapM_ask_answering`: an embedder that may answer anything to what it was sent so far is asked
  once for each batch, and once more where the texts are too long.
* `outcome_settle`: settled rounds over the batches of a store have the outcome of a job.
* `exists_run`: a run over a connected store comes to its end.
* `run_answering`: a run with such an embedder finishes and has that outcome, too.
-/

namespace CodeGraph

/-! ## An embedder with any answers -/

/-- An embedder whose answer depends on all batches of texts that it was sent, the latest last. -/
def Embedder.answering (name : String) (dimensions : Nat)
    (answers : List (List String) → BatchAnswer) :
    Embedder (StateM (List (List String))) :=
  .ofBatch name dimensions fun texts => do
    modify (· ++ [texts])
    return answers (← get)

namespace Round

/-- The texts of a batch, cut down for a job. -/
def cutTexts (job : EmbeddingJob) (r : Round) : List String :=
  r.batch.map fun x => Text.truncate job.tokensPerText x.2

/-- What is sent in a round: the texts of the batch and, where there is a second
answer, these cut down. -/
def sent (job : EmbeddingJob) (r : Round) : List (List String) :=
  r.batch.map (·.2) :: if r.second.isSome then [r.cutTexts job] else []

/-- The answers of a round are those to what was sent before and in it. There is a second one
exactly if the texts were too long. -/
structure Answered (job : EmbeddingJob) (answers : List (List String) → BatchAnswer)
    (before : List (List String)) (r : Round) : Prop where
  first : r.first = answers (before ++ [r.batch.map (·.2)])
  second : r.second =
    if BatchAnswer.isTooLong r.first then
      some (answers (before ++ [r.batch.map (·.2), r.cutTexts job]))
    else none

end Round

namespace EmbeddingJob

variable (job : EmbeddingJob) (name : String) (dimensions : Nat)
  (answers : List (List String) → BatchAnswer)

theorem ask_answering (batch : List (NodeId × String)) (before : List (List String)) :
    ∃ r : Round, (job.ask (Embedder.answering name dimensions answers) batch).run before =
        (r, before ++ r.sent job) ∧ r.batch = batch ∧ r.Answered job answers before := by
  -- the first answer is there, and all depends on it
  have hfirst : (job.ask (Embedder.answering name dimensions answers) batch).run before =
      StateT.run (if BatchAnswer.isTooLong (answers (before ++ [batch.map (·.2)])) then _ else _)
        (before ++ [batch.map (·.2)]) := rfl
  by_cases hlong : BatchAnswer.isTooLong (answers (before ++ [batch.map (·.2)]))
  case pos =>
    refine ⟨⟨batch, answers (before ++ [batch.map (·.2)]),
      some (answers (before ++ [batch.map (·.2)] ++
      [batch.map fun x => Text.truncate job.tokensPerText x.2]))⟩, ?_, rfl, rfl, ?_⟩
    · rw [hfirst, if_pos hlong]
      exact Prod.ext rfl (List.append_assoc _ _ _)
    · rw [if_pos hlong, List.append_assoc]
      rfl
  case neg =>
    refine ⟨⟨batch, answers (before ++ [batch.map (·.2)]), none⟩, ?_, rfl, rfl, (if_neg hlong).symm⟩
    rw [hfirst, if_neg hlong]
    rfl

/-- Batches that are asked for one after another. -/
theorem mapM_ask_answering (batches : List (List (NodeId × String))) (before : List (List String)) :
    ∃ rounds : List Round,
      (batches.mapM (job.ask (Embedder.answering name dimensions answers))).run before =
        (rounds, before ++ rounds.flatMap (·.sent job)) ∧
      rounds.map (·.batch) = batches ∧
      ∀ front r back, rounds = front ++ r :: back →
        r.Answered job answers (before ++ front.flatMap (·.sent job)) := by
  induction batches generalizing before with
  | nil =>
    refine ⟨[], ?_, rfl, fun front r back h => ?_⟩
    · rw [List.mapM_nil, List.flatMap_nil, List.append_nil]
      rfl
    · cases front <;> cases h
  | cons batch batches ih =>
    obtain ⟨r, hask, hbatch, hanswered⟩ := ask_answering job name dimensions answers batch before
    obtain ⟨rounds, hrounds, hbatches, hall⟩ := ih (before ++ r.sent job)
    refine ⟨r :: rounds, ?_, by rw [List.map_cons, hbatch, hbatches], fun front r' back h => ?_⟩
    · rw [List.mapM_cons, StateT.run_bind, hask]
      change StateT.run (List.mapM _ batches >>= fun rounds => pure (r :: rounds))
        (before ++ r.sent job) = _
      rw [StateT.run_bind, hrounds, List.flatMap_cons, List.append_assoc]
      rfl
    · cases front with
      | nil =>
        cases h
        simpa using hanswered
      | cons r'' front =>
        cases h
        simpa using hall front r' back rfl

/-! ## The report -/

/-- What rounds count. -/
theorem report_settle (report : EmbeddingReport) (s : Store) (rounds : List Round) :
    (settle dimensions (report, s) rounds).1 =
      { methods := report.methods + (rounds.flatMap (·.batch)).length
        embedded := report.embedded + (rounds.flatMap (·.written dimensions)).length
        skippedBatches := report.skippedBatches +
          (rounds.filter fun r => (r.vectors? dimensions).isNone).length
        truncatedBatches := report.truncatedBatches +
          (rounds.filter fun r => r.second.isSome).length } := by
  induction rounds generalizing report s with
  | nil => rfl
  | cons r rounds ih =>
    rw [settle_cons, ih, Round.count]
    simp only [List.flatMap_cons, List.length_append, List.filter_cons, Nat.add_assoc]
    congr 1
    · cases (r.vectors? dimensions).isNone <;> simp [Nat.add_comm]
    · cases r.second.isSome <;> simp [Nat.add_comm]

/-- The methods of a batch are given vectors, all of them, or the batch is left out. -/
theorem length_flatMap_written (rounds : List Round) :
    (rounds.flatMap (·.written dimensions)).length +
        ((rounds.filter fun r => (r.vectors? dimensions).isNone).flatMap (·.batch)).length =
      (rounds.flatMap (·.batch)).length := by
  induction rounds with
  | nil => rfl
  | cons r rounds ih =>
    rw [List.flatMap_cons, List.length_append, List.flatMap_cons, List.length_append,
      List.filter_cons]
    cases hvectors : r.vectors? dimensions with
    | none =>
      rw [Round.written_of_eq_none hvectors, Option.isNone_none, if_pos rfl, List.flatMap_cons,
        List.length_append, List.length_nil]
      omega
    | some vectors =>
      rw [Round.length_written hvectors, Option.isNone_some, if_neg Bool.false_ne_true]
      omega

/-! ## The store -/

theorem store_settle (report : EmbeddingReport) (s : Store) (rounds : List Round) :
    (settle dimensions (report, s) rounds).2 =
      s.writeVectors (rounds.flatMap (·.written dimensions)) := by
  induction rounds generalizing report s with
  | nil => rfl
  | cons r rounds ih =>
    rw [settle_cons, ih, List.flatMap_cons, Store.writeVectors, Store.writeVectors,
      Store.writeVectors, List.foldl_append]

end EmbeddingJob

namespace Store

variable {s : Store} {pending : List (NodeId × List Single)} {i : NodeId}

/-- Vectors change nothing but nodes. -/
theorem writeVectors_eq (s : Store) (pending : List (NodeId × List Single)) :
    s.writeVectors pending = { s with state := { s.state with graph := { s.state.graph with
      nodes := (s.writeVectors pending).state.graph.nodes } } } := by
  induction pending generalizing s with
  | nil => rfl
  | cons x rest ih => exact ih (s.writeVector x)

theorem size_nodes_writeVectors (s : Store) (pending : List (NodeId × List Single)) :
    (s.writeVectors pending).state.graph.nodes.size = s.state.graph.nodes.size := by
  induction pending generalizing s with
  | nil => rfl
  | cons x rest ih => exact (ih (s.writeVector x)).trans (Array.size_modify ..)

theorem getElem?_nodes_writeVectors_of_notMem (h : i ∉ pending.map (·.1)) :
    (s.writeVectors pending).state.graph.nodes[i]? = s.state.graph.nodes[i]? := by
  induction pending generalizing s with
  | nil => rfl
  | cons x rest ih =>
    rw [List.map_cons, List.mem_cons, not_or] at h
    refine (ih h.2).trans ?_
    rw [writeVector, Array.getElem?_modify, if_neg (Ne.symm h.1)]

theorem getElem?_nodes_writeVectors_of_mem (hnodup : (pending.map (·.1)).Nodup) {v : List Single}
    (h : (i, v) ∈ pending) :
    (s.writeVectors pending).state.graph.nodes[i]? =
      s.state.graph.nodes[i]?.map (·.withVector v) := by
  induction pending generalizing s with
  | nil => cases h
  | cons x rest ih =>
    rw [List.map_cons, List.nodup_cons] at hnodup
    rcases List.mem_cons.1 h with rfl | h
    · refine (getElem?_nodes_writeVectors_of_notMem hnodup.1).trans ?_
      rw [writeVector, Array.getElem?_modify, if_pos rfl]
    · have hne : x.1 ≠ i := fun heq => hnodup.1 (heq ▸ List.mem_map_of_mem h)
      refine (ih hnodup.2 h).trans ?_
      rw [writeVector, Array.getElem?_modify, if_neg hne]

/-- Vectors leave the keys of nodes alone. -/
theorem wellFormed_writeVectors (h : s.state.WellFormed) (pending : List (NodeId × List Single)) :
    (s.writeVectors pending).state.WellFormed := by
  induction pending generalizing s with
  | nil => exact h
  | cons x rest ih =>
    have hname : ∀ l : Label, embeddingAttribute ≠ l.keyAttribute := by
      intro l
      cases l <;> decide
    refine ih (s := s.writeVector x)
      ⟨h.graph.modifyNode x.1 fun a => a.insert embeddingAttribute (.vector x.2),
        h.holdsKeys.modifyNode (f := fun a => a.insert embeddingAttribute (.vector x.2)) fun n _ =>
          ?_, h.indexes⟩
    exact Dict.get?_insert_of_ne (hname n.label) n.attributes _

end Store

namespace Round

variable {dimensions : Nat}

/-- A round writes to methods of its batch. -/
theorem map_fst_written_sublist (dimensions : Nat) (r : Round) :
    ((r.written dimensions).map (·.1)).Sublist (r.batch.map (·.1)) := by
  cases hvectors : r.vectors? dimensions with
  | none =>
    rw [written_of_eq_none hvectors]
    exact List.nil_sublist _
  | some vectors =>
    obtain ⟨-, hcount, -⟩ := BatchAnswer.vectors?_eq_some hvectors
    rw [written, hvectors, Option.getD_some, List.map_fst_zip (by simp [hcount])]

theorem map_fst_flatMap_written_sublist (dimensions : Nat) (rounds : List Round) :
    ((rounds.flatMap (·.written dimensions)).map (·.1)).Sublist
      ((rounds.flatMap (·.batch)).map (·.1)) := by
  induction rounds with
  | nil => exact List.nil_sublist _
  | cons r rounds ih =>
    rw [List.flatMap_cons, List.flatMap_cons, List.map_append, List.map_append]
    exact (r.map_fst_written_sublist dimensions).append ih

theorem exists_of_mem_map_fst_written {rounds : List Round} {id : NodeId}
    (h : id ∈ (rounds.flatMap (·.written dimensions)).map (·.1)) :
    ∃ r ∈ rounds, (r.vectors? dimensions).isSome ∧ id ∈ r.batch.map (·.1) := by
  obtain ⟨x, hx, rfl⟩ := List.mem_map.1 h
  obtain ⟨r, hr, hwritten⟩ := List.mem_flatMap.1 hx
  refine ⟨r, hr, ?_, (r.map_fst_written_sublist dimensions).subset (List.mem_map_of_mem hwritten)⟩
  by_contra hnone
  rw [written_of_eq_none (Option.not_isSome_iff_eq_none.1 hnone)] at hwritten
  cases hwritten

/-- Each method of a batch gets the vector at its position. -/
theorem mem_written {r : Round} {vectors : List (List Single)}
    (h : r.vectors? dimensions = some vectors) {i : Nat} {id : NodeId} {code : String}
    (hi : r.batch[i]? = some (id, code)) {v : List Single}
    (hv : vectors[i]? = some v) : (id, v) ∈ r.written dimensions := by
  refine List.mem_of_getElem? (i := i) (List.getElem?_zip_eq_some.2 ⟨?_, ?_⟩)
  · rw [List.getElem?_map, hi]
    rfl
  · rw [h]
    exact hv

end Round

namespace EmbeddingJob

/-- What a job made of a store, by the rounds of its run. -/
structure Outcome (job : EmbeddingJob) (dimensions : Nat) (s s' : Store) (report : EmbeddingReport)
    (rounds : List Round) : Prop where
  /-- The batches are the methods that carry code, in id order. -/
  scanned : rounds.flatMap (·.batch) = s.state.graph.codedMethods
  once : ((rounds.flatMap (·.batch)).map (·.1)).Nodup
  sizes : ∀ r ∈ rounds, r.batch ≠ [] ∧ r.batch.length ≤ job.batchSize
  full : ∀ r ∈ rounds.dropLast, r.batch.length = job.batchSize
  methods : report.methods = s.state.graph.codedMethods.length
  /-- What is not embedded was left out with its batch. -/
  accounted : report.embedded +
      ((rounds.filter fun r => (r.vectors? dimensions).isNone).flatMap (·.batch)).length =
        report.methods
  skippedBatches : report.skippedBatches =
    (rounds.filter fun r => (r.vectors? dimensions).isNone).length
  truncatedBatches : report.truncatedBatches = (rounds.filter fun r => r.second.isSome).length
  /-- A batch that is not left out has a vector for each method, which ends with it
  and is found by it. -/
  embedded : ∀ r ∈ rounds, ∀ vectors, r.vectors? dimensions = some vectors →
    vectors.length = r.batch.length ∧
      ∀ (i : Nat) (id : NodeId) (code : String) (v : List Single),
        r.batch[i]? = some (id, code) → vectors[i]? = some v → v.length = dimensions ∧
          (∃ n, s'.state.graph.nodes[id]? = some n ∧
            n.attributes.get? embeddingAttribute = some (.vector v)) ∧
          ∀ query limit, query.length = dimensions → s.state.graph.nodes.size ≤ limit →
            ∃ hits, s'.nearest job.indexName query limit = .ok hits ∧ id ∈ hits.map (·.id)
  /-- No other attribute is written, and no attribute of a node outside the batches
  that are embedded. -/
  nodes : ∀ (id : NodeId) (n : Node), s.state.graph.nodes[id]? = some n →
    ∃ n', s'.state.graph.nodes[id]? = some n' ∧ n'.nodeKey = n.nodeKey ∧
      (∀ name, name ≠ embeddingAttribute → n'.attributes.get? name = n.attributes.get? name) ∧
      ((∀ r ∈ rounds, (r.vectors? dimensions).isSome → id ∉ r.batch.map (·.1)) → n' = n)
  size : s'.state.graph.nodes.size = s.state.graph.nodes.size
  edges : s'.state.graph.edges = s.state.graph.edges
  index : s'.state.indexes.get? job.indexName =
    some ⟨job.indexName, .method, embeddingAttribute, dimensions⟩
  indexes : ∀ name, name ≠ job.indexName → s'.state.indexes.get? name = s.state.indexes.get? name
  connected : s'.connected = s.connected

variable (job : EmbeddingJob) {dimensions : Nat} {s : Store} {rounds : List Round}

theorem get?_indexes_prepared (dimensions : Nat) (s : Store) (name : String) :
    (job.prepared dimensions s).state.indexes.get? name =
      if job.indexName = name then some ⟨job.indexName, .method, embeddingAttribute, dimensions⟩
      else s.state.indexes.get? name := by
  rw [prepared, Dict.get?_insert, Dict.get?_erase]
  split <;> rfl

theorem wellFormed_prepared (h : s.state.WellFormed) (dimensions : Nat) :
    (job.prepared dimensions s).state.WellFormed := by
  refine ⟨h.graph, h.holdsKeys, fun name i hi => ?_⟩
  rw [get?_indexes_prepared] at hi
  split at hi
  case isTrue heq =>
    cases hi
    exact heq
  case isFalse => exact h.indexes name i hi

/-- No method is written twice. -/
theorem nodup_written (hscanned : rounds.flatMap (·.batch) = s.state.graph.codedMethods)
    (dimensions : Nat) :
    ((rounds.flatMap (·.written dimensions)).map (·.1)).Nodup :=
  s.state.graph.nodup_codedMethods.sublist
    (hscanned ▸ Round.map_fst_flatMap_written_sublist dimensions rounds)

/-- Where a vector was written, it is there and found. -/
theorem embedded_writeVectors (hs : s.connected)
    (hindex : s.state.indexes.get? job.indexName =
      some ⟨job.indexName, .method, embeddingAttribute, dimensions⟩)
    {pending : List (NodeId × List Single)} (hnodup : (pending.map (·.1)).Nodup) {id : NodeId}
    {v : List Single} (hmem : (id, v) ∈ pending) (hv : v.length = dimensions) {n : Node}
    (hn : s.state.graph.nodes[id]? = some n) (hlabel : n.label = .method) :
    (∃ n, (s.writeVectors pending).state.graph.nodes[id]? = some n ∧
        n.attributes.get? embeddingAttribute = some (.vector v)) ∧
      ∀ query limit, query.length = dimensions → s.state.graph.nodes.size ≤ limit →
        ∃ hits, (s.writeVectors pending).nearest job.indexName query limit = .ok hits ∧
          id ∈ hits.map (·.id) := by
  have hwritten : (s.writeVectors pending).state.graph.nodes[id]? = some (n.withVector v) := by
    rw [Store.getElem?_nodes_writeVectors_of_mem hnodup hmem, hn]
    rfl
  have hheld : (n.withVector v).attributes.get? embeddingAttribute = some (.vector v) :=
    Dict.get?_insert_self n.attributes _ _
  refine ⟨⟨_, hwritten, hheld⟩, fun query limit hquery hlimit => ?_⟩
  have hindex' : (s.writeVectors pending).state.indexes.get? job.indexName =
      some ⟨job.indexName, .method, embeddingAttribute, dimensions⟩ := by
    rw [Store.writeVectors_eq]
    exact hindex
  have hconnected : (s.writeVectors pending).connected := by
    rw [Store.writeVectors_eq]
    exact hs
  refine Store.mem_nearest hconnected hindex' hquery ?_ hwritten (v := v) ?_
  · rw [Store.size_nodes_writeVectors]
    exact hlimit
  · simp [VectorIndex.vector?, Node.withVector, hlabel, Value.asVector?, hv]

/-- What was there before stays as it was, but for the vectors. -/
theorem nodes_writeVectors {pending : List (NodeId × List Single)}
    (hnodup : (pending.map (·.1)).Nodup)
    {id : NodeId} {n : Node} (hn : s.state.graph.nodes[id]? = some n) :
    ∃ n', (s.writeVectors pending).state.graph.nodes[id]? = some n' ∧ n'.nodeKey = n.nodeKey ∧
      (∀ name, name ≠ embeddingAttribute → n'.attributes.get? name = n.attributes.get? name) ∧
      (id ∉ pending.map (·.1) → n' = n) := by
  by_cases hmem : id ∈ pending.map (·.1)
  case pos =>
    obtain ⟨⟨i, v⟩, hx, rfl⟩ := List.mem_map.1 hmem
    refine ⟨n.withVector v, ?_, rfl, fun name hname => ?_, fun hnot => absurd hmem hnot⟩
    · rw [Store.getElem?_nodes_writeVectors_of_mem hnodup hx, hn]
      rfl
    · exact Dict.get?_insert_of_ne (Ne.symm hname) n.attributes _
  case neg =>
    refine ⟨n, ?_, rfl, fun _ _ => rfl, fun _ => rfl⟩
    rw [Store.getElem?_nodes_writeVectors_of_notMem hmem, hn]

/-- **Settled rounds over the batches of a store have the outcome of a job.** -/
theorem outcome_settle (dimensions : Nat) (hs : s.connected)
    (hbatches : rounds.map (·.batch) = job.batches s.state.graph.codedMethods) :
    job.Outcome dimensions s (settle dimensions ({}, job.prepared dimensions s) rounds).2
      (settle dimensions ({}, job.prepared dimensions s) rounds).1 rounds := by
  have hscanned : rounds.flatMap (·.batch) = s.state.graph.codedMethods := by
    rw [List.flatMap_def, hbatches, flatten_batches]
  have hnodup := nodup_written hscanned dimensions
  rw [store_settle, report_settle]
  have hsame :=
    Store.writeVectors_eq (job.prepared dimensions s) (rounds.flatMap (·.written dimensions))
  constructor
  case scanned => exact hscanned
  case once => exact hscanned ▸ s.state.graph.nodup_codedMethods
  case sizes =>
    intro r hr
    exact job.length_of_mem_batches (hbatches ▸ List.mem_map_of_mem hr)
  case full =>
    intro r hr
    refine job.length_of_mem_dropLast_batches (l := s.state.graph.codedMethods) ?_
    rw [← hbatches, ← List.map_dropLast]
    exact List.mem_map_of_mem hr
  case methods => exact (Nat.zero_add _).trans (congrArg List.length hscanned)
  case accounted => simpa only [Nat.zero_add] using length_flatMap_written dimensions rounds
  case skippedBatches => exact Nat.zero_add _
  case truncatedBatches => exact Nat.zero_add _
  case embedded =>
    intro r hr vectors hvectors
    obtain ⟨-, hcount, hlengths⟩ := BatchAnswer.vectors?_eq_some hvectors
    refine ⟨hcount, fun i id code v hi hv => ?_⟩
    have hlength := hlengths v (List.mem_of_getElem? hv)
    have hmem : (id, v) ∈ rounds.flatMap (·.written dimensions) :=
      List.mem_flatMap.2 ⟨r, hr, Round.mem_written hvectors hi hv⟩
    have hcoded : (id, code) ∈ s.state.graph.codedMethods :=
      hscanned ▸ List.mem_flatMap.2 ⟨r, hr, List.mem_of_getElem? hi⟩
    obtain ⟨n, hn, hcode⟩ := Graph.mem_codedMethods.1 hcoded
    have hindex := job.get?_indexes_prepared dimensions s job.indexName
    rw [if_pos rfl] at hindex
    exact ⟨hlength, job.embedded_writeVectors (s := job.prepared dimensions s) hs hindex hnodup hmem
      hlength hn (Node.label_of_methodCode? hcode)⟩
  case nodes =>
    intro id n hn
    obtain ⟨n', hn', hkey, hothers, hunwritten⟩ :=
      nodes_writeVectors (s := job.prepared dimensions s) hnodup hn
    refine ⟨n', hn', hkey, hothers, fun hnot => hunwritten fun hmem => ?_⟩
    obtain ⟨r, hr, hvectors, hbatch⟩ := Round.exists_of_mem_map_fst_written hmem
    exact hnot r hr hvectors hbatch
  case size => exact Store.size_nodes_writeVectors _ _
  case edges => rw [hsame]; rfl
  case index =>
    rw [hsame]
    exact (job.get?_indexes_prepared dimensions s _).trans (if_pos rfl)
  case indexes =>
    intro name hname
    rw [hsame]
    exact (job.get?_indexes_prepared dimensions s _).trans (if_neg (Ne.symm hname))
  case connected => rw [hsame]; rfl

/-- **A run over a connected store comes to its end**, whatever it is answered, and it leaves the
store well formed, with as many nodes. -/
theorem exists_run {W : Type} (embedder : Embedder (StateM W)) (hconnected : s.connected)
    (hs : s.state.WellFormed) (hroom : s.state.graph.nodes.size ≤ 0xffffffff) (w : W) :
    ∃ report s', ((job.run embedder s).run w).1 = .ok (report, s') ∧ s'.connected ∧
      s'.state.WellFormed ∧
      s'.state.graph.nodes.size = s.state.graph.nodes.size := by
  let rounds := (((job.batches s.state.graph.codedMethods).mapM (job.ask embedder)).run w).1
  let settled := settle embedder.dimensions ({}, job.prepared embedder.dimensions s) rounds
  have hrun : ((job.run embedder s).run w).1 = .ok settled := by
    rw [run_eq job embedder hconnected hroom]
    rfl
  refine ⟨settled.1, settled.2, hrun, ?_⟩
  rw [store_settle]
  refine ⟨?_, Store.wellFormed_writeVectors (job.wellFormed_prepared hs _) _,
    Store.size_nodes_writeVectors _ _⟩
  rw [Store.writeVectors_eq]
  exact hconnected

/-- **A run comes to its end and handles every method once, whatever it is answered.** It sends what
its rounds sent, each of them answered after those before it, and has their outcome. Steps that are
enough for it lead to where the job is finished, and more of them lead no further. A graph has room
for `2 ^ 32 - 1` nodes. -/
theorem run_answering (indexName : String) (batchSize tokensPerText : Nat) (name : String)
    (dimensions : Nat) (answers : List (List String) → BatchAnswer) {s : Store} (hs : s.connected)
    (hroom : s.state.graph.nodes.size ≤ 0xffffffff) :
    let job := ofSizes indexName batchSize tokensPerText
    let embedder := Embedder.answering name dimensions answers
    ∃ rounds p s',
      (∀ fuel, 5 * s.state.graph.nodes.size + 1 ≤ fuel →
        (job.runFrom embedder fuel {} (job.prepared dimensions s)).run [] =
          (.ok (p, s'), rounds.flatMap (·.sent job))) ∧
      p.stage = .finished ∧
      (job.run embedder s).run [] = (.ok (p.report, s'), rounds.flatMap (·.sent job)) ∧
      (∀ front r back, rounds = front ++ r :: back →
        r.Answered job answers (front.flatMap (·.sent job))) ∧
      job.Outcome dimensions s s' p.report rounds := by
  intro job embedder
  obtain ⟨rounds, hrounds, hbatches, hanswered⟩ :=
    mapM_ask_answering job name dimensions answers (job.batches s.state.graph.codedMethods) []
  let settled := settle dimensions ({}, job.prepared dimensions s) rounds
  refine ⟨rounds, (finishedAt s.state.graph.codedMethods.length settled).1, settled.2,
    fun fuel hfuel => ?_, rfl, ?_, hanswered, job.outcome_settle dimensions hs hbatches⟩
  · have hfinished := runFrom_eq job embedder hs hroom hfuel
    refine (congrArg (StateT.run · []) hfinished).trans ?_
    rw [StateT.run_map, hrounds, List.nil_append]
    rfl
  · rw [run_eq job embedder hs hroom, StateT.run_map, hrounds, List.nil_append]
    rfl

/-- A connected store with two methods that carry code, one of them no text, and a
method that carries none. -/
def codedStore : Store where
  connected := true
  state := {
    graph := ⟨#[⟨.method, "A.m()", Dict.ofList [("code", .text "void m() { }")]⟩,
      ⟨.method, "A.n()", Dict.empty⟩, ⟨.method, "A.k()", Dict.ofList [("code", .int 1)]⟩], #[]⟩
    indexes := Dict.empty }

/-- The texts are too long at first, then there is a vector for them, then one too few. -/
def uneven : List (List String) → BatchAnswer
  | [_] => .error (.tooLong "remote" "too many tokens")
  | [_, _] => .ok [[⟨0x3f800000⟩]]
  | _ => .ok []

theorem run_answering_codedStore :
    let job := ofSizes "methodEmbeddings" 0 2
    let embedder := Embedder.answering "remote" 1 uneven
    let sent := [["void m() { }"], ["void m()"], [""]]
    codedStore.connected ∧ codedStore.state.graph.nodes.size ≤ 0xffffffff ∧
      ∃ p s', (job.runFrom embedder 16 {} (job.prepared 1 codedStore)).run [] =
        (.ok (p, s'), sent) ∧
        p.stage = .finished ∧ (job.run embedder codedStore).run [] =
          (.ok (⟨2, 1, 1, 1⟩, s'), sent) ∧
        ∃ rounds, job.Outcome 1 codedStore s' ⟨2, 1, 1, 1⟩ rounds := by
  intro job embedder sent
  have hroom : codedStore.state.graph.nodes.size ≤ 0xffffffff := by decide
  obtain ⟨rounds, p, s', hsteps, hstage, hrun, -, houtcome⟩ :=
    run_answering "methodEmbeddings" 0 2 "remote" 1 uneven rfl hroom
  have hreport : ((job.run embedder codedStore).run []).1.map (·.1) = .ok ⟨2, 1, 1, 1⟩ := by
    decide +kernel
  have hsent : ((job.run embedder codedStore).run []).2 = sent := by decide +kernel
  have hfinished := hsteps 16 (by decide)
  rw [hrun] at hreport hsent
  dsimp only at hsent
  have hp : p.report = ⟨2, 1, 1, 1⟩ := Except.ok.inj hreport
  rw [hsent] at hfinished
  rw [hsent, hp] at hrun
  rw [hp] at houtcome
  exact ⟨rfl, hroom, p, s', hfinished, hstage, hrun, rounds, houtcome⟩

end EmbeddingJob

end CodeGraph
