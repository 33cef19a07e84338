import CodeGraph.Endpoint.Completion
import CodeGraph.Proofs.Embedding.Outcome
import Mathlib.Data.List.Nodup

/-!
# Vectors in the order of their texts

A completion endpoint labels each vector of an answer with the position of its text and may list
them in any order. They reach the methods of a batch by position all the same, and the order in
which they are listed makes no difference to what a job leaves.

* `getElem?_aligned`, `aligned_eq_of_perm`: vectors put in order.
* `mapM_ask_congr`: a job depends on the answers to what it sends.
* `Mirrors`: requests keep the log that is kept of texts.
* `embeddings_aligned`: batches, jobs and reordered answers.
-/

namespace CodeGraph

namespace Endpoint.Completion

variable {entries entries' : List Labelled} {n : Nat}

/-! ## Vectors in order -/

/-- The labels are the positions of `n` texts, each of them once and in any order. -/
def Labels (n : Nat) (entries : List Labelled) : Prop :=
  (entries.map (·.position)).Perm (List.range n)

instance : Decidable (Labels n entries) := inferInstanceAs (Decidable (List.Perm _ _))

theorem pairwise_mergeSort_position (entries : List Labelled) :
    (entries.mergeSort fun a b => a.position ≤ b.position).Pairwise
      fun a b => a.position ≤ b.position := by
  refine (List.pairwise_mergeSort (fun a b c => ?_) (fun a b => ?_) entries).imp fun h =>
    of_decide_eq_true h
  · simpa using Nat.le_trans
  · simpa using Nat.le_total a.position b.position

/-- The vector in each place is the one with that label. -/
theorem getElem?_aligned (h : Labels n entries) (i : Nat) (v : List Single) :
    (aligned entries)[i]? = some v ↔ ⟨i, v⟩ ∈ entries := by
  have hperm := entries.mergeSort_perm fun a b => a.position ≤ b.position
  have hrange : (entries.mergeSort fun a b => a.position ≤ b.position).map (·.position) =
      List.range n :=
    ((hperm.map _).trans h).eq_of_pairwise (fun a b _ _ => Nat.le_antisymm)
      (List.pairwise_map.2 (pairwise_mergeSort_position entries))
        (List.pairwise_lt_range.imp Nat.le_of_lt)
  have hposition {j : Nat} {e : Labelled}
      (he : (entries.mergeSort fun a b => a.position ≤ b.position)[j]? = some e) :
        e.position = j := by
    have hj : (List.range n)[j]? = some e.position := by
      rw [← hrange, List.getElem?_map, he]
      rfl
    obtain ⟨_, hj⟩ := List.getElem?_eq_some_iff.1 hj
    rw [← hj, List.getElem_range]
  rw [aligned, List.getElem?_map, Option.map_eq_some_iff, ← hperm.mem_iff]
  constructor
  · rintro ⟨e, he, rfl⟩
    obtain rfl := hposition he
    exact List.mem_of_getElem? he
  · intro hmem
    obtain ⟨j, hj⟩ := List.getElem?_of_mem hmem
    obtain rfl : i = j := hposition hj
    exact ⟨_, hj, rfl⟩

theorem length_aligned (h : Labels n entries) : (aligned entries).length = n := by
  rw [aligned, List.length_map, List.length_mergeSort, ← List.length_map, h.length_eq,
    List.length_range]

/-- Every vector of an answer stands somewhere in order. -/
theorem exists_mem_of_mem_aligned {v : List Single} (h : v ∈ aligned entries) :
    ∃ e ∈ entries, e.vector = v := by
  obtain ⟨e, he, rfl⟩ := List.mem_map.1 h
  exact ⟨e, List.mem_mergeSort.1 he, rfl⟩

/-- The order in which vectors with different labels are listed makes no difference. -/
theorem aligned_eq_of_perm (h : entries.Perm entries') (hnodup : (entries.map (·.position)).Nodup) :
    aligned entries = aligned entries' := by
  have hperm := entries.mergeSort_perm fun a b => a.position ≤ b.position
  have hperm' := entries'.mergeSort_perm fun a b => a.position ≤ b.position
  refine congrArg (List.map (·.vector)) (List.Perm.eq_of_pairwise (fun a b ha hb hab hba => ?_)
    (pairwise_mergeSort_position entries) (pairwise_mergeSort_position entries')
      ((hperm.trans h).trans hperm'.symm))
  exact List.inj_on_of_nodup_map hnodup (hperm.mem_iff.1 ha) (h.mem_iff.2 (hperm'.mem_iff.1 hb))
    (Nat.le_antisymm hab hba)

/-! ## Answers -/

/-- The labelled vectors of a response that succeeds, as listed. -/
def listed? (r : Response) : Option (List Labelled) :=
  if r.isSuccess then (Json.parse? r.body).bind vectors? else none

theorem interpret_of_listed? {r : Response} (h : listed? r = some entries) :
    interpret (.ok r) = .ok (aligned entries) := by
  rw [listed?, Option.ite_none_right_eq_some] at h
  simp only [interpret, if_pos h.1, h.2]

/-- An answer, and one that lists the same vectors in another order. -/
inductive Reordered : Except String Response → Except String Response → Prop
  | refl (answer : Except String Response) : Reordered answer answer
  | listed {r r' : Response} {entries entries' : List Labelled} (h : listed? r = some entries)
      (h' : listed? r' = some entries') (nodup : (entries.map (·.position)).Nodup)
      (perm : entries.Perm entries') :
      Reordered (.ok r) (.ok r')

theorem Reordered.interpret_eq {a a' : Except String Response} (h : Reordered a a') :
    interpret a = interpret a' := by
  cases h with
  | refl => rfl
  | listed h h' nodup perm =>
    rw [interpret_of_listed? h, interpret_of_listed? h', aligned_eq_of_perm perm nodup]

end Endpoint.Completion

/-! ## Answers that a job depends on -/

/-- The last answer of a round is the one to all that was sent up to it. -/
theorem Round.Answered.last {job : EmbeddingJob} {answers : List (List String) → BatchAnswer}
    {before : List (List String)} {r : Round} (h : r.Answered job answers before) :
    r.second.getD r.first = answers (before ++ r.sent job) := by
  rw [h.second, Round.sent, h.second]
  by_cases hlong : BatchAnswer.isTooLong r.first
  · rw [if_pos hlong]
    rfl
  · rw [if_neg hlong]
    exact h.first

namespace EmbeddingJob

variable (job : EmbeddingJob) (name : String) (dimensions : Nat)
  {answers answers' : List (List String) → BatchAnswer}

/-- Answers that agree on what is sent make one round. -/
theorem ask_congr {batch : List (NodeId × String)} {before : List (List String)} {r : Round}
    (hask : (job.ask (Embedder.answering name dimensions answers) batch).run before =
      (r, before ++ r.sent job))
    (hagree : ∀ part, part ≠ [] → part <+: r.sent job →
      answers (before ++ part) = answers' (before ++ part)) :
    (job.ask (Embedder.answering name dimensions answers') batch).run before =
      (r, before ++ r.sent job) := by
  obtain ⟨r₁, hr₁, hbatch₁, hfirst₁, hsecond₁⟩ :=
    ask_answering job name dimensions answers batch before
  obtain ⟨r₂, hr₂, hbatch₂, hfirst₂, hsecond₂⟩ :=
    ask_answering job name dimensions answers' batch before
  obtain rfl : r = r₁ := congrArg Prod.fst (hask.symm.trans hr₁)
  have hbatch : r₂.batch = r.batch := hbatch₂.trans hbatch₁.symm
  have hfirst : r₂.first = r.first := by
    rw [hfirst₁, hfirst₂, hbatch]
    exact (hagree [_] (List.cons_ne_nil _ _) ⟨_, rfl⟩).symm
  have hsecond : r₂.second = r.second := by
    rw [hsecond₂, hfirst, Round.cutTexts, hbatch]
    by_cases hlong : BatchAnswer.isTooLong r.first
    · have hsent : r.sent job = [r.batch.map (·.2), r.cutTexts job] := by
        rw [Round.sent, hsecond₁, if_pos hlong]
        rfl
      rw [hsecond₁, if_pos hlong, if_pos hlong]
      exact congrArg some (hagree _ (List.cons_ne_nil _ _) (hsent ▸ List.prefix_rfl)).symm
    · rw [hsecond₁, if_neg hlong, if_neg hlong]
  obtain rfl : r₂ = r := by
    cases r
    cases r₂
    cases hbatch
    cases hfirst
    cases hsecond
    rfl
  exact hr₂

/-- **A job depends on the answers to what it sends.** -/
theorem mapM_ask_congr {batches : List (List (NodeId × String))} {before : List (List String)}
    {rounds : List Round}
    (hask : (batches.mapM (job.ask (Embedder.answering name dimensions answers))).run before =
      (rounds, before ++ rounds.flatMap (·.sent job)))
    (hagree : ∀ part, part ≠ [] → part <+: rounds.flatMap (·.sent job) →
      answers (before ++ part) = answers' (before ++ part)) :
    (batches.mapM (job.ask (Embedder.answering name dimensions answers'))).run before =
      (rounds, before ++ rounds.flatMap (·.sent job)) := by
  induction batches generalizing before rounds with
  | nil => exact hask
  | cons batch batches ih =>
    obtain ⟨r, hr, -⟩ := ask_answering job name dimensions answers batch before
    obtain ⟨rest, hrest, -⟩ :=
      mapM_ask_answering job name dimensions answers batches (before ++ r.sent job)
    have hcons {answers : List (List String) → BatchAnswer}
        (hr : (job.ask (Embedder.answering name dimensions answers) batch).run before =
          (r, before ++ r.sent job))
        (hrest : (batches.mapM (job.ask (Embedder.answering name dimensions answers))).run
          (before ++ r.sent job) =
          (rest, before ++ r.sent job ++ rest.flatMap (·.sent job))) :
        ((batch :: batches).mapM (job.ask (Embedder.answering name dimensions answers))).run
          before =
          (r :: rest, before ++ (r :: rest).flatMap (·.sent job)) := by
      rw [List.mapM_cons, StateT.run_bind, hr]
      change StateT.run (List.mapM _ batches >>= fun rounds => pure (r :: rounds))
        (before ++ r.sent job) = _
      rw [StateT.run_bind, hrest, List.flatMap_cons, ← List.append_assoc]
      rfl
    obtain rfl : rounds = r :: rest := congrArg Prod.fst (hask.symm.trans (hcons hr hrest))
    rw [List.flatMap_cons] at hagree
    refine hcons (ask_congr job name dimensions hr fun part hne hpart => ?_)
      (ih hrest fun part hne hpart => ?_)
    · exact hagree part hne (hpart.trans (List.prefix_append _ _))
    · rw [List.append_assoc]
      exact hagree _ (List.append_ne_nil_of_right_ne_nil _ hne)
        ((List.prefix_append_right_inj _).2 hpart)

end EmbeddingJob

/-! ## Requests for texts -/

namespace Endpoint

/-- A channel whose answer depends on all requests that it was sent, the latest last. -/
def Channel.answering (answers : List Request → Except String Response) :
    Channel (StateM (List Request)) :=
  fun request => do
    modify (· ++ [request])
    return answers (← get)

/-- What one computation does to the image of a state is the image of what the other
one does to the state. -/
def Mirrors {V W α : Type} (image : W → V) (x : StateM V α) (y : StateM W α) : Prop :=
  ∀ w, x.run (image w) = Prod.map id image (y.run w)

namespace Mirrors

variable {V W α β : Type} {image : W → V}

theorem pure (a : α) : Mirrors image (Pure.pure a) (Pure.pure a) := fun _ => rfl

theorem bind {x : StateM V α} {y : StateM W α} {f : α → StateM V β} {g : α → StateM W β}
    (h : Mirrors image x y) (hf : ∀ a, Mirrors image (f a) (g a)) :
    Mirrors image (x >>= f) (y >>= g) := by
  intro w
  rw [StateT.run_bind, StateT.run_bind, h w]
  exact hf _ _

theorem mapM {f : α → StateM V β} {g : α → StateM W β} {l : List α}
    (h : ∀ a ∈ l, Mirrors image (f a) (g a)) :
    Mirrors image (l.mapM f) (l.mapM g) := by
  induction l with
  | nil =>
    rw [List.mapM_nil, List.mapM_nil]
    exact .pure []
  | cons a l ih =>
    rw [List.mapM_cons, List.mapM_cons]
    exact (h a List.mem_cons_self).bind fun b =>
      (ih fun c hc => h c (List.mem_cons_of_mem a hc)).bind fun bs => .pure (b :: bs)

end Mirrors

namespace Completion

variable (answers : List Request → Except String Response) (url model token : String)
  (dimensions : Nat)

/-- The request for the vectors of texts. -/
def request (texts : List String) : Request :=
  ⟨url, none, some token, .object [("model", .text model), ("input", .ofTexts texts)]⟩

theorem embedBatch_of_ne_nil {m : Type → Type} [Monad m] (send : Channel m) {texts : List String}
    (h : texts ≠ []) :
    (embedder send url model token dimensions).embedBatch texts =
      interpret <$> send (request url model token texts) :=
  if_neg fun hempty => h (List.isEmpty_iff.1 hempty)

/-- What is said about the last of batches of texts that are requested one after another. -/
def said (sent : List (List String)) : BatchAnswer :=
  interpret (answers (sent.map (request url model token)))

theorem embedBatch_mirrors {texts : List String} (h : texts ≠ []) :
    Mirrors (List.map (request url model token))
      ((embedder (.answering answers) url model token dimensions).embedBatch texts)
      ((Embedder.answering name dimensions (said answers url model token)).embedBatch texts) := by
  intro sent
  have hsent : (sent ++ [texts]).map (request url model token) =
      sent.map (request url model token) ++ [request url model token texts] := List.map_append
  rw [embedBatch_of_ne_nil url model token dimensions _ h]
  refine Prod.ext ?_ hsent.symm
  change interpret (answers (_ ++ [request url model token texts])) =
    said answers url model token (sent ++ [texts])
  rw [said, hsent]

theorem ask_mirrors (job : EmbeddingJob) {batch : List (NodeId × String)} (h : batch ≠ []) :
    Mirrors (List.map (request url model token))
      (job.ask (embedder (.answering answers) url model token dimensions) batch)
      (job.ask (Embedder.answering name dimensions (said answers url model token)) batch) := by
  have htexts (f : NodeId × String → String) : batch.map f ≠ [] :=
    fun hnil => h (List.map_eq_nil_iff.1 hnil)
  refine (embedBatch_mirrors answers url model token dimensions (htexts _)).bind fun first => ?_
  by_cases hlong : BatchAnswer.isTooLong first
  · rw [if_pos hlong, if_pos hlong]
    exact (embedBatch_mirrors answers url model token dimensions (htexts _)).bind fun _ => .pure _
  · rw [if_neg hlong, if_neg hlong]
    exact .pure _

/-- A run over an endpoint, by the rounds of the texts that it requests vectors for. -/
theorem run_of_rounds (job : EmbeddingJob) {s : Store} (hs : s.connected)
    (hroom : s.state.graph.nodes.size ≤ 0xffffffff) {rounds : List Round}
    {sent : List (List String)}
    (h : ((job.batches s.state.graph.codedMethods).mapM
      (job.ask (Embedder.answering name dimensions (said answers url model token)))).run [] =
        (rounds, sent)) :
    (job.run (embedder (.answering answers) url model token dimensions) s).run [] =
      (.ok (EmbeddingJob.settle dimensions ({}, job.prepared dimensions s) rounds),
        sent.map (request url model token)) := by
  have hmirrors : Mirrors (List.map (request url model token))
      ((job.batches s.state.graph.codedMethods).mapM
        (job.ask (embedder (.answering answers) url model token dimensions)))
      ((job.batches s.state.graph.codedMethods).mapM
        (job.ask (Embedder.answering name dimensions (said answers url model token)))) :=
    .mapM fun batch hbatch =>
      ask_mirrors answers url model token dimensions job (job.length_of_mem_batches hbatch).1
  have hrun := hmirrors []
  rw [h] at hrun
  rw [EmbeddingJob.run_eq job _ hs hroom, StateT.run_map]
  exact congrArg _ hrun

/-- **Vectors reach their texts in whatever order they are listed.** A batch of texts is
answered with the list whose vector in each place is the one with that label. So a job gives
each method of a batch the vector that the last response for the batch labels with the position
of the method, and it leaves the same store, report and requests if the vectors of responses
are listed in another order. -/
theorem embeddings_aligned (job : EmbeddingJob) (url model token : String) (dimensions : Nat)
    {s : Store} (hs : s.connected) (hroom : s.state.graph.nodes.size ≤ 0xffffffff)
    (answers : List Request → Except String Response) :
    let requests := List.map (request url model token)
    (∀ {W : Type} (send : Channel (StateM W)) (w w' : W) (texts : List String) (r : Response)
        (entries : List Labelled), texts ≠ [] →
          (send (request url model token texts)).run w = (.ok r, w') →
        listed? r = some entries → Labels texts.length entries →
        ∃ vectors, ((embedder send url model token dimensions).embedBatch texts).run w =
          (.ok vectors, w') ∧
          vectors.length = texts.length ∧ ∀ i v, vectors[i]? = some v ↔ ⟨i, v⟩ ∈ entries) ∧
    ∃ rounds report s',
      (job.run (embedder (.answering answers) url model token dimensions) s).run [] =
        (.ok (report, s'), requests (rounds.flatMap (·.sent job))) ∧
      job.Outcome dimensions s s' report rounds ∧
      (∀ front r back, rounds = front ++ r :: back →
        ∀ response entries, answers (requests (front.flatMap (·.sent job) ++ r.sent job)) =
          .ok response →
          listed? response = some entries → Labels r.batch.length entries →
          (∀ e ∈ entries, e.vector.length = dimensions) →
          ∀ (i : Nat) (id : NodeId) (code : String), r.batch[i]? = some (id, code) →
            ∃ v, (∀ v', ⟨i, v'⟩ ∈ entries ↔ v' = v) ∧
              ∃ n, s'.state.graph.nodes[id]? = some n ∧
                n.attributes.get? embeddingAttribute = some (.vector v)) ∧
      ∀ answers' : List Request → Except String Response,
        (∀ part, part ≠ [] → part <+: requests (rounds.flatMap (·.sent job)) →
          Reordered (answers part) (answers' part)) →
        (job.run (embedder (.answering answers') url model token dimensions) s).run [] =
          (job.run (embedder (.answering answers) url model token dimensions) s).run [] := by
  intro requests
  refine ⟨fun send w w' texts r entries hne hsend hlisted hlabels => ?_, ?_⟩
  · refine ⟨aligned entries, ?_, length_aligned hlabels, getElem?_aligned hlabels⟩
    rw [embedBatch_of_ne_nil url model token dimensions send hne, StateT.run_map, hsend,
      ← interpret_of_listed? hlisted]
    rfl
  · obtain ⟨rounds, hrounds, hbatches, hanswered⟩ :=
      EmbeddingJob.mapM_ask_answering job name dimensions (said answers url model token)
        (job.batches s.state.graph.codedMethods) []
    have houtcome := job.outcome_settle dimensions hs hbatches
    have hrun := run_of_rounds answers url model token dimensions job hs hroom hrounds
    refine ⟨rounds, _, _, hrun, houtcome, ?_, fun answers' hreordered => ?_⟩
    · intro front r back hr response entries hresponse hlisted hlabels hlengths i id code hi
      have hlast := (hanswered front r back hr).last
      rw [List.nil_append, said, hresponse, interpret_of_listed? hlisted] at hlast
      have hvectors : r.vectors? dimensions = some (aligned entries) := by
        rw [Round.vectors?, hlast]
        refine if_pos ?_
        rw [Bool.and_eq_true, List.all_eq_true]
        refine ⟨beq_iff_eq.2 (length_aligned hlabels), fun v hv => beq_iff_eq.2 ?_⟩
        obtain ⟨e, he, rfl⟩ := exists_mem_of_mem_aligned hv
        exact hlengths e he
      -- there is a vector for each method, and the one in its place is the one with its label
      have hplace : i < (aligned entries).length :=
        length_aligned hlabels ▸ (List.getElem?_eq_some_iff.1 hi).1
      obtain ⟨v, hv⟩ : ∃ v, (aligned entries)[i]? = some v := ⟨_, List.getElem?_eq_getElem hplace⟩
      obtain ⟨-, hembedded⟩ :=
        houtcome.embedded r (hr ▸ List.mem_append_right _ List.mem_cons_self) _ hvectors
      obtain ⟨-, hwritten, -⟩ := hembedded i id code v hi hv
      refine ⟨v, fun v' => ?_, hwritten⟩
      rw [← getElem?_aligned hlabels, hv, Option.some_inj, eq_comm]
    · have hagree : ∀ part, part ≠ [] → part <+: rounds.flatMap (·.sent job) →
          said answers url model token ([] ++ part) = said answers' url model token ([] ++ part) :=
        fun part hne hpart =>
          (hreordered (requests part) (fun hnil => hne (List.map_eq_nil_iff.1 hnil))
            (hpart.map _)).interpret_eq
      have hsame := EmbeddingJob.mapM_ask_congr job name dimensions hrounds hagree
      rw [hrun, run_of_rounds answers' url model token dimensions job hs hroom hsame]

/-- A response that lists the vectors of two texts, the second one first. -/
def backwards : Response :=
  ⟨200,
   "\x7b\"data\":[\x7b\"index\":1,\"embedding\":[2]\x7d,\x7b\"index\":0,\"embedding\":[1]\x7d]\x7d"⟩

/-- A response that lists them in order. -/
def forwards : Response :=
  ⟨200,
   "\x7b\"data\":[\x7b\"index\":0,\"embedding\":[1]\x7d,\x7b\"index\":1,\"embedding\":[2]\x7d]\x7d"⟩

open EmbeddingJob in
theorem embeddings_aligned_codedStore :
    let job := ofSizes "methodEmbeddings" 2 8000
    let run := fun r : Response =>
      (job.run (embedder (.answering fun _ => .ok r) embeddingsUrl defaultEmbeddingModel "key" 1)
        codedStore).run []
    codedStore.connected ∧ codedStore.state.graph.nodes.size ≤ 0xffffffff ∧
      listed? backwards = some [⟨1, [⟨0x40000000⟩]⟩, ⟨0, [⟨0x3f800000⟩]⟩] ∧
      ∃ report s' requests, run backwards = (.ok (report, s'), requests) ∧
        run forwards = run backwards ∧
        (∃ n, s'.state.graph.nodes[0]? = some n ∧
          n.attributes.get? embeddingAttribute = some (.vector [⟨0x3f800000⟩])) ∧
        ∃ n, s'.state.graph.nodes[2]? = some n ∧
          n.attributes.get? embeddingAttribute = some (.vector [⟨0x40000000⟩]) := by
  intro job run
  have hroom : codedStore.state.graph.nodes.size ≤ 0xffffffff := by decide
  have hback : listed? backwards = some [⟨1, [⟨0x40000000⟩]⟩, ⟨0, [⟨0x3f800000⟩]⟩] := by
    decide +kernel
  have hforth : listed? forwards = some [⟨0, [⟨0x3f800000⟩]⟩, ⟨1, [⟨0x40000000⟩]⟩] := by
    decide +kernel
  obtain ⟨-, rounds, report, s', hrun, houtcome, hwritten, hsame⟩ :=
    embeddings_aligned job embeddingsUrl defaultEmbeddingModel "key" 1 (s := codedStore) rfl hroom
      fun _ => .ok backwards
  have hcoded : codedStore.state.graph.codedMethods = [(0, "void m() { }"), (2, "")] := by
    decide +kernel
  obtain ⟨r, rfl, hbatch⟩ : ∃ r, rounds = [r] ∧ r.batch = [(0, "void m() { }"), (2, "")] := by
    have hscanned := houtcome.scanned.trans hcoded
    match rounds, hscanned with
    | [r], hscanned => exact ⟨r, rfl, by simpa using hscanned⟩
    | r :: r' :: rest, hscanned =>
      -- the first batch is full, so there is nothing left for a second one
      have hfull : r.batch.length = 2 := houtcome.full r List.mem_cons_self
      have hne :=
        List.length_pos_iff.2 (houtcome.sizes r' (List.mem_cons_of_mem r List.mem_cons_self)).1
      have hlength := congrArg List.length hscanned
      simp only [List.flatMap_cons, List.length_append, List.length_cons,
        List.length_nil] at hlength
      omega
  have hlabels : Labels r.batch.length [⟨1, [⟨0x40000000⟩]⟩, ⟨0, [⟨0x3f800000⟩]⟩] := by
    rw [hbatch]
    decide
  refine ⟨rfl, hroom, hback, report, s', _, hrun, ?_, ?_, ?_⟩
  · exact hsame _ fun part _ _ => .listed hback hforth (by decide) (by decide)
  · obtain ⟨v, hv, hn⟩ := hwritten [] r [] rfl _ _ rfl hback hlabels (by decide) 0 0 _
      (by rw [hbatch]; rfl)
    rwa [(hv [⟨0x3f800000⟩]).1 (by decide)]
  · obtain ⟨v, hv, hn⟩ := hwritten [] r [] rfl _ _ rfl hback hlabels (by decide) 1 2 _
      (by rw [hbatch]; rfl)
    rwa [(hv [⟨0x40000000⟩]).1 (by decide)]

end Completion

end Endpoint

end CodeGraph
