import CodeGraph.Embedding.Job
import CodeGraph.Proofs.Graph.Content
import CodeGraph.Proofs.Graph.Listing
import CodeGraph.Proofs.Store.WellFormed

/-!
# The rounds of an embedding job

A `Round` is what passes between the job and the embedder over one batch: a first answer and, if
that one is that the texts are too long, a second one to the texts cut down. Nothing that a round
writes shows in what is scanned (`Store.codedMethods_writeVector`), so the machine does the same as
asking for one batch of the methods after another and settling all rounds at the end (`run_eq`),
whatever the embedder does to answer.
-/

namespace CodeGraph

/-! ## What is scanned -/

/-- The code of a method that carries any, empty if it is no text. -/
def Node.methodCode? (n : Node) : Option String :=
  if n.label = .method then
    match n.attributes.get? codeAttribute with
    | none | some .null => none
    | some (.text code) => some code
    | some _ => some ""
  else none

theorem Node.label_of_methodCode? {n : Node} {code : String} (h : n.methodCode? = some code) :
    n.label = .method := by
  by_contra hlabel
  rw [methodCode?, if_neg hlabel] at h
  cases h

/-- The methods that carry code, with it, in id order. -/
def Graph.codedMethods (g : Graph) : List (NodeId × String) :=
  g.nodeList.filterMap fun (id, n) => n.methodCode?.map (id, ·)

theorem Graph.mem_codedMethods {g : Graph} {x : NodeId × String} :
    x ∈ g.codedMethods ↔ ∃ n, g.nodes[x.1]? = some n ∧ n.methodCode? = some x.2 := by
  rw [codedMethods, List.mem_filterMap]
  constructor
  · rintro ⟨⟨id, n⟩, hn, hmap⟩
    obtain ⟨code, hcode, rfl⟩ := Option.map_eq_some_iff.1 hmap
    exact ⟨n, mem_nodeList.1 hn, hcode⟩
  · rintro ⟨n, hn, hcode⟩
    exact ⟨(x.1, n), mem_nodeList.2 hn, Option.map_eq_some_iff.2 ⟨x.2, hcode, rfl⟩⟩

/-- Every method stands there once. -/
theorem Graph.nodup_codedMethods (g : Graph) : (g.codedMethods.map (·.1)).Nodup := by
  have hids : (g.nodeList.map (·.1)).Nodup := g.map_fst_nodeList ▸ List.nodup_range
  rw [List.Nodup, List.pairwise_map] at hids ⊢
  refine hids.filterMap _ fun x y hne a ha b hb => ?_
  obtain ⟨code, -, rfl⟩ := Option.map_eq_some_iff.1 ha
  obtain ⟨code', -, rfl⟩ := Option.map_eq_some_iff.1 hb
  exact hne

/-- A page of a scan for code is a part of the methods that carry some. -/
theorem Store.scan_codeAttribute {s : Store} (hs : s.connected) (skip limit : Nat) :
    ∃ page, s.scan .method codeAttribute skip (some limit) = .ok page ∧
      page.map (fun n => (n.id, EmbeddingJob.codeOf n)) =
        (s.state.graph.codedMethods.drop skip).take limit := by
  rw [scan, read, if_pos hs]
  refine ⟨_, rfl, ?_⟩
  have hcoded : (s.state.graph.nodeList.filter fun (_, n) =>
      n.label == .method && (n.attributes.get? codeAttribute).any (!·.isNull)).map
        (fun (id, n) => (id, EmbeddingJob.codeOf ⟨id, n.attributes⟩)) =
          s.state.graph.codedMethods := by
    rw [Graph.codedMethods, ← List.filterMap_eq_filter, List.map_filterMap]
    refine List.filterMap_congr fun x _ => ?_
    obtain ⟨id, n⟩ := x
    by_cases hlabel : n.label = .method
    case neg => simp [Node.methodCode?, hlabel]
    case pos =>
      rcases hcode : n.attributes.get? codeAttribute with _ | v
      · simp [Node.methodCode?, hlabel, hcode]
      · cases v <;>
          simp [Node.methodCode?, EmbeddingJob.codeOf, hlabel, hcode, Value.isNull, Value.asText?]
  rw [← hcoded, List.map_map, List.map_take, List.map_drop]
  rfl

/-! ## What is written -/

/-- The node with a vector. -/
def Node.withVector (n : Node) (v : List Single) : Node :=
  { n with attributes := n.attributes.insert embeddingAttribute (.vector v) }

theorem Node.methodCode?_withVector (n : Node) (v : List Single) :
    (n.withVector v).methodCode? = n.methodCode? := by
  have hcode : (n.withVector v).attributes.get? codeAttribute = n.attributes.get? codeAttribute :=
    Dict.get?_insert_of_ne (by decide) n.attributes _
  rw [methodCode?, methodCode?, hcode]
  rfl

/-- The store where a node has got a vector. -/
def Store.writeVector (s : Store) (x : NodeId × List Single) : Store :=
  { s with state := { s.state with graph := { s.state.graph with
      nodes := s.state.graph.nodes.modify x.1 (·.withVector x.2) } } }

/-- The store where nodes have got their vectors, one after another. -/
def Store.writeVectors (s : Store) (pending : List (NodeId × List Single)) : Store :=
  pending.foldl writeVector s

namespace Store

variable {s : Store}

theorem setAttribute_embeddingAttribute (hs : s.connected) {x : NodeId × List Single}
    (hx : s.state.graph.position? x.1 = some x.1) :
    s.setAttribute x.1 embeddingAttribute (.vector x.2) = .ok ((), s.writeVector x) :=
  setAttribute_of_position? hs hx _ _

theorem position?_writeVector (s : Store) (x : NodeId × List Single) (id : NodeId) :
    (s.writeVector x).state.graph.position? id = s.state.graph.position? id := by
  rw [Graph.position?, Graph.position?, writeVector, Array.size_modify]

/-- Vectors do not show in what is scanned. -/
theorem codedMethods_writeVector (s : Store) (x : NodeId × List Single) :
    (s.writeVector x).state.graph.codedMethods = s.state.graph.codedMethods := by
  have hcodes (g : Graph) : g.codedMethods =
      (g.nodes.toList.map Node.methodCode?).zipIdx.filterMap fun (code, id) =>
        code.map (id, ·) := by
    rw [Graph.codedMethods, Graph.nodeList, List.zipIdx_map, List.filterMap_map, List.filterMap_map]
    rfl
  have hsame : (s.writeVector x).state.graph.nodes.toList.map Node.methodCode? =
      s.state.graph.nodes.toList.map Node.methodCode? := by
    rw [writeVector, Array.toList_modify]
    exact Graph.map_modify_of_forall_eq (fun n => n.methodCode?_withVector x.2) _ _
  rw [hcodes, hcodes, hsame]

end Store

/-! ## Rounds -/

/-- An embedder's answer to a batch of texts. -/
abbrev BatchAnswer := Except EmbedError (List (List Single))

namespace BatchAnswer

/-- The texts were too long for the embedder. -/
def isTooLong : BatchAnswer → Bool
  | .error (.tooLong _ _) => true
  | _ => false

theorem eq_tooLong_of_isTooLong {answer : BatchAnswer} (h : isTooLong answer) :
    ∃ provider reason, answer = .error (.tooLong provider reason) := by
  cases answer with
  | ok vectors => cases h
  | error e =>
    cases e with
    | tooLong provider reason => exact ⟨provider, reason, rfl⟩
    | _ => cases h

/-- The vectors of an answer, if there are as many as it takes and all of them have the length. -/
def vectors? (dimensions count : Nat) : BatchAnswer → Option (List (List Single))
  | .ok vectors =>
      if vectors.length == count && vectors.all (·.length == dimensions) then some vectors else none
  | .error _ => none

theorem vectors?_eq_some {dimensions count : Nat} {answer : BatchAnswer}
    {vectors : List (List Single)}
    (h : vectors? dimensions count answer = some vectors) :
    answer = .ok vectors ∧ vectors.length = count ∧ ∀ v ∈ vectors, v.length = dimensions := by
  cases answer with
  | error e => cases h
  | ok found =>
    rw [vectors?, Option.ite_none_right_eq_some] at h
    obtain ⟨hfits, hfound⟩ := h
    cases hfound
    simpa using hfits

end BatchAnswer

/-- What passes between a job and an embedder over one batch of methods. -/
structure Round where
  batch : List (NodeId × String)
  first : BatchAnswer
  /-- The answer to the texts cut down. -/
  second : Option BatchAnswer

namespace Round

/-- The vectors that a round ends with, if any. -/
def vectors? (dimensions : Nat) (r : Round) : Option (List (List Single)) :=
  BatchAnswer.vectors? dimensions r.batch.length (r.second.getD r.first)

/-- What a round has to write: a vector for each method, or nothing if the batch is left out. -/
def written (dimensions : Nat) (r : Round) : List (NodeId × List Single) :=
  (r.batch.map (·.1)).zip ((r.vectors? dimensions).getD [])

/-- Count a round. -/
def count (dimensions : Nat) (report : EmbeddingReport) (r : Round) : EmbeddingReport where
  methods := report.methods + r.batch.length
  embedded := report.embedded + (r.written dimensions).length
  skippedBatches := report.skippedBatches + if (r.vectors? dimensions).isNone then 1 else 0
  truncatedBatches := report.truncatedBatches + if r.second.isSome then 1 else 0

/-- What is counted when a round has its last answer and nothing of it is written. -/
def asked (report : EmbeddingReport) (r : Round) : EmbeddingReport :=
  { report with
    methods := report.methods + r.batch.length
    truncatedBatches := report.truncatedBatches + if r.second.isSome then 1 else 0 }

variable {dimensions : Nat} {r : Round} {vectors : List (List Single)}

theorem written_of_eq_none (h : r.vectors? dimensions = none) : r.written dimensions = [] := by
  rw [written, h, Option.getD_none, List.zip_nil_right]

theorem written_of_eq_some (h : r.vectors? dimensions = some vectors) :
    r.written dimensions = (r.batch.map (·.1)).zip vectors := by
  rw [written, h, Option.getD_some]

theorem length_written (h : r.vectors? dimensions = some vectors) :
    (r.written dimensions).length = r.batch.length := by
  rw [written_of_eq_some h, List.length_zip, List.length_map, (BatchAnswer.vectors?_eq_some h).2.1,
    Nat.min_self]

theorem count_of_eq_none (h : r.vectors? dimensions = none) (report : EmbeddingReport) :
    r.count dimensions report =
      { r.asked report with skippedBatches := (r.asked report).skippedBatches + 1 } := by
  rw [count, written_of_eq_none h, h]
  rfl

theorem count_of_eq_some (h : r.vectors? dimensions = some vectors) (report : EmbeddingReport) :
    r.count dimensions report =
      { r.asked report with embedded :=
  (r.asked report).embedded + (r.written dimensions).length } := by
  rw [count, h]
  rfl

end Round

namespace EmbeddingJob

/-- The report and the store after rounds. -/
def settle (dimensions : Nat) (state : EmbeddingReport × Store) (rounds : List Round) :
    EmbeddingReport × Store :=
  rounds.foldl (fun (report, s) r =>
    (r.count dimensions report, s.writeVectors (r.written dimensions))) state

theorem settle_cons (dimensions : Nat) (report : EmbeddingReport) (s : Store) (round : Round)
    (rounds : List Round) :
    settle dimensions (report, s) (round :: rounds) =
      settle dimensions (round.count dimensions report,
        s.writeVectors (round.written dimensions)) rounds :=
  rfl

/-- Cut into batches. -/
def batches (job : EmbeddingJob) : List (NodeId × String) → List (List (NodeId × String))
  | [] => []
  | x :: rest => (x :: rest).take job.batchSize :: job.batches ((x :: rest).drop job.batchSize)
termination_by l => l.length
decreasing_by
  have hpos := job.batchSize_pos
  rw [List.length_drop, List.length_cons]
  omega

variable (job : EmbeddingJob)

theorem flatten_batches (l : List (NodeId × String)) : (job.batches l).flatten = l := by
  fun_induction job.batches l with
  | case1 => rfl
  | case2 x rest ih => rw [List.flatten_cons, ih, List.take_append_drop]

theorem length_of_mem_batches {l batch : List (NodeId × String)} (h : batch ∈ job.batches l) :
    batch ≠ [] ∧ batch.length ≤ job.batchSize := by
  fun_induction job.batches l with
  | case1 => cases h
  | case2 x rest ih =>
    rcases List.mem_cons.1 h with rfl | h
    · refine ⟨fun hnil => ?_, List.length_take_le _ _⟩
      rcases List.take_eq_nil_iff.1 hnil with hzero | hcons
      · exact Nat.ne_of_gt job.batchSize_pos hzero
      · cases hcons
    · exact ih h

/-- All batches but the last are full. -/
theorem length_of_mem_dropLast_batches {l batch : List (NodeId × String)}
    (h : batch ∈ (job.batches l).dropLast) : batch.length = job.batchSize := by
  fun_induction job.batches l with
  | case1 => cases h
  | case2 x rest ih =>
    by_cases hnil : job.batches ((x :: rest).drop job.batchSize) = []
    case pos =>
      rw [hnil] at h
      cases h
    case neg =>
      rw [List.dropLast_cons_of_ne_nil hnil] at h
      rcases List.mem_cons.1 h with rfl | h
      · rw [List.length_take, Nat.min_eq_left]
        by_contra hshort
        rw [List.drop_eq_nil_of_le (Nat.le_of_not_le hshort), batches] at hnil
        exact hnil rfl
      · exact ih h

variable {m : Type → Type} [Monad m] (embedder : Embedder m)

/-- Ask for the vectors of a batch, and once more for those of the texts cut down if
they are too long. -/
def ask (batch : List (NodeId × String)) : m Round := do
  let first ← embedder.embedBatch (batch.map (·.2))
  if BatchAnswer.isTooLong first then
    return ⟨batch, first,
      some (← embedder.embedBatch (batch.map fun x => Text.truncate job.tokensPerText x.2))⟩
  else return ⟨batch, first, none⟩

/-! ## Steps -/

/-- The methods of a store and the vectors written to it fit together. -/
structure Ready (s : Store) : Prop where
  connected : s.connected = true
  named : ∀ x ∈ s.state.graph.codedMethods, s.state.graph.position? x.1 = some x.1

theorem Ready.writeVectors {s : Store} (h : Ready s) (pending : List (NodeId × List Single)) :
    Ready (s.writeVectors pending) ∧
      (s.writeVectors pending).state.graph.codedMethods = s.state.graph.codedMethods := by
  induction pending generalizing s with
  | nil => exact ⟨h, rfl⟩
  | cons x rest ih =>
    have hcoded := s.codedMethods_writeVector x
    have hready : Ready (s.writeVector x) := by
      refine ⟨h.connected, fun y hy => ?_⟩
      rw [Store.position?_writeVector]
      exact h.named y (hcoded ▸ hy)
    obtain ⟨hall, hsame⟩ := ih hready
    exact ⟨hall, hsame.trans hcoded⟩

/-- What a round writes to is there, if its batch was scanned. -/
theorem Ready.named_of_mem_written {s : Store} (h : Ready s) {dimensions : Nat} {r : Round}
    (hcoded : ∀ x ∈ r.batch, x ∈ s.state.graph.codedMethods) :
    ∀ x ∈ r.written dimensions, s.state.graph.position? x.1 = some x.1 := by
  intro x hx
  obtain ⟨y, hy, hyx⟩ := List.mem_map.1 (List.of_mem_zip hx).1
  exact hyx ▸ h.named y (hcoded y hy)

theorem runFrom_finished {p : Progress} (hp : p.stage = .finished) (fuel : Nat) (s : Store) :
    runFrom job embedder fuel p s = pure (.ok (p, s)) := by
  cases fuel with
  | zero => rw [runFrom]
  | succ fuel => rw [runFrom, if_pos hp]

/-- Behind the last method the job finishes. -/
theorem step_scanning_of_eq_nil {s : Store} (hready : Ready s) {scanned : Nat}
    (hend : s.state.graph.codedMethods.drop scanned = []) (report : EmbeddingReport) :
    step job embedder ⟨.scanning, scanned, report⟩ s =
      pure (.ok (⟨.finished, scanned, report⟩, s)) := by
  obtain ⟨page, hpage, hcoded⟩ := Store.scan_codeAttribute hready.connected scanned job.batchSize
  rw [hend, List.take_nil, List.map_eq_nil_iff] at hcoded
  subst hcoded
  simp only [step, scan, hpage, bind, Except.bind]
  rfl

/-- Before that it goes on to ask for the next batch. -/
theorem step_scanning_of_ne_nil {s : Store} (hready : Ready s) {scanned : Nat}
    {batch : List (NodeId × String)}
    (hbatch : (s.state.graph.codedMethods.drop scanned).take job.batchSize = batch)
    (hne : batch ≠ [])
    (report : EmbeddingReport) :
    step job embedder ⟨.scanning, scanned, report⟩ s =
      pure (.ok (⟨.asking (batch.map (·.1)) (batch.map (·.2)) false, scanned + batch.length,
        { report with methods := report.methods + batch.length }⟩, s)) := by
  obtain ⟨page, hpage, hcoded⟩ := Store.scan_codeAttribute hready.connected scanned job.batchSize
  rw [hbatch] at hcoded
  subst hcoded
  have hsome : page.isEmpty = false :=
    List.isEmpty_eq_false_iff.2 fun hnil => hne (by rw [hnil, List.map_nil])
  simp only [step, scan, hpage, bind, Except.bind, hsome, List.map_map, List.length_map]
  rfl

/-- What the job makes of the last answer of a round. -/
theorem receive_eq (dimensions : Nat) (p : Progress) (r : Round) (texts : List String) {cut : Bool}
    (h : cut ∨ ¬BatchAnswer.isTooLong (r.second.getD r.first)) :
    job.receive dimensions p (r.batch.map (·.1)) texts cut (r.second.getD r.first) =
      if (r.vectors? dimensions).isSome then
        { p with stage := .writing (r.written dimensions) (r.batch.length < job.batchSize) }
      else skipBatch p := by
  rw [Round.written, Round.vectors?]
  generalize r.second.getD r.first = answer at h ⊢
  cases answer with
  | ok vectors =>
    simp only [receive, BatchAnswer.vectors?, List.length_map]
    split <;> rfl
  | error e =>
    cases e with
    | tooLong provider reason =>
      have hcut : cut = true := h.resolve_right fun hnot => hnot rfl
      rw [receive, if_pos hcut]
      rfl
    | _ => rfl

variable [LawfulMonad m]

theorem runFrom_of_step {p p' : Progress} {s s' : Store} (hp : p.stage ≠ .finished)
    (hstep : step job embedder p s = pure (.ok (p', s'))) (fuel : Nat) :
    runFrom job embedder (fuel + 1) p s = runFrom job embedder fuel p' s' := by
  rw [runFrom, if_neg hp, hstep, pure_bind]

theorem runFrom_asking (batch : List NodeId) (texts : List String) (cut : Bool) (scanned : Nat)
    (report : EmbeddingReport) (fuel : Nat) (s : Store) :
    runFrom job embedder (fuel + 1) ⟨.asking batch texts cut, scanned, report⟩ s =
      embedder.embedBatch texts >>= fun answer => runFrom job embedder fuel
        (job.receive embedder.dimensions ⟨.asking batch texts cut, scanned,
          report⟩ batch texts cut answer) s := by
  rw [runFrom, if_neg (by simp), step, bind_assoc]
  refine bind_congr fun answer => ?_
  rw [pure_bind]

/-- The vectors of a batch are written one after another. -/
theorem runFrom_writing {pending : List (NodeId × List Single)} {s : Store} (hs : s.connected)
    (hpending : ∀ x ∈ pending, s.state.graph.position? x.1 = some x.1) (isLast : Bool)
    (scanned : Nat) (report : EmbeddingReport) (fuel : Nat) :
    runFrom job embedder (fuel + pending.length + 1) ⟨.writing pending isLast, scanned, report⟩ s =
      runFrom job embedder fuel ⟨if isLast then .finished else .scanning, scanned,
        { report with embedded := report.embedded + pending.length }⟩ (s.writeVectors pending) := by
  induction pending generalizing s report with
  | nil => exact runFrom_of_step job embedder (by simp) rfl fuel
  | cons x rest ih =>
    have hwrite := Store.setAttribute_embeddingAttribute hs (hpending x List.mem_cons_self)
    have hstep : step job embedder ⟨.writing (x :: rest) isLast, scanned, report⟩ s =
        pure (.ok (⟨.writing rest isLast, scanned, { report with embedded := report.embedded + 1 }⟩,
          s.writeVector x)) := by
      simp only [step, write, hwrite, bind, Except.bind]
      rfl
    rw [List.length_cons, ← Nat.add_assoc, runFrom_of_step job embedder (by simp) hstep]
    refine (ih (s := s.writeVector x) hs (fun y hy => ?_) _).trans ?_
    · rw [Store.position?_writeVector]
      exact hpending y (List.mem_cons_of_mem _ hy)
    · rw [Nat.add_assoc, Nat.add_comm 1]
      rfl

/-- Where a job stands that has finished: all is scanned, and the rounds are settled. -/
def finishedAt (scanned : Nat) (settled : EmbeddingReport × Store) : Progress × Store :=
  (⟨.finished, scanned, settled.1⟩, settled.2)

/-- The rest of a run from where a batch is to be scanned: it comes to the end. -/
def Concludes (rest : List (NodeId × String)) : Prop :=
  ∀ (scanned : Nat) (report : EmbeddingReport) (s : Store) (fuel : Nat), Ready s →
    s.state.graph.codedMethods.drop scanned = rest → 5 * rest.length + 1 ≤ fuel →
    runFrom job embedder fuel ⟨.scanning, scanned, report⟩ s =
      (fun rounds => .ok (finishedAt (scanned + rest.length)
        (settle embedder.dimensions (report, s) rounds))) <$>
        (job.batches rest).mapM (job.ask embedder)

theorem drop_length_take {α : Type} (l : List α) (n : Nat) :
    l.drop (l.take n).length = l.drop n := by
  rw [List.length_take]
  rcases Nat.le_total n l.length with h | h
  · rw [Nat.min_eq_left h]
  · rw [Nat.min_eq_right h, List.drop_length, List.drop_eq_nil_of_le h]

/-- A round that has its last answer is settled, and the run goes on behind its batch. -/
theorem runFrom_receive {rest : List (NodeId × String)} (hne : rest ≠ [])
    (hrest : Concludes job embedder (rest.drop job.batchSize)) (round : Round)
    (hbatch : round.batch = rest.take job.batchSize) {scanned : Nat} {s : Store} (hready : Ready s)
    (hscanned : s.state.graph.codedMethods.drop scanned = rest) (texts : List String) {cut : Bool}
    (hcut : cut ∨ ¬BatchAnswer.isTooLong (round.second.getD round.first)) (report : EmbeddingReport)
    (stage : Stage) {fuel : Nat} (hfuel : 5 * rest.length ≤ fuel + 2) :
    runFrom job embedder fuel (job.receive embedder.dimensions
        ⟨stage, scanned + round.batch.length, round.asked report⟩
        (round.batch.map (·.1)) texts cut (round.second.getD round.first)) s =
      (fun rounds => .ok (finishedAt (scanned + rest.length)
        (settle embedder.dimensions (report, s) (round :: rounds)))) <$>
        (job.batches (rest.drop job.batchSize)).mapM (job.ask embedder) := by
  have hpos : 1 ≤ round.batch.length := by
    have hlength := List.length_pos_iff.2 hne
    have hsize := job.batchSize_pos
    rw [hbatch, List.length_take]
    omega
  have hlength : (rest.drop job.batchSize).length + round.batch.length = rest.length := by
    rw [hbatch, List.length_take, List.length_drop]
    omega
  have hend : scanned + rest.length =
      scanned + round.batch.length + (rest.drop job.batchSize).length := by
    omega
  have hbehind {s' : Store} (hsame : s'.state.graph.codedMethods = s.state.graph.codedMethods) :
      s'.state.graph.codedMethods.drop (scanned + round.batch.length) =
        rest.drop job.batchSize := by
    rw [hsame, ← List.drop_drop, hscanned, hbatch, drop_length_take]
  rw [receive_eq job _ _ _ _ hcut, hend]
  simp only [settle_cons]
  cases hvectors : round.vectors? embedder.dimensions with
  | none =>
    -- the batch is left out
    rw [Round.count_of_eq_none hvectors, Round.written_of_eq_none hvectors]
    exact hrest _ _ s fuel hready (hbehind rfl) (by omega)
  | some vectors =>
    -- one step for each vector; a batch that is not full is the last one and is not scanned behind
    have hwritten := Round.length_written hvectors
    have hcoded : ∀ x ∈ round.batch, x ∈ s.state.graph.codedMethods := fun x hx =>
      List.mem_of_mem_drop (hscanned ▸ List.mem_of_mem_take (hbatch ▸ hx))
    obtain ⟨steps, rfl⟩ : ∃ steps, fuel = steps + (round.written embedder.dimensions).length + 1 :=
      ⟨fuel - round.batch.length - 1, by omega⟩
    obtain ⟨hready', hsame⟩ := hready.writeVectors (round.written embedder.dimensions)
    rw [Round.count_of_eq_some hvectors]
    refine (runFrom_writing job embedder hready.connected
      (hready.named_of_mem_written hcoded) _ _ _ _).trans ?_
    by_cases hlast : round.batch.length < job.batchSize
    case pos =>
      have hnil : rest.drop job.batchSize = [] := by
        refine List.drop_eq_nil_of_le ?_
        rw [hbatch, List.length_take] at hlast
        omega
      rw [if_pos (by simpa using hlast), runFrom_finished job embedder rfl, hnil, batches,
        List.mapM_nil,
        map_pure]
      rfl
    case neg =>
      rw [if_neg (by simpa using hlast)]
      exact hrest _ _ _ steps hready' (hbehind hsame) (by omega)

/-- **The machine asks for one batch after another and settles the rounds.** -/
theorem concludes (rest : List (NodeId × String)) : Concludes job embedder rest := by
  fun_induction job.batches rest with
  | case1 =>
    intro scanned report s fuel hready hscanned hfuel
    obtain ⟨steps, rfl⟩ : ∃ steps, fuel = steps + 1 := ⟨fuel - 1, by omega⟩
    have hstep := step_scanning_of_eq_nil job embedder hready hscanned report
    rw [runFrom_of_step job embedder (by simp) hstep, runFrom_finished job embedder rfl, batches,
      List.mapM_nil, map_pure]
    rfl
  | case2 x tail ih =>
    intro scanned report s fuel hready hscanned hfuel
    rw [List.length_cons] at hfuel
    obtain ⟨steps, rfl⟩ : ∃ steps, fuel = steps + 3 := ⟨fuel - 3, by omega⟩
    have hne : (x :: tail).take job.batchSize ≠ [] := by
      rw [Ne, List.take_eq_nil_iff, not_or]
      exact ⟨Nat.ne_of_gt job.batchSize_pos, List.cons_ne_nil x tail⟩
    have hstep := step_scanning_of_ne_nil job embedder hready (congrArg _ hscanned) hne report
    rw [runFrom_of_step job embedder (by simp) hstep, runFrom_asking, batches,
      List.mapM_cons, map_bind,
      ask, bind_assoc]
    refine bind_congr fun first => ?_
    by_cases hlong : BatchAnswer.isTooLong first
    case pos =>
      -- the texts are cut down and sent again, and there is no third time
      obtain ⟨provider, reason, rfl⟩ := BatchAnswer.eq_tooLong_of_isTooLong hlong
      rw [if_pos hlong, bind_assoc, receive, if_neg Bool.false_ne_true, List.map_map,
        runFrom_asking]
      refine bind_congr fun second => ?_
      rw [pure_bind, map_bind]
      simp only [map_pure, bind_pure_comp]
      exact runFrom_receive job embedder (List.cons_ne_nil x tail) ih
        ⟨_, .error (.tooLong provider reason), some second⟩ rfl hready hscanned _
          (.inl rfl) report _
        (by rw [List.length_cons]; omega)
    case neg =>
      rw [if_neg hlong, pure_bind, map_bind]
      simp only [map_pure, bind_pure_comp]
      exact runFrom_receive job embedder (List.cons_ne_nil x tail) ih
        ⟨_, first, none⟩ rfl hready hscanned _ (.inr hlong) report _
          (by rw [List.length_cons]; omega)

/-! ## Runs -/

/-- The store with the index of the job made anew. -/
def prepared (job : EmbeddingJob) (dimensions : Nat) (s : Store) : Store :=
  let index : VectorIndex := ⟨job.indexName, .method, embeddingAttribute, dimensions⟩
  { s with state :=
    { s.state with indexes := (s.state.indexes.erase job.indexName).insert job.indexName index } }

theorem prepare_of_connected (dimensions : Nat) {s : Store} (hs : s.connected) :
    job.prepare dimensions s = .ok (job.prepared dimensions s) := by
  obtain ⟨state, connected⟩ := s
  cases hs
  rfl

/-- **A run settles a round for each batch and finishes**, with any number of steps
that is large enough. -/
theorem runFrom_eq {s : Store} (hs : s.connected) (hroom : s.state.graph.nodes.size ≤ 0xffffffff)
    {fuel : Nat} (hfuel : 5 * s.state.graph.nodes.size + 1 ≤ fuel) :
    runFrom job embedder fuel {} (job.prepared embedder.dimensions s) =
      (fun rounds => .ok (finishedAt s.state.graph.codedMethods.length
        (settle embedder.dimensions ({}, job.prepared embedder.dimensions s) rounds))) <$>
        (job.batches s.state.graph.codedMethods).mapM (job.ask embedder) := by
  have hlength : s.state.graph.codedMethods.length ≤ s.state.graph.nodes.size :=
    s.state.graph.length_nodeList ▸ List.length_filterMap_le _ _
  have hall :=
    concludes job embedder s.state.graph.codedMethods 0 {} (job.prepared embedder.dimensions s) fuel
      ⟨hs, fun x hx => ?_⟩ List.drop_zero (by omega)
  · rwa [Nat.zero_add] at hall
  obtain ⟨n, hn, -⟩ := Graph.mem_codedMethods.1 hx
  exact Graph.position?_of_lt hroom (Array.getElem?_eq_some_iff.1 hn).1

theorem run_eq {s : Store} (hs : s.connected) (hroom : s.state.graph.nodes.size ≤ 0xffffffff) :
    job.run embedder s =
      (fun rounds =>
        .ok (settle embedder.dimensions ({}, job.prepared embedder.dimensions s) rounds)) <$>
        (job.batches s.state.graph.codedMethods).mapM (job.ask embedder) := by
  have hfinished := runFrom_eq job embedder hs hroom (Nat.le_refl _)
  rw [run, job.prepare_of_connected _ hs]
  refine (congrArg (Functor.map _) hfinished).trans ?_
  rw [Functor.map_map]
  rfl

end EmbeddingJob

end CodeGraph
