import CodeGraph.Proofs.Embedding.Outcome
import CodeGraph.Proofs.Indexing.Walked
import CodeGraph.Proofs.Service.Answers
import CodeGraph.Proofs.Snapshot.Reload

/-!
# The course of a service

A service whose requests come one after another keeps a snapshot of its store in its files
(`Mirrored`), and its graph is as empty as its answers say.

* `persist_spec`, `embed_spec`: a snapshot is written, and an embedding job comes to
  its end and is saved.
* `serve_cases`: a request does nothing, or it empties the graph, or it fills it;
  and then it is saved.
* `snapshot_follows_store`: what holds all along a course of requests.
-/

namespace CodeGraph.Service

open Java Snapshot

variable {W : Type} (v : Service (StateM W))

/-- One program after another, from a state of the world. -/
theorem run_bind {α β : Type} (x : StateM W α) (f : α → StateM W β) (w : W) :
    (x >>= f).run w = (f (x.run w).1).run (x.run w).2 := rfl

/-! ## Snapshots -/

/-- Where the snapshot is kept. -/
def place (v : Service (StateM W)) : List String := Path.place (v.settings.snapshotPath v.root)

/-- A snapshot can be written. -/
def Writable (v : Service (StateM W)) (files : FileTree) : Prop :=
  ∀ bytes, ∃ files', files.write v.place bytes = .ok files'

/-- The clock shows times that a snapshot can hold. -/
def ClockFits (v : Service (StateM W)) : Prop := ∀ w, TextFits (v.now.run w).1

/-- The files hold a snapshot of the store, or none where the store is empty. -/
structure Mirrored (v : Service (StateM W)) (st : State) : Prop where
  connected : st.store.connected
  wellFormed : st.store.state.WellFormed
  writable : v.Writable st.files
  saved : st.store = .empty ∧ st.files.find? v.place = none ∨
    ∃ savedAt, TextFits savedAt ∧
      st.files.find? v.place = some (.file (Snapshot.encode st.store.state savedAt))

variable {v} {st : State}

/-- **What is kept is the store.** -/
theorem Mirrored.openFrom (h : v.Mirrored st) (hfits : st.store.state.Fits) :
    Store.openFrom st.files (v.settings.snapshotPath v.root) = .ok st.store := by
  rcases h.saved with ⟨hempty, hnone⟩ | ⟨savedAt, ht, hfile⟩
  · rw [Store.openFrom, show st.files.find? (Path.place _) = none from hnone, hempty]
  · obtain ⟨⟨state, connected⟩, files⟩ := st
    have hconnected : connected = true := h.connected
    subst hconnected
    rw [Store.openFrom_file hfile, Store.load, Store.decode_encode h.wellFormed hfits ht]
    rfl

/-- Writing a snapshot keeps the store and puts it into the files. -/
theorem persist_spec (hclock : v.ClockFits) {store : Store} {files : FileTree}
    (hconnected : store.connected) (hs : store.state.WellFormed)
    (hwritable : v.Writable files) (w : W) :
    ((v.persist ⟨store, files⟩).run w).1.store = store ∧
    v.Mirrored ((v.persist ⟨store, files⟩).run w).1 := by
  obtain ⟨files', hfiles⟩ := hwritable (Snapshot.encode store.state (v.now.run w).1)
  have hpersist : ((v.persist ⟨store, files⟩).run w).1 = ⟨store, files'⟩ := by
    rw [place] at hfiles
    rw [persist, run_bind, Store.saveTo_of_connected hconnected, hfiles]
    rfl
  rw [hpersist]
  have hfind := FileTree.find?_of_write hfiles
  exact ⟨rfl, hconnected, hs, FileTree.write_of_find? (FileTree.ne_nil_of_write hfiles) hfind,
    .inr ⟨_, hclock w, hfind⟩⟩

/-! ## Requests -/

theorem exists_of_isDirectory {files : FileTree} {path : String}
    (h : isDirectory files path = true) :
    ∃ root cs, files.resolve [] path = .ok root ∧ files.find? root = some (.directory cs) := by
  unfold isDirectory at h
  split at h
  case h_1 root hroot =>
    obtain ⟨t, ht, hdirectory⟩ := (Option.any_eq_true _ _).1 h
    cases t with
    | file bytes => cases hdirectory
    | directory cs => exact ⟨root, cs, hroot, ht⟩
  case h_2 => cases h

/-- An embedding job comes to its end and is saved. -/
theorem embed_spec (hclock : v.ClockFits) (embedder : Embedder (StateM W)) (h : v.Mirrored st)
    (hroom : st.store.state.graph.nodes.size ≤ 0xffffffff) (w : W) :
    v.Mirrored ((v.embed embedder st).run w).1 ∧
      ((v.embed embedder st).run w).1.store.state.graph.nodes.size =
        st.store.state.graph.nodes.size := by
  obtain ⟨report, store, hrun, hconnected, hs, hsize⟩ :=
    (jobOf v.settings).exists_run embedder h.connected h.wellFormed hroom w
  let w' := (((jobOf v.settings).run embedder st.store).run w).2
  have hembed : ((v.embed embedder st).run w).1 = ((v.persist { st with store }).run w').1 := by
    rw [embed, run_bind, hrun]
  obtain ⟨hstore, hmirrored⟩ := persist_spec hclock hconnected hs h.writable w'
  rw [hembed, hstore]
  exact ⟨hmirrored, hsize⟩

/-- What follows an answer does not change it. -/
theorem serve_eq {r : Request} {response : Response} {st st' : State} {follows : Bool} {w w' : W}
    (h : (v.answer r st).run w = ((response, st', follows), w')) :
    ((v.serve r st).run w).1 = (response, match v.embedder with
      | some embedder => if follows then ((v.embed embedder st').run w').1 else st'
      | none => st') := by
  rw [serve, run_bind, h]
  cases v.embedder with
  | none => rfl
  | some embedder => cases follows <;> rfl

/-- A request that neither has a project indexed nor empties the graph leaves all as it was. -/
theorem serve_of_not {r : Request} {w : W}
    (haccepted : Exchange.accepted ⟨r, ((v.serve r st).run w).1.1⟩ = false)
    (hresets : Exchange.resets ⟨r, ((v.serve r st).run w).1.1⟩ = false) :
    ((v.serve r st).run w).1.2 = st := by
  have hanswered : Answered v r st ((v.answer r st).run w).1 := answered v w
  generalize hanswer : (v.answer r st).run w = a at hanswered
  obtain ⟨⟨response, st', follows⟩, w'⟩ := a
  rw [serve_eq hanswer] at haccepted hresets ⊢
  cases hanswered with
  | same => cases v.embedder <;> rfl
  | reset htrue => cases htrue.symm.trans hresets
  | index htrue => cases htrue.symm.trans haccepted

/-- **What a request does**: nothing, or it empties the graph, or it fills it; and
then it is saved. -/
theorem serve_cases (hclock : v.ClockFits) (h : v.Mirrored st) {r : Request} {w : W}
    (hroom : ((v.answer r st).run w).1.2.1.store.state.graph.nodes.size ≤ 0xffffffff) :
    let after := ((v.serve r st).run w).1
    let e : Exchange := ⟨r, after.1⟩
    (after.2 = st ∧ e.accepted = false ∧ e.resets = false) ∨
      (v.Mirrored after.2 ∧ after.2.store.state.graph.nodes.size = 0 ∧ e.resets = true) ∨
      (v.Mirrored after.2 ∧ after.2.store.state.graph.nodes.size ≠ 0 ∧ e.accepted = true ∧
        e.resets = false) := by
  have hanswered : Answered v r st ((v.answer r st).run w).1 := answered v w
  generalize hanswer : (v.answer r st).run w = a at hanswered hroom
  obtain ⟨⟨response, st', follows⟩, w'⟩ := a
  rw [serve_eq hanswer]
  cases hanswered with
  | same haccepted hresets =>
    refine .inl ⟨?_, haccepted, hresets⟩
    cases v.embedder <;> rfl
  | @reset _ store hresets hwipe w₀ =>
    cases (Store.wipe_of_connected h.connected).symm.trans hwipe
    have hconnected : { st.store with state := .empty }.connected = true := h.connected
    obtain ⟨hstore, hmirrored⟩ :=
      persist_spec hclock hconnected StoreState.wellFormed_empty h.writable w₀
    have hsize := congrArg (·.state.graph.nodes.size) hstore
    refine .inr (.inl ?_)
    cases v.embedder <;> exact ⟨hmirrored, hsize, hresets⟩
  | @index _ path report store haccepted hdirectory hindex w₀ =>
    obtain ⟨hconnected, hs, hfilled⟩ := indexProject_spec h.connected h.wellFormed hindex
    obtain ⟨hstore, hmirrored⟩ := persist_spec hclock hconnected hs h.writable w₀
    obtain ⟨root, cs, hroot, hcs⟩ := exists_of_isDirectory hdirectory
    have hfull :=
      ne_of_eq_of_ne (congrArg (·.state.graph.nodes.size) hstore) (hfilled root cs hroot hcs)
    have hresets := Exchange.resets_eq_false_of_accepted haccepted
    refine .inr (.inr ?_)
    cases hembedder : v.embedder with
    | none => exact ⟨hmirrored, hfull, haccepted, hresets⟩
    | some embedder =>
      obtain ⟨hembedded, hsize⟩ := embed_spec hclock embedder hmirrored hroom w'
      exact ⟨hembedded, ne_of_eq_of_ne hsize hfull, haccepted, hresets⟩

/-! ## Courses -/

/-- A service from an empty store without a snapshot on: the exchanges that there were, the latest
first, and what has come of them. Each request comes when all that followed the one before has
ended. In between, the world may change, and the files may, but for the snapshot. -/
inductive Course (v : Service (StateM W)) : List Exchange → State → W → Prop
  | start {files : FileTree} (hnone : files.find? v.place = none)
      (hwritable : v.Writable files) (w : W) :
      Course v [] ⟨.empty, files⟩ w
  | request {log : List Exchange} {st : State} {w : W} (h : Course v log st w) (r : Request)
      (hroom : ((v.answer r st).run w).1.2.1.store.state.graph.nodes.size ≤ 0xffffffff) :
      Course v (⟨r, ((v.serve r st).run w).1.1⟩ :: log) ((v.serve r st).run w).1.2
        ((v.serve r st).run w).2
  | outside {log : List Exchange} {st : State} {w : W} (h : Course v log st w) {files : FileTree}
      (hspared : files.find? v.place = st.files.find? v.place) (hwritable : v.Writable files)
        (w' : W) :
      Course v log { st with files } w'

variable {log : List Exchange} {w : W}

/-- A course keeps the store and its snapshot together, and it keeps count of
whether the graph is empty. -/
theorem Course.mirrored (hclock : v.ClockFits) (h : Course v log st w) :
    v.Mirrored st ∧ (st.store.state.graph.nodes.size == 0) = !Exchange.indexed log := by
  induction h with
  | start hnone hwritable w =>
    exact ⟨⟨rfl, StoreState.wellFormed_empty, hwritable, .inl ⟨rfl, hnone⟩⟩, rfl⟩
  | @request log st w _ r hroom ih =>
    obtain ⟨hmirrored, hempty⟩ := ih
    rcases serve_cases hclock hmirrored hroom with
      ⟨hsame, haccepted, hresets⟩ | ⟨hmirrored', hsize, hresets⟩ | ⟨hmirrored', hsize,
        haccepted, hresets⟩
    · rw [hsame, Exchange.indexed, List.takeWhile_cons, if_pos (by rw [hresets]; rfl),
        List.any_cons, haccepted]
      exact ⟨hmirrored, hempty⟩
    · refine ⟨hmirrored', ?_⟩
      rw [hsize, Exchange.indexed, List.takeWhile_cons, if_neg (by rw [hresets]; decide)]
      rfl
    · refine ⟨hmirrored', ?_⟩
      rw [Exchange.indexed, List.takeWhile_cons, if_pos (by rw [hresets]; rfl), List.any_cons,
        haccepted]
      exact beq_eq_false_iff_ne.2 hsize
  | @outside log st w _ files hspared hwritable w' ih =>
    obtain ⟨hmirrored, hempty⟩ := ih
    have hsaved := hmirrored.saved
    rw [← hspared] at hsaved
    exact ⟨⟨hmirrored.connected, hmirrored.wellFormed, hwritable, hsaved⟩, hempty⟩

/-- **The snapshot follows the store.** In the course of a service whose files can be written,
whatever is asked of it, whatever embedder, chat model and clock answer: what is opened from
the snapshot is the store, with its graph and its vector indexes; the graph is said to be empty
exactly if no project was indexed since the start or since it was last emptied; and any other
request leaves store and files as they are. The graph is meant to have room for its nodes, and
a snapshot for its lengths. -/
theorem snapshot_follows_store (hclock : v.ClockFits) (h : Course v log st w) :
    (st.store.state.Fits → Store.openFrom st.files (v.settings.snapshotPath v.root) =
      .ok st.store) ∧
    (∀ r : Request, r.method = "GET" → r.path = "/api/graph/empty" → ((v.serve r st).run w).1.1 =
      .document 200 (.object [("isEmpty", .bool (!Exchange.indexed log))])) ∧
    ∀ r : Request, let after := ((v.serve r st).run w).1
      Exchange.accepted ⟨r, after.1⟩ = false → Exchange.resets ⟨r, after.1⟩ = false →
        after.2 = st := by
  obtain ⟨hmirrored, hempty⟩ := h.mirrored hclock
  refine ⟨hmirrored.openFrom, fun r hmethod hpath => ?_, fun r => serve_of_not⟩
  rw [serve_eq (answer_isEmpty v hmethod hpath w), answerIsEmpty, Store.counts, Store.read,
    if_pos hmirrored.connected, ← hempty]
  rfl

/-- `class A { void run() { } }`, without the parts that nothing reads. -/
def runningClass : Tree :=
  .mk "program" true "" "" 1 1
    [.mk "class_declaration" true "" "" 1 1
      [.mk "identifier" true "name" "A" 1 1 [],
       .mk "class_body" true "body" "" 1 1
        [.mk "method_declaration" true "" "void run() { }" 1 1
          [.mk "void_type" true "type" "void" 1 1 [],
           .mk "identifier" true "name" "run" 1 1 [],
           .mk "formal_parameters" true "parameters" "()" 1 1 [],
           .mk "block" true "body" "{ }" 1 1 []]]]]

/-- A service over sources of one class, whose embedder finds texts too long at first. -/
def runningService : Service (StateM (List (List String))) where
  settings := {}
  root := "/p"
  embedder := some (.answering "remote" 1 EmbeddingJob.uneven)
  chat := none
  parse := fun _ => runningClass
  now := pure "2026-01-01T00:00:00+00:00"

/-- A project is indexed, and its method is embedded in two attempts. -/
theorem snapshot_follows_store_runningService :
    let index : Request := ⟨"POST", "/api/index", some "application/json",
      "\x7b\"projectRoot\": \"/p\"\x7d"⟩
    let start : State := ⟨.empty, .directory [("p", .directory [("A.java", .file [])])]⟩
    let indexed := (runningService.serve index start).run []
    runningService.ClockFits ∧ indexed.2.length = 2 ∧
      ∃ log, Course runningService log indexed.1.2 indexed.2 ∧ indexed.1.2.store.state.Fits ∧
        Store.openFrom indexed.1.2.files "/p/.thicket/graph.bin" = .ok indexed.1.2.store ∧
        ((runningService.serve ⟨"GET", "/api/graph/empty", none, ""⟩ indexed.1.2).run
          indexed.2).1.1 =
          .document 200 (.object [("isEmpty", .bool false)]) ∧
        ((runningService.serve ⟨"GET", "/api/health", none, ""⟩ indexed.1.2).run indexed.2).1.2 =
          indexed.1.2 := by
  intro index start
  have hclock : runningService.ClockFits :=
    fun _ => (by decide : TextFits "2026-01-01T00:00:00+00:00")
  have hpath : runningService.settings.snapshotPath runningService.root =
      "/p/.thicket/graph.bin" := by
    decide +kernel
  have hplace : runningService.place = ["p", ".thicket", "graph.bin"] := by decide +kernel
  have hnone : start.files.find? runningService.place = none := by rw [hplace]; rfl
  have hwritable : runningService.Writable start.files :=
    fun bytes => by rw [hplace]; exact ⟨_, rfl⟩
  have hstart : Course runningService [] start [] := .start hnone hwritable []
  have hcourse := hstart.request index (by decide +kernel)
  have hsent : ((runningService.serve index start).run []).2.length = 2 := by decide +kernel
  have hfits : ((runningService.serve index start).run []).1.2.store.state.Fits := by decide +kernel
  have hlog : Exchange.indexed [⟨index, ((runningService.serve index start).run []).1.1⟩] =
      true := by
    decide +kernel
  generalize (runningService.serve index start).run [] = indexed at hcourse hsent hfits hlog ⊢
  obtain ⟨hopen, hempty, hsame⟩ := snapshot_follows_store hclock hcourse
  have hroute : (⟨"GET", "/api/health", none, ""⟩ : Request).route = .ok .health := rfl
  refine ⟨hclock, hsent, _, hcourse, hfits, hpath ▸ hopen hfits, ?_,
    hsame _ (Exchange.accepted_of_route hroute) (Exchange.resets_of_route hroute)⟩
  rw [hempty _ rfl rfl, hlog]
  rfl

end CodeGraph.Service
