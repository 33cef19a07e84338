import CodeGraph.Proofs.Indexing.Convergence

/-!
# Passes without failed writes

A write fails if an end of a relationship is missing or has a number that is no id. Sound steps
never miss an end, and numbers run out only with the `2 ^ 32 - 1` nodes that a graph has room for,
so a pass that stays within that room has no failures to count, wherever it starts.

* `stats_record`: an entry that succeeds counts a success for each of its upserts.
* `Step.stats_run`, `stats_runAll`: so do sound steps, for all that they have to write.
* `no_write_fails`: a pass over files leaves the number of failures as it was.
-/

namespace CodeGraph

/-- Count several successes. -/
def WriteStats.succeedTimes (w : WriteStats) (n : Nat) : WriteStats :=
  { w with succeeded := w.succeeded + n }

theorem WriteStats.succeedTimes_add (w : WriteStats) (m n : Nat) :
    w.succeedTimes (m + n) = (w.succeedTimes m).succeedTimes n := by
  rw [succeedTimes, succeedTimes, succeedTimes, Nat.add_assoc]

/-- When a relationship is written among others, both of its ends are there. -/
theorem Graph.mem_keys_of_applyAll? {front back : List Upsert} {start target : NodeKey}
    {relation : Relation} {g g' : Graph}
    (h : g.applyAll? (front ++ .edge start target relation :: back) = some g') :
    ∃ g₁, g.applyAll? front = some g₁ ∧ start ∈ g₁.keys ∧ target ∈ g₁.keys := by
  rw [applyAll?_append] at h
  obtain ⟨g₁, hfront, h⟩ := Option.bind_eq_some_iff.1 h
  obtain ⟨g₂, hedge, -⟩ := Option.bind_eq_some_iff.1 h
  obtain ⟨a, b, -, -, ha, hb, -⟩ := graph?_edge_eq_some hedge
  exact ⟨g₁, hfront, isSome_find?_iff.1 (by rw [ha]; rfl), isSome_find?_iff.1 (by rw [hb]; rfl)⟩

/-- **An entry that succeeds counts a success for each of its upserts**, and no failure. -/
theorem Entry.stats_record {entry : Entry} {l : Ledger} (h : (entry.record l).1 = true) :
    (entry.record l).2.stats = l.stats.succeedTimes entry.length := by
  induction entry generalizing l with
  | nil => rfl
  | cons u rest ih =>
    cases hu : u.apply? l.store with
    | none => simp [record, hu] at h
    | some store =>
      simp only [record, hu] at h ⊢
      rw [ih h, List.length_cons, Nat.add_comm, WriteStats.succeedTimes_add]
      rfl

namespace Java

variable {P : Upsert → Prop} {known : List NodeKey}

/-- Steps whose run ends in a graph where every id names its node count a success
for each upsert. -/
def Succeeds (us : List Upsert) (run : Ledger × FileReport → Ledger × FileReport)
    (state : StoreState) : Prop :=
  ∀ stats r, (run (⟨.ofState state, stats⟩, r)).1.store.state.graph.Names (fun _ => true) →
    (run (⟨.ofState state, stats⟩, r)).1.stats = stats.succeedTimes us.length

theorem succeeds_nil (state : StoreState) :
    Succeeds (writtenAll (fun _ => true) []) (runAll []) state :=
  fun _ _ _ => rfl

/-- Running an entry and the steps under it. -/
theorem succeeds_put {entry : Entry} {tally : Option Tally} {inside : List Step}
    {state : StoreState} (hentry : entry.Grounded known)
    (hknown : ∀ key ∈ known, key ∈ state.graph.keys)
    (hinside : ∀ state', StoreState.Written entry.written state state' →
      Succeeds (writtenAll (fun _ => true) inside) (runAll inside) state') :
    Succeeds ((Step.put entry tally inside).written fun _ => true) (Step.put entry tally inside).run
      state := by
  intro stats r hnames
  obtain ⟨state₁, hstore, hwritten, hall⟩ := entry.record_spec hentry hknown stats
  have hcount := @Entry.stats_record entry ⟨.ofState state, stats⟩
  rw [Step.written, Entry.written_true, Entry.succeeds_true, if_pos rfl, List.length_append,
    WriteStats.succeedTimes_add]
  generalize hrecord : entry.record ⟨.ofState state, stats⟩ = result at hstore hall hcount
  obtain ⟨succeeded, store, stats₁⟩ := result
  obtain rfl : store = .ofState state₁ := hstore
  cases succeeded with
  | false =>
    -- the graph stays as the failed entry left it, where all of it would have succeeded
    simp only [Step.run, hrecord] at hnames
    have hfalse := hall _ hnames
    rw [Entry.succeeds_true] at hfalse
    cases hfalse
  | true =>
    simp only [Step.run, hrecord] at hnames ⊢
    rw [hinside state₁ hwritten stats₁ _ hnames]
    exact congrArg (WriteStats.succeedTimes · _) (hcount rfl)

mutual

theorem Step.stats_run {known : List NodeKey} {s : Step} (h : s.Sound P known) {state : StoreState}
    (hknown : ∀ key ∈ known, key ∈ state.graph.keys) :
    Succeeds (s.written fun _ => true) s.run state := by
  match s, h with
  | .unresolved line what, _ => exact fun _ _ _ => rfl
  | .put entry tally _, .put hentry _ =>
    exact succeeds_put hentry hknown fun state' _ => succeeds_nil state'
  | .put _ tally inside, @Step.Sound.guard _ _ key given _ _ _ hinside =>
    have hentry : Entry.Grounded known [.node key given] := trivial
    refine succeeds_put hentry hknown fun state' hwritten => stats_runAll hinside fun k hk => ?_
    obtain ⟨ok, hok⟩ := state'.graph.exists_names
    rcases List.mem_cons.1 hk with rfl | hk
    · exact (Graph.mem_keys_applyAll? (hwritten.applied ok hok)).2
        (.inr ⟨given, List.mem_cons_self⟩)
    · exact hwritten.grows.mem_keys (hknown k hk)

/-- **Sound steps have no failures to count** where every id names its node. -/
theorem stats_runAll {known : List NodeKey} {steps : List Step} (h : ∀ s ∈ steps, s.Sound P known)
    {state : StoreState} (hknown : ∀ key ∈ known, key ∈ state.graph.keys) :
    Succeeds (writtenAll (fun _ => true) steps) (runAll steps) state := by
  match steps with
  | [] => exact succeeds_nil state
  | s :: rest =>
    intro stats r hnames
    have hrest : ∀ s' ∈ rest, s'.Sound P known := fun s' hs' => h s' (List.mem_cons_of_mem _ hs')
    obtain ⟨state₁, hstore₁, hwritten₁, -⟩ := Step.run_spec (h s List.mem_cons_self) hknown stats r
    have hfirst := Step.stats_run (h s List.mem_cons_self) hknown stats r
    rw [runAll] at hnames ⊢
    generalize hrun : s.run (⟨.ofState state, stats⟩, r) = result at hstore₁ hfirst hnames ⊢
    obtain ⟨⟨store, stats₁⟩, r₁⟩ := result
    obtain rfl : store = .ofState state₁ := hstore₁
    have hknown₁ : ∀ key ∈ known, key ∈ state₁.graph.keys :=
      fun key hkey => hwritten₁.grows.mem_keys (hknown key hkey)
    obtain ⟨state₂, hstore₂, hwritten₂, -⟩ := runAll_spec hrest hknown₁ stats₁ r₁
    have hnames₁ : state₁.graph.Names fun _ => true := by
      rw [hstore₂] at hnames
      exact Graph.Names.of_extends hnames hwritten₂.grows
    have hstats₁ : stats₁ = stats.succeedTimes (s.written fun _ => true).length := hfirst hnames₁
    rw [stats_runAll hrest hknown₁ stats₁ r₁ hnames, hstats₁, writtenAll, List.length_append,
      WriteStats.succeedTimes_add]

end

/-! ## Files -/

variable {index : ProjectIndex} {filter : NamespaceFilter}

theorem mem_keys_of_written_fileEntry {path : String} {state state' : StoreState}
    (h : StoreState.Written (fileEntry path).written state state') :
    (⟨.file, path⟩ : NodeKey) ∈ state'.graph.keys := by
  obtain ⟨ok, hok⟩ := state'.graph.exists_names
  exact (Graph.mem_keys_applyAll? (h.applied ok hok)).2 (.inr ⟨_, mem_written_fileEntry ok path⟩)

/-- A file whose ids all name their nodes has no failures to count. -/
theorem stats_processFile {file : SourceFile} {state state' : StoreState}
    {stats stats' : WriteStats} {report : FileReport}
    (h : processFile index filter file ⟨.ofState state, stats⟩ =
      some (⟨.ofState state', stats'⟩, report))
    (hnames : state'.graph.Names fun _ => true) :
    stats' = stats.succeedTimes (file.upserts index filter fun _ => true).length := by
  rw [processFile] at h
  split at h
  case isFalse => cases h
  case isTrue hjava =>
    have hnone : ∀ key ∈ ([] : List NodeKey), key ∈ state.graph.keys :=
      fun key hkey => by cases hkey
    obtain ⟨state₁, hstore₁, hwritten₁, hall₁⟩ :=
      (fileEntry file.path).record_spec (grounded_fileEntry file.path) hnone stats
    have hcount := @Entry.stats_record (fileEntry file.path) ⟨.ofState state, stats⟩
    generalize (fileEntry file.path).record ⟨.ofState state, stats⟩ =
      recorded at hstore₁ hall₁ hcount h
    obtain ⟨succeeded, store, stats₁⟩ := recorded
    obtain rfl : store = .ofState state₁ := hstore₁
    have hknown : ∀ key ∈ [(⟨.file, file.path⟩ : NodeKey)], key ∈ state₁.graph.keys :=
      fun key hkey => by
        cases List.mem_singleton.1 hkey
        exact mem_keys_of_written_fileEntry hwritten₁
    have hsteps := extract_sound index filter file
    obtain ⟨state₂, hstore₂, hwritten₂, -⟩ := runAll_spec hsteps hknown stats₁ { path := file.path }
    have hstats₂ := stats_runAll hsteps hknown stats₁ { path := file.path }
    have hrun := Option.some.inj h
    rw [hrun] at hstore₂ hstats₂
    obtain rfl : state' = state₂ := congrArg Store.state hstore₂
    have hfirst : succeeded = true :=
      (hall₁ _ (hnames.of_extends hwritten₂.grows)).trans (Entry.succeeds_true _)
    have hstats₁ : stats₁ = stats.succeedTimes (fileEntry file.path).length := hcount hfirst
    rw [SourceFile.upserts, if_pos hjava, Entry.written_true, List.length_append,
      WriteStats.succeedTimes_add, ← hstats₁]
    exact hstats₂ hnames

theorem stats_processFiles {files : List SourceFile} {state state' : StoreState}
    {stats : WriteStats} (h : (processFiles index filter files ⟨.ofState state, stats⟩).1.store =
      .ofState state')
    (hnames : state'.graph.Names fun _ => true) :
    (processFiles index filter files ⟨.ofState state, stats⟩).1.stats =
      stats.succeedTimes (files.flatMap (SourceFile.upserts index filter fun _ =>
        true)).length := by
  induction files generalizing state stats with
  | nil => rfl
  | cons file rest ih =>
    rw [List.flatMap_cons, List.length_append, WriteStats.succeedTimes_add]
    cases hjava : Path.isJavaSource file.path with
    | false =>
      have hprocess : processFile index filter file ⟨.ofState state, stats⟩ = none := by
        rw [processFile, if_neg (by simp [hjava])]
      have hupserts : (file.upserts index filter fun _ => true) = [] := by
        rw [SourceFile.upserts, if_neg (by simp [hjava])]
      simp only [processFiles, hprocess] at h ⊢
      rw [hupserts]
      exact ih h
    | true =>
      obtain ⟨state₁, stats₁, report, hprocess, hwritten₁, -⟩ :=
        processFile_spec index filter hjava state stats
      simp only [processFiles, hprocess] at h ⊢
      obtain ⟨state₂, hstore₂, hwritten₂, -⟩ := processFiles_spec index filter rest state₁ stats₁
      obtain rfl : state' = state₂ := congrArg Store.state (h.symm.trans hstore₂)
      rw [ih h, stats_processFile hprocess (hnames.of_extends hwritten₂.grows)]

/-- **No write of a pass fails.** From any connected store, and while the graph has room, the number
of failed writes stays and that of the others grows by all that the files have to write; and each
relationship finds both of its ends among what was there before and what was written before it. -/
theorem no_write_fails (index : ProjectIndex) (filter : NamespaceFilter) (files : List SourceFile)
    (state : StoreState) (stats : WriteStats)
    (hroom :
      (processFiles index filter files ⟨.ofState state, stats⟩).1.store.state.graph.nodes.size ≤
      0xffffffff) :
    let after := (processFiles index filter files ⟨.ofState state, stats⟩).1
    let upserts := files.flatMap (SourceFile.upserts index filter fun _ => true)
    after.stats.failed = stats.failed ∧ after.stats.succeeded = stats.succeeded + upserts.length ∧
      state.graph.applyAll? upserts = some after.store.state.graph ∧
      ∀ front start target relation back, upserts = front ++ .edge start target relation :: back →
        ∃ g, state.graph.applyAll? front = some g ∧ start ∈ g.keys ∧ target ∈ g.keys := by
  intro after upserts
  obtain ⟨state', hstore, hwritten, -⟩ := processFiles_spec index filter files state stats
  have hgraph : after.store.state.graph = state'.graph := congrArg (·.state.graph) hstore
  have hnames : state'.graph.Names fun _ => true := Graph.names_true (hgraph ▸ hroom)
  have hstats : after.stats = stats.succeedTimes upserts.length := stats_processFiles hstore hnames
  have happlied : state.graph.applyAll? upserts = some state'.graph := hwritten.applied _ hnames
  refine ⟨by rw [hstats, WriteStats.succeedTimes], by rw [hstats, WriteStats.succeedTimes],
    hgraph ▸ happlied, fun front start target relation back hupserts => ?_⟩
  rw [hupserts] at happlied
  exact Graph.mem_keys_of_applyAll? happlied

/-- A call is written before the method that it leads to is declared, into a store that holds the
caller without its class. -/
theorem no_write_fails_callingFiles :
    let state : StoreState := ⟨⟨#[Graph.freshNode ⟨.method, "A.m(B)"⟩], #[]⟩, Dict.empty⟩
    let after := (processFiles (.build callingFiles) ⟨[]⟩ callingFiles ⟨.ofState state, {}⟩).1
    after.store.state.graph.nodes.size ≤ 0xffffffff ∧ after.stats.failed = 0 := by
  intro state after
  have hroom : after.store.state.graph.nodes.size ≤ 0xffffffff := by decide +kernel
  exact ⟨hroom, (no_write_fails (.build callingFiles) ⟨[]⟩ callingFiles state {} hroom).1⟩

end Java

end CodeGraph
