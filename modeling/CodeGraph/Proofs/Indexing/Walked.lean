import CodeGraph.Proofs.Files.Walk
import CodeGraph.Proofs.Indexing.Exclusion
import CodeGraph.Proofs.Indexing.Passes
import CodeGraph.Proofs.Store.WellFormed

/-!
# Passes over walks

A pass over what a walk has found writes its directories and then processes its sources
(`indexWalk_eq`), whatever the store held before.

* `indexWalk_spec`: what it writes and counts is determined by the walk and by which ids name nodes.
* `files_add_length_parseFailures`: it counts every source, as read or as a failure.
* `indexProject_spec`: the pass over a directory leaves a well-formed store that is not empty.
-/

namespace CodeGraph

open Java Indexing

/-! ## Directories -/

/-- A directory is written alone or with its parent. -/
theorem directoryEntry_cases (root path : String) :
    directoryEntry root path = Entry.directory path ∨
      ∃ parent, path ≠ root ∧ directoryEntry root path = Entry.subdirectory parent path := by
  unfold directoryEntry
  split
  · split
    case isTrue h => exact .inr ⟨_, h.1, rfl⟩
    case isFalse => exact .inl rfl
  · exact .inl rfl

theorem grounded_directoryEntry (root path : String) : (directoryEntry root path).Grounded [] := by
  rcases directoryEntry_cases root path with h | ⟨parent, -, h⟩
  · exact h ▸ trivial
  · exact h ▸ ⟨List.mem_cons_of_mem _ List.mem_cons_self, List.mem_cons_self, trivial⟩

/-- Whatever ids there are, a directory of a walk comes with a node. -/
theorem exists_mem_written_directoryEntry (ok : NodeKey → Bool) (root path : String) :
    ∃ key given, Upsert.node key given ∈ (directoryEntry root path).written ok := by
  rcases directoryEntry_cases root path with h | ⟨parent, -, h⟩
  · exact h ▸ ⟨_, _, List.mem_cons_self⟩
  · exact h ▸ ⟨_, _, List.mem_cons_self⟩

/-- Writing directories writes their entries. -/
theorem recordDirectories_spec (root : String) (directories : List String) (state : StoreState)
    (stats : WriteStats) : ∃ state' stats',
      recordDirectories root directories ⟨.ofState state, stats⟩ = ⟨.ofState state', stats'⟩ ∧
      StoreState.Written (fun ok => directories.flatMap fun path =>
        (directoryEntry root path).written ok)
        state state' := by
  induction directories generalizing state stats with
  | nil => exact ⟨state, stats, rfl, .refl state⟩
  | cons path rest ih =>
    have hnone : ∀ key ∈ ([] : List NodeKey), key ∈ state.graph.keys :=
      fun key hkey => by cases hkey
    obtain ⟨state₁, hstore, hwritten, -⟩ :=
      (directoryEntry root path).record_spec (grounded_directoryEntry root path) hnone stats
    generalize hrecord : (directoryEntry root path).record ⟨.ofState state, stats⟩ =
      result at hstore
    obtain ⟨succeeded, store, stats₁⟩ := result
    cases hstore
    obtain ⟨state₂, stats₂, hrest, hwritten₂⟩ := ih state₁ stats₁
    refine ⟨state₂, stats₂, ?_, (hwritten.trans hwritten₂).congr fun ok _ => rfl⟩
    rw [recordDirectories, List.foldl_cons, hrecord]
    exact hrest

/-! ## Sources -/

/-- A pass over sources processes them in order and adds up what they report. -/
theorem recordSources_eq (index : ProjectIndex) (filter : NamespaceFilter) (files : List SourceFile)
    (report : IndexReport) (l : Ledger) :
    recordSources index filter files (report, l) =
      (((processFiles index filter files l).2.filterMap id).foldl IndexReport.absorb report,
        (processFiles index filter files l).1) := by
  induction files generalizing report l with
  | nil => rfl
  | cons file rest ih =>
    rw [recordSources, processFiles]
    cases processFile index filter file l with
    | none => exact ih report l
    | some p => exact ih (report.absorb p.2) p.1

theorem IndexReport.files_foldl_absorb (reports : List FileReport) (r : IndexReport) :
    (reports.foldl absorb r).files = r.files + reports.length := by
  induction reports generalizing r with
  | nil => rfl
  | cons f rest ih =>
    have hone : (r.absorb f).files = r.files + 1 := rfl
    rw [List.foldl_cons, ih, hone, List.length_cons, Nat.add_assoc, Nat.add_comm 1]

theorem IndexReport.parseFailures_foldl_absorb (reports : List FileReport) (r : IndexReport) :
    (reports.foldl absorb r).parseFailures = r.parseFailures := by
  induction reports generalizing r with
  | nil => rfl
  | cons f rest ih => exact ih (r.absorb f)

/-- Every Java source reports. -/
theorem length_reports {index : ProjectIndex} {filter : NamespaceFilter} {files : List SourceFile}
    (hjava : ∀ file ∈ files, Path.isJavaSource file.path = true) (ok : NodeKey → Bool) :
    ((files.map (SourceFile.report? index filter ok)).filterMap id).length = files.length := by
  induction files with
  | nil => rfl
  | cons file rest ih =>
    rw [List.map_cons, SourceFile.report?, if_pos (hjava file List.mem_cons_self)]
    exact congrArg (· + 1) (ih fun file' hfile' => hjava file' (List.mem_cons_of_mem _ hfile'))

/-- What could be read of the files that a walk lists. -/
def SourceWalk.sources (walk : SourceWalk) (parse : String → Tree)
    (read? : String → Option String) :
    List SourceFile :=
  walk.files.filterMap fun path => (read? path).map fun text => ⟨path, parse text⟩

theorem SourceWalk.map_path_sources (walk : SourceWalk) (parse : String → Tree)
    (read? : String → Option String) :
    (walk.sources parse read?).map (·.path) =
      walk.files.filter fun path => (read? path).isSome := by
  rw [sources]
  induction walk.files with
  | nil => rfl
  | cons path rest ih =>
    cases hread : read? path with
    | none => simp [hread, ih]
    | some text => simp [hread, ih]

theorem SourceWalk.path_mem_files (walk : SourceWalk) {parse : String → Tree}
    {read? : String → Option String} {file : SourceFile} (h : file ∈ walk.sources parse read?) :
    file.path ∈ walk.files := by
  have hmem : file.path ∈ (walk.sources parse read?).map (·.path) := List.mem_map_of_mem h
  rw [walk.map_path_sources] at hmem
  exact List.mem_of_mem_filter hmem

section

variable (filter : NamespaceFilter) (parse : String → Tree) (read? : String → Option String)

/-- A pass writes the directories, and then it processes the sources. -/
theorem indexWalk_eq (s : Store) (root : String) (walk : SourceWalk) :
    let pass := s.indexWalk filter parse read? root walk
    let sources := walk.sources parse read?
    let processed :=
      processFiles (.build sources) filter sources (recordDirectories root walk.directories ⟨s, {}⟩)
    pass.2 = processed.1.store ∧ pass.1.files = (processed.2.filterMap id).length ∧
      pass.1.parseFailures = walk.files.filter fun path => (read? path).isNone := by
  intro pass sources processed
  have hpass : pass = Store.indexWalk s filter parse read? root walk := rfl
  rw [Store.indexWalk] at hpass
  dsimp only at hpass
  rw [recordSources_eq] at hpass
  rw [hpass]
  refine ⟨rfl, (IndexReport.files_foldl_absorb _ _).trans (Nat.zero_add _), ?_⟩
  exact IndexReport.parseFailures_foldl_absorb _ _

/-- **A pass over a walk** writes its directories and what its sources say, and it
counts what these report. -/
theorem indexWalk_spec (root : String) (walk : SourceWalk) (state : StoreState) :
    let pass := (Store.ofState state).indexWalk filter parse read? root walk
    let sources := walk.sources parse read?
    ∃ state', pass.2 = .ofState state' ∧
      StoreState.Written (fun ok =>
        (walk.directories.flatMap fun path => (directoryEntry root path).written ok) ++
        sources.flatMap (SourceFile.upserts (.build sources) filter ok)) state state' ∧
      ∀ ok, state'.graph.Names ok →
        pass.1.files =
          ((sources.map (SourceFile.report? (.build sources) filter ok)).filterMap id).length := by
  intro pass sources
  obtain ⟨state₁, stats₁, hdirectories, hwritten₁⟩ :=
    recordDirectories_spec root walk.directories state {}
  obtain ⟨state₂, hstore, hwritten₂, hreports⟩ :=
    processFiles_spec (.build sources) filter sources state₁ stats₁
  obtain ⟨hpass, hfiles, -⟩ := indexWalk_eq filter parse read? (.ofState state) root walk
  rw [hdirectories] at hpass hfiles
  exact ⟨state₂, hpass.trans hstore, hwritten₁.trans hwritten₂, fun ok hok =>
    hreports ok hok ▸ hfiles⟩

variable {root : String} {walk : SourceWalk}

theorem files_indexWalk (hjava : ∀ path ∈ walk.files, Path.isJavaSource path = true)
    (state : StoreState) :
    ((Store.ofState state).indexWalk filter parse read? root walk).1.files =
      (walk.sources parse read?).length := by
  obtain ⟨state', -, -, hfiles⟩ := indexWalk_spec filter parse read? root walk state
  obtain ⟨ok, hok⟩ := state'.graph.exists_names
  exact (hfiles ok hok).trans
    (length_reports (fun file hfile => hjava _ (walk.path_mem_files hfile)) ok)

/-- **Every file that a walk lists** is counted: as read, or as a failure. -/
theorem files_add_length_parseFailures (hjava : ∀ path ∈ walk.files, Path.isJavaSource path = true)
    (state : StoreState) :
    let report := ((Store.ofState state).indexWalk filter parse read? root walk).1
    report.files + report.parseFailures.length = walk.files.length := by
  intro report
  have hsources : report.files = (walk.files.filter fun path => (read? path).isSome).length := by
    rw [files_indexWalk filter parse read? hjava, ← walk.map_path_sources parse read?,
      List.length_map]
  have hfailures := (indexWalk_eq filter parse read? (.ofState state) root walk).2.2
  have hsplit := List.length_eq_length_filter_add (l := walk.files) fun path => (read? path).isSome
  simp only [Option.not_isSome] at hsplit
  rw [hsources, hfailures, hsplit]

end

/-! ## Stores -/

theorem StoreState.Written.wellFormed {us : (NodeKey → Bool) → List Upsert}
    {state state' : StoreState} (h : StoreState.Written us state state')
    (hstate : state.WellFormed) : state'.WellFormed := by
  obtain ⟨ok, hok⟩ := state'.graph.exists_names
  have happlied := h.applied ok hok
  exact ⟨hstate.graph.applyAll? happlied, hstate.holdsKeys.applyAll? happlied,
    h.indexes ▸ hstate.indexes⟩

/-- **A pass over a directory** leaves a well-formed store that is not empty. -/
theorem indexProject_spec {s s' : Store} {settings : IndexingSettings} {parse : String → Tree}
    {files : FileTree} {path : String} {report : IndexReport} (hconnected : s.connected)
    (hs : s.state.WellFormed) (h : s.indexProject settings parse files path = .ok (report, s')) :
    s'.connected ∧ s'.state.WellFormed ∧
      ∀ root cs, files.resolve [] path = .ok root → files.find? root = some (.directory cs) →
        s'.state.graph.nodes.size ≠ 0 := by
  obtain ⟨state, connected⟩ := s
  cases hconnected
  obtain ⟨root, exclusion, hroot, -, hwalk⟩ := exists_walk_of_indexProject h
  obtain ⟨state', hpass, hwritten, -⟩ := indexWalk_spec ⟨settings.excludedNamespaces⟩ parse
    (fun path => (files.read? (Path.names path)).bind Text.decode?) (Path.ofNames root)
      (files.walk root exclusion)
    state
  obtain rfl : s' = .ofState state' := (congrArg Prod.snd hwalk).trans hpass
  refine ⟨rfl, hwritten.wellFormed hs, fun root' cs hroot' hcs => ?_⟩
  obtain rfl : root = root' := Except.ok.inj (hroot.symm.trans hroot')
  obtain ⟨ok, hok⟩ := state'.graph.exists_names
  obtain ⟨key, given, hmem⟩ :=
    exists_mem_written_directoryEntry ok (Path.ofNames root) (Path.ofNames root)
  have hkey : key ∈ state'.graph.keys := (Graph.mem_keys_applyAll? (hwritten.applied ok hok)).2
    (.inr ⟨given, List.mem_append_left _
      (List.mem_flatMap.2 ⟨_, FileTree.mem_directories_walk hcs exclusion, hmem⟩)⟩)
  intro hempty
  have hnodes : state'.graph.nodes.toList = [] := List.eq_nil_of_length_eq_zero hempty
  rw [Graph.keys, hnodes] at hkey
  cases hkey

end CodeGraph
