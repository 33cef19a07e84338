import CodeGraph.Proofs.Java.Collected
import CodeGraph.Proofs.Java.Written

/-!
# Passes over files

A pass processes a list of files one after another (`processFiles`). Given the index, what it writes
and reports is determined by the files and by which ids name their nodes (`processFiles_spec`). The
store enters nowhere else.

* `processFiles_twice`: a second pass over the same files changes nothing and reports the same. The
  index may be built anew in between if no two files declare one type.
* `not_repeats_sharedType`: if two files do, a new index may let the second pass
  find another method.
* `mem_links_iff_typeLinks`: which relationships to supertypes and methods a pass
  over an empty store leaves.
-/

namespace CodeGraph.Java

/-- Process files in order. -/
def processFiles (index : ProjectIndex) (filter : NamespaceFilter) :
    List SourceFile → Ledger → Ledger × List (Option FileReport)
  | [], ledger => (ledger, [])
  | file :: rest, ledger =>
    match processFile index filter file ledger with
    | some (ledger, report) =>
      let (ledger, reports) := processFiles index filter rest ledger
      (ledger, some report :: reports)
    | none =>
      let (ledger, reports) := processFiles index filter rest ledger
      (ledger, none :: reports)

/-- What a file writes, `ok` saying whose ids name them. -/
def SourceFile.upserts (index : ProjectIndex) (filter : NamespaceFilter) (ok : NodeKey → Bool)
    (file : SourceFile) : List Upsert :=
  if Path.isJavaSource file.path then
    (fileEntry file.path).written ok ++ writtenAll ok (extract index filter file)
  else []

/-- What a file reports. -/
def SourceFile.report? (index : ProjectIndex) (filter : NamespaceFilter) (ok : NodeKey → Bool)
    (file : SourceFile) : Option FileReport :=
  if Path.isJavaSource file.path then
    some (reportedAll ok (extract index filter file) { path := file.path })
  else none

variable {index : ProjectIndex} {filter : NamespaceFilter}

theorem grounded_fileEntry (path : String) : (fileEntry path).Grounded [] := by
  unfold fileEntry
  split
  · exact ⟨List.mem_cons_of_mem _ List.mem_cons_self, List.mem_cons_self, trivial⟩
  · trivial

/-- Whatever ids there are, a file's own node is written. -/
theorem mem_written_fileEntry (ok : NodeKey → Bool) (path : String) :
    .node ⟨.file, path⟩ (Dict.ofList [("type", .text "java")]) ∈ (fileEntry path).written ok := by
  unfold fileEntry
  split
  · exact List.mem_cons_of_mem _ List.mem_cons_self
  · exact List.mem_cons_self

/-- All that a file writes has an origin in it. -/
theorem origin_of_mem_upserts {file : SourceFile} {ok : NodeKey → Bool} {u : Upsert}
    (h : u ∈ file.upserts index filter ok) :
    Origin index file.path (file.Declares dotted (walkScope index file).qualify) u := by
  have hentry (hu : u ∈ fileEntry file.path) :
      Origin index file.path (file.Declares dotted (walkScope index file).qualify) u := by
    unfold fileEntry at hu
    split at hu
    · rcases List.mem_cons.1 hu with rfl | hu
      · exact .stub
      · rcases List.mem_cons.1 hu with rfl | hu
        · exact .file
        · cases List.mem_singleton.1 hu
          exact .edge (by decide)
    · cases List.mem_singleton.1 hu
      exact .file
  unfold SourceFile.upserts at h
  split at h
  · rcases List.mem_append.1 h with h | h
    · exact hentry (Entry.mem_of_mem_written h)
    · exact sound_of_mem_writtenAll (extract_sound index filter file) h
  · cases h

/-- Processing a file writes and reports what the file alone determines. -/
theorem processFile_spec (index : ProjectIndex) (filter : NamespaceFilter) {file : SourceFile}
    (hjava : Path.isJavaSource file.path = true) (state : StoreState) (stats : WriteStats) :
    ∃ state' stats' report, processFile index filter file ⟨.ofState state, stats⟩ =
        some (⟨.ofState state', stats'⟩, report) ∧
      StoreState.Written (file.upserts index filter) state state' ∧
      ∀ ok, state'.graph.Names ok → some report = file.report? index filter ok := by
  have hnone : ∀ key ∈ ([] : List NodeKey), key ∈ state.graph.keys := fun key hkey => by cases hkey
  obtain ⟨state₁, hstore₁, hwritten₁, -⟩ :=
    (fileEntry file.path).record_spec (grounded_fileEntry file.path) hnone stats
  -- the file's own node is what its steps start from
  have hknown : ∀ key ∈ [(⟨.file, file.path⟩ : NodeKey)], key ∈ state₁.graph.keys := by
    intro key hkey
    obtain ⟨ok, hok⟩ := state₁.graph.exists_names
    cases List.mem_singleton.1 hkey
    exact (Graph.mem_keys_applyAll? (hwritten₁.applied ok hok)).2
      (.inr ⟨_, mem_written_fileEntry ok file.path⟩)
  generalize hrecord : (fileEntry file.path).record ⟨.ofState state, stats⟩ = recorded at hstore₁
  obtain ⟨succeeded, store, stats₁⟩ := recorded
  cases hstore₁
  obtain ⟨state₂, hstore₂, hwritten₂, hreport⟩ :=
    runAll_spec (extract_sound index filter file) hknown stats₁ { path := file.path }
  generalize hrun : runAll (extract index filter file) (⟨.ofState state₁, stats₁⟩,
    { path := file.path }) =
    result at hstore₂ hreport
  obtain ⟨⟨store, stats₂⟩, report⟩ := result
  cases hstore₂
  refine ⟨state₂, stats₂, report, ?_, ?_, fun ok hok => ?_⟩
  · simp only [processFile, hjava, if_true, hrecord]
    exact congrArg some hrun
  · refine (hwritten₁.trans hwritten₂).congr fun ok _ => ?_
    rw [SourceFile.upserts, if_pos hjava]
  · rw [SourceFile.report?, if_pos hjava]
    exact congrArg some (hreport ok hok)

/-- **A pass writes and reports what the files determine**, file after file. -/
theorem processFiles_spec (index : ProjectIndex) (filter : NamespaceFilter)
    (files : List SourceFile) (state : StoreState) (stats : WriteStats) :
    ∃ state', (processFiles index filter files ⟨.ofState state, stats⟩).1.store = .ofState state' ∧
      StoreState.Written (fun ok => files.flatMap (SourceFile.upserts index filter ok))
        state state' ∧
      ∀ ok, state'.graph.Names ok → (processFiles index filter files ⟨.ofState state, stats⟩).2 =
        files.map (SourceFile.report? index filter ok) := by
  induction files generalizing state stats with
  | nil => exact ⟨state, rfl, .refl state, fun _ _ => rfl⟩
  | cons file rest ih =>
    cases hjava : Path.isJavaSource file.path with
    | false =>
      obtain ⟨state', hstore, hwritten, hreports⟩ := ih state stats
      have hprocess : processFile index filter file ⟨.ofState state, stats⟩ = none := by
        rw [processFile, if_neg (by simp [hjava])]
      simp only [processFiles, hprocess]
      refine ⟨state', hstore, hwritten.congr fun ok _ => ?_, fun ok hok => ?_⟩
      · rw [List.flatMap_cons, SourceFile.upserts, if_neg (by simp [hjava]), List.nil_append]
      · rw [List.map_cons, SourceFile.report?, if_neg (by simp [hjava])]
        exact congrArg _ (hreports ok hok)
    | true =>
      obtain ⟨state₁, stats₁, report, hprocess, hwritten₁, hreport⟩ :=
        processFile_spec index filter hjava state stats
      obtain ⟨state₂, hstore, hwritten₂, hreports⟩ := ih state₁ stats₁
      simp only [processFiles, hprocess]
      refine ⟨state₂, hstore, (hwritten₁.trans hwritten₂).congr fun ok _ => rfl, fun ok hok => ?_⟩
      rw [List.map_cons, ← hreport ok (hok.of_extends hwritten₂.grows)]
      exact congrArg _ (hreports ok hok)

/-- After a pass with one index, a pass with another leaves the store as it is and
reports the same. -/
def Repeats (index index' : ProjectIndex) (filter : NamespaceFilter) (files : List SourceFile)
    (ledger : Ledger) (stats : WriteStats) : Prop :=
  let first := processFiles index filter files ledger
  let second := processFiles index' filter files ⟨first.1.store, stats⟩
  second.1.store = first.1.store ∧ second.2 = first.2

/-- A file with `class type { void method() {} }`, without the parts that nothing reads. -/
def typeFile (path type method : String) : SourceFile where
  path := path
  root := .mk "program" true "" "" 1 1
    [.mk "class_declaration" true "" "" 1 1
      [.mk "identifier" true "name" type 1 1 [],
       .mk "class_body" true "body" "" 1 1
        [.mk "method_declaration" true "" "" 1 1
          [.mk "void_type" true "type" "void" 1 1 [],
           .mk "identifier" true "name" method 1 1 [],
           .mk "formal_parameters" true "parameters" "" 1 1 [],
           .mk "block" true "body" "" 1 1 []]]]]

/-- `class C { void m(X x) { x.a(); } }`, without the parts that nothing reads. -/
def callerFile : SourceFile where
  path := "/p/C.java"
  root := .mk "program" true "" "" 1 1
    [.mk "class_declaration" true "" "" 1 1
      [.mk "identifier" true "name" "C" 1 1 [],
       .mk "class_body" true "body" "" 1 1
        [.mk "method_declaration" true "" "" 1 1
          [.mk "void_type" true "type" "void" 1 1 [],
           .mk "identifier" true "name" "m" 1 1 [],
           .mk "formal_parameters" true "parameters" "" 1 1
            [.mk "formal_parameter" true "" "" 1 1
              [.mk "type_identifier" true "type" "X" 1 1 [],
               .mk "identifier" true "name" "x" 1 1 []]],
           .mk "block" true "body" "" 1 1
            [.mk "expression_statement" true "" "" 1 1
              [.mk "method_invocation" true "" "" 1 1
                [.mk "identifier" true "object" "x" 1 1 [],
                 .mk "identifier" true "name" "a" 1 1 [],
                 .mk "argument_list" true "arguments" "" 1 1 []]]]]]]]

/-- Without the last hypothesis a new index may say something else: of two types `X`, each in a file
of its own, only one has the method that is called, and the pass that finds this one writes and
reports a call more than the pass before. -/
theorem not_repeats_sharedType :
    let files := [typeFile "/p/one/X.java" "X" "a", typeFile "/p/two/X.java" "X" "b", callerFile]
    let index := ProjectIndex.build files.reverse
    let index' := ProjectIndex.build files
    ProjectIndex.BuiltFrom files index ∧ ProjectIndex.BuiltFrom files index' ∧
      files.Pairwise ProjectIndex.PathsApart ∧
      ¬Repeats index index' ⟨[]⟩ files ⟨.ofState .empty, {}⟩ {} := by
  intro files index index'
  have hreports : (processFiles index ⟨[]⟩ files ⟨.ofState .empty, {}⟩).2.map (·.map (·.calls)) ≠
      (processFiles index' ⟨[]⟩ files
        ⟨(processFiles index ⟨[]⟩ files ⟨.ofState .empty, {}⟩).1.store, {}⟩).2.map
          (·.map (·.calls)) := by decide +kernel
  refine ⟨ProjectIndex.builtFrom_build_of_perm files.reverse_perm.symm,
    ProjectIndex.builtFrom_build_of_perm (List.Perm.refl files), by decide +kernel, fun h => ?_⟩
  exact hreports (congrArg _ h.2.symm)

/-! ## From the empty store -/

/-- A pass over files, from the empty store. -/
def indexFiles (filter : NamespaceFilter) (files : List SourceFile) :
    Ledger × List (Option FileReport) :=
  processFiles (ProjectIndex.build files) filter files ⟨.ofState .empty, {}⟩

/-- The graph that it leaves. -/
def indexedGraph (filter : NamespaceFilter) (files : List SourceFile) : Graph :=
  (indexFiles filter files).1.store.state.graph

/-- What it writes if every id names its node. -/
def upsertsOf (filter : NamespaceFilter) (files : List SourceFile) : List Upsert :=
  files.flatMap (SourceFile.upserts (.build files) filter fun _ => true)

variable {files : List SourceFile}

theorem indexFiles_spec {ok : NodeKey → Bool} (hok : (indexedGraph filter files).Names ok) :
    Graph.empty.applyAll? (files.flatMap (SourceFile.upserts (.build files) filter ok)) =
        some (indexedGraph filter files) ∧
      (indexFiles filter files).2 = files.map (SourceFile.report? (.build files) filter ok) := by
  obtain ⟨state, hstore, hwritten, hreports⟩ :=
    processFiles_spec (.build files) filter files .empty {}
  have hgraph : indexedGraph filter files = state.graph := by
    rw [indexedGraph, indexFiles, hstore]
    rfl
  rw [hgraph] at hok ⊢
  exact ⟨hwritten.applied ok hok, hreports ok hok⟩

theorem wellFormed_indexedGraph (filter : NamespaceFilter) (files : List SourceFile) :
    (indexedGraph filter files).WellFormed := by
  obtain ⟨ok, hok⟩ := (indexedGraph filter files).exists_names
  exact Graph.wellFormed_empty.applyAll? (indexFiles_spec hok).1

/-- In a small graph all that the files have to say is written. -/
theorem applyAll?_upsertsOf (h : (indexedGraph filter files).nodes.size < 0xffffffff) :
    Graph.empty.applyAll? (upsertsOf filter files) = some (indexedGraph filter files) :=
  (indexFiles_spec (Graph.names_true (Nat.le_of_lt h))).1

theorem upserts_subset (ok : NodeKey → Bool) (file : SourceFile) :
    file.upserts index filter ok ⊆ file.upserts index filter fun _ => true := by
  unfold SourceFile.upserts
  split
  · rw [Entry.written_true]
    exact fun u hu => List.mem_append.2 ((List.mem_append.1 hu).imp Entry.mem_of_mem_written
      (writtenAll_subset ok _ ·))
  · exact List.Subset.refl _

/-- However large the graph, its nodes are ones that the files write. -/
theorem exists_mem_upsertsOf {key : NodeKey} (h : key ∈ (indexedGraph filter files).keys) :
    ∃ given, .node key given ∈ upsertsOf filter files := by
  obtain ⟨ok, hok⟩ := (indexedGraph filter files).exists_names
  obtain ⟨given, hmem⟩ := (Graph.mem_keys_of_applyAll?_empty (indexFiles_spec hok).1).1 h
  obtain ⟨file, hfile, hmem⟩ := List.mem_flatMap.1 hmem
  exact ⟨given, List.mem_flatMap.2 ⟨file, hfile, upserts_subset ok file hmem⟩⟩

theorem mem_upsertsOf_of_mem_extract (hjava : ∀ file ∈ files, Path.isJavaSource file.path = true)
    {file : SourceFile} (hfile : file ∈ files) {u : Upsert}
    (hu : u ∈ writtenAll (fun _ => true) (extract (.build files) filter file)) :
    u ∈ upsertsOf filter files := by
  refine List.mem_flatMap.2 ⟨file, hfile, ?_⟩
  rw [SourceFile.upserts, if_pos (hjava file hfile)]
  exact List.mem_append_right _ hu

theorem notMem_ownRelations_of_mem_fileEntry {path : String} {start target : NodeKey}
    {relation : Relation} (h : .edge start target relation ∈ fileEntry path) :
    relation ∉ ownRelations := by
  unfold fileEntry at h
  split at h
  · rcases List.mem_cons.1 h with h | h
    · cases h
    · rcases List.mem_cons.1 h with h | h
      · cases h
      · cases List.mem_singleton.1 h
        decide
  · cases List.mem_singleton.1 h

/-- **The relationships to supertypes and methods** are those of the types that the
walks of the files come to. -/
theorem mem_links_iff_typeLinks (hjava : ∀ file ∈ files, Path.isJavaSource file.path = true)
    (hsmall : (indexedGraph filter files).nodes.size < 0xffffffff) {start target : NodeKey}
    {relation : Relation} (hown : relation ∈ ownRelations) :
    some ⟨start, target, relation⟩ ∈ (indexedGraph filter files).links ↔
      ∃ file ∈ files, ∃ ctx outer q d, file.Reaches (.build files) ctx outer q d ∧
        TypeLinks (.build files) ctx q d start target relation := by
  rw [Graph.mem_links_of_applyAll?_empty (applyAll?_upsertsOf hsmall) hsmall]
  constructor
  · intro hmem
    obtain ⟨file, hfile, hmem⟩ := List.mem_flatMap.1 hmem
    rw [SourceFile.upserts, if_pos (hjava file hfile)] at hmem
    rcases List.mem_append.1 hmem with hmem | hmem
    · exact absurd hown (notMem_ownRelations_of_mem_fileEntry (Entry.mem_of_mem_written hmem))
    · exact ⟨file, hfile, (mem_written_iff_typeLinks hown).1 hmem⟩
  · rintro ⟨file, hfile, hlinks⟩
    exact mem_upsertsOf_of_mem_extract hjava hfile ((mem_written_iff_typeLinks hown).2 hlinks)

end CodeGraph.Java
