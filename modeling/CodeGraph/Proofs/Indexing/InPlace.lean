import CodeGraph.Indexing.Pass
import CodeGraph.Proofs.Store.Calls

/-!
# Indexing in place

`indexing` carries out a pass over a directory as a procedure on the store: the root is looked up,
the store is asked whether it answers and the exclusion patterns are read; then the directories and
the sources are written, each into the store that the one before it left.

* `on_indexing`: in place, a pass reports and leaves what `Store.indexProject` does.
* `refusals_leave_no_trace`: neither a refused call nor a refused pass changes the store, and what a
  disconnected store was asked has no influence on anything it answers later.
-/

namespace CodeGraph

open Java Indexing Procedure

/-- Write into the store and go on counting. -/
def entering (f : Ledger → Ledger) (stats : WriteStats) : Procedure IndexError WriteStats := do
  let l := f ⟨← get, stats⟩
  set l.store
  return l.stats

/-- Write what a source says about the code into the store, and report it. -/
def extracting (index : ProjectIndex) (filter : NamespaceFilter) (acc : IndexReport × WriteStats)
    (file : SourceFile) : Procedure IndexError (IndexReport × WriteStats) := do
  match processFile index filter file ⟨← get, acc.2⟩ with
  | some (l, r) => do
    set l.store
    return (acc.1.absorb r, l.stats)
  | none => return acc

/-- A pass over the directory that a path leads to, on a store in place. -/
def indexing (settings : IndexingSettings) (parse : String → Tree) (files : FileTree)
    (path : String) :
    Procedure IndexError IndexReport := do
  let names ← demand ((files.resolve [] path).mapError (.root path))
  demand ((← get).probe.mapError .store)
  let exclusion ← demand ((Exclusion.ofTexts settings.exclude).mapError .pattern)
  let root := Path.ofNames names
  let walk := files.walk names exclusion
  let stats ← walk.directories.foldlM
    (fun stats path => entering (fun l => ((directoryEntry root path).record l).2) stats) {}
  let read? (path : String) := (files.read? (Path.names path)).bind Text.decode?
  let sources := walk.files.filterMap fun path => (read? path).map fun text => ⟨path, parse text⟩
  let index := ProjectIndex.build sources
  let report : IndexReport := {
    root
    directories := walk.directories.length
    parseFailures := walk.files.filter fun path => (read? path).isNone
    types := index.typeCount }
  let (report, stats) ← sources.foldlM (extracting index ⟨settings.excludedNamespaces⟩)
      (report, stats)
  return { report with writes := stats }

theorem on_entering (f : Ledger → Ledger) (stats : WriteStats) (s : Store) :
    (entering f stats).on s = (.ok (f ⟨s, stats⟩).stats, (f ⟨s, stats⟩).store) := rfl

/-- Writing the directories in place is writing them with a ledger. -/
theorem on_foldlM_entering (root : String) (directories : List String) (stats : WriteStats)
    (s : Store) :
    (directories.foldlM
        (fun stats path => entering (fun l => ((directoryEntry root path).record l).2) stats)
          stats).on s =
      (.ok (recordDirectories root directories ⟨s, stats⟩).stats,
        (recordDirectories root directories ⟨s, stats⟩).store) := by
  induction directories generalizing stats s with
  | nil => rfl
  | cons path rest ih =>
    rw [List.foldlM_cons, on_bind_of_ok (on_entering _ stats s), ih]
    rfl

theorem on_extracting (index : ProjectIndex) (filter : NamespaceFilter) (report : IndexReport)
    (stats : WriteStats) (file : SourceFile) (s : Store) :
    (extracting index filter (report, stats) file).on s =
      match processFile index filter file ⟨s, stats⟩ with
      | some (l, r) => (.ok (report.absorb r, l.stats), l.store)
      | none => (.ok (report, stats), s) := by
  rw [extracting, on_bind_of_ok (on_get s)]
  cases processFile index filter file ⟨s, stats⟩ with
  | none => rfl
  | some p => rfl

/-- Writing the sources in place is writing them with a ledger. -/
theorem on_foldlM_extracting (index : ProjectIndex) (filter : NamespaceFilter)
    (sources : List SourceFile) (report : IndexReport) (stats : WriteStats) (s : Store) :
    let r := recordSources index filter sources (report, ⟨s, stats⟩)
    (sources.foldlM (extracting index filter) (report, stats)).on s =
      (.ok (r.1, r.2.stats), r.2.store) := by
  induction sources generalizing report stats s with
  | nil => rfl
  | cons file rest ih =>
    have hstep := on_extracting index filter report stats file s
    rw [List.foldlM_cons, recordSources]
    cases hprocess : processFile index filter file ⟨s, stats⟩ with
    | none =>
      rw [hprocess] at hstep
      rw [on_bind_of_ok hstep]
      exact ih report stats s
    | some p =>
      obtain ⟨l, r⟩ := p
      rw [hprocess] at hstep
      rw [on_bind_of_ok hstep]
      exact ih (report.absorb r) l.stats l.store

/-- **In place, a pass reports and leaves what the pass of the store does.** -/
theorem on_indexing (settings : IndexingSettings) (parse : String → Tree) (files : FileTree)
    (path : String) (s : Store) :
    (indexing settings parse files path).on s =
      s.settled (s.indexProject settings parse files path) := by
  rw [indexing, Store.indexProject]
  cases files.resolve [] path with
  | error e => rfl
  | ok names =>
    rw [on_bind_of_ok (on_demand_mapError _ names s), on_bind_of_ok (on_get s)]
    cases s.probe with
    | error e => rfl
    | ok =>
      rw [on_bind_of_ok (on_demand_mapError _ () s)]
      cases Exclusion.ofTexts settings.exclude with
      | error e => rfl
      | ok exclusion =>
        rw [on_bind_of_ok (on_demand_mapError _ exclusion s),
          on_bind_of_ok (on_foldlM_entering _ _ _ s),
          on_bind_of_ok (on_foldlM_extracting _ _ _ _ _ _)]
        rfl

/-! ## Refusals -/

section Refusals

open Store

/-- **Refusals leave no trace.** A call that is refused, done in place, leaves the graph and the
vector indexes exactly as they were, and so does a pass that is refused. While it is disconnected a
store refuses every call as unavailable; the state it is in and the answers it gives after it is
connected again are those of a store that never got the calls made in between. -/
theorem refusals_leave_no_trace :
    (∀ (c : Call) (s : Store), c.procedure.on s = s.settled (c.perform s)) ∧
    (∀ (c : Call) (s s' : Store) (e : SnapshotError), c.procedure.on s = (.error e, s') → s' = s) ∧
    (∀ (c : Call) (s : Store), s.connected = false →
      c.procedure.on s = (.error (.store .unavailable), s)) ∧
    (∀ (before later : List Event) (s : Store),
      (Event.session s (Event.heard s.connected before)).2 = (Event.session s before).2 ∧
      (Event.session s (before ++ later)).1 =
        (Event.session s before).1 ++
          (Event.session (Event.session s (Event.heard s.connected before)).2 later).1) ∧
    ∀ (settings : IndexingSettings) (parse : String →
      Tree) (files : FileTree) (path : String) (s : Store),
      (indexing settings parse files path).on s =
        s.settled (s.indexProject settings parse files path) ∧
      ∀ (e : IndexError) (s' : Store),
        (indexing settings parse files path).on s = (.error e, s') → s' = s := by
  refine ⟨Call.on_procedure, fun c s s' e h => Call.eq_of_on_procedure h,
    fun c s h => Call.on_procedure_of_disconnected h c,
    fun before later s => ⟨Event.session_heard before s, Event.answers_append before later s⟩,
    fun settings parse files path s => ?_⟩
  have hpass := on_indexing settings parse files path s
  refine ⟨hpass, fun e s' h => ?_⟩
  rw [hpass] at h
  exact eq_of_settled h

/-- A relationship to a class that is not there, a call while there is no connection and a pass over
a directory then are refused. -/
theorem refusals_leave_no_trace_of_missing_class :
    let a : NodeKey := ⟨.classType, "A"⟩
    let b : NodeKey := ⟨.classType, "B"⟩
    let s : Store := ofState ⟨(Graph.empty.mergeNode a Dict.empty).1, Dict.empty⟩
    let link : Call := .mergeEdge a b .extends
    link.procedure.on s = (.error (.store (.missingEndpoint b)), s) ∧
    (Call.mergeNode b Dict.empty).procedure.on s.disconnect =
      (.error (.store .unavailable), s.disconnect) ∧
    (indexing {} (fun _ => default) .empty "/").on s.disconnect =
      (.error (.store .unavailable), s.disconnect) := by
  intro a b s link
  have hstart : s.state.graph.find? a = some 0 := by decide +kernel
  have htarget : s.state.graph.find? b = none := by decide +kernel
  have hlink : (link.procedure.on s).1 = .error (.store (.missingEndpoint b)) := by
    have hopened : Call.opened.on s = (.ok s.state, s) := Call.on_opened s.state
    rw [Call.procedure, on_bind_of_ok hopened, hstart,
      on_bind_of_ok (Call.on_present_some 0 _ s), htarget]
    rfl
  have hpass : ((indexing {} (fun _ => default) .empty "/").on s.disconnect).1 =
      .error (.store .unavailable) := rfl
  refine ⟨?_, refusals_leave_no_trace.2.2.1 (.mergeNode b Dict.empty) s.disconnect rfl, ?_⟩
  · exact Prod.ext hlink (refusals_leave_no_trace.2.1 link s _ _ (Prod.ext hlink rfl))
  · exact Prod.ext hpass
      ((refusals_leave_no_trace.2.2.2.2 {} (fun _ => default) .empty "/" s.disconnect).2 _ _
        (Prod.ext hpass rfl))

end Refusals

end CodeGraph
