import CodeGraph.Java.Extraction
import CodeGraph.Proofs.Writing.Upserts

/-!
# What steps write and report

An upsert of a node always succeeds, one of a relationship if its ends exist and their ids name
them. In steps that are *sound* the ends always exist, because a relationship is only ever put
between nodes that the entry itself, an entry it stands under or the file has written before
(`Step.Sound`). What is written and reported then depends on the steps and on which ids name their
nodes, and on nothing else that is in the store (`Step.written`, `Step.reported`).

* `runAll_spec`: running sound steps.
-/

namespace CodeGraph

/-- Whether an upsert succeeds when its ends exist, `ok` saying whose ids name them. -/
def Upsert.fits (ok : NodeKey → Bool) : Upsert → Bool
  | .node _ _ => true
  | .edge start target _ => ok start && ok target

/-- The upserts of an entry before the first one that fails. -/
def Entry.written (ok : NodeKey → Bool) (entry : Entry) : List Upsert := entry.takeWhile (·.fits ok)

/-- Whether all of an entry succeeds. -/
def Entry.succeeds (ok : NodeKey → Bool) (entry : Entry) : Bool := entry.all (·.fits ok)

/-- Every end of a relationship is a known node or one that the entry has written before. -/
def Entry.Grounded : (known : List NodeKey) → Entry → Prop
  | _, [] => True
  | known, .node key _ :: rest => Entry.Grounded (key :: known) rest
  | known, .edge start target _ :: rest =>
    start ∈ known ∧ target ∈ known ∧ Entry.Grounded known rest

/-- What `ok` says of the nodes of a graph is whether their ids name them. -/
def Graph.Names (g : Graph) (ok : NodeKey → Bool) : Prop :=
  ∀ key id, g.find? key = some id → ok key = (Graph.slot? id).isSome

/-- One store state comes of another by upserts, which may depend on whose ids name them. -/
structure StoreState.Written (us : (NodeKey → Bool) → List Upsert) (state state' : StoreState) :
    Prop where
  indexes : state'.indexes = state.indexes
  grows : state.graph.Extends state'.graph
  applied : ∀ ok, state'.graph.Names ok → state.graph.applyAll? (us ok) = some state'.graph

theorem Graph.Names.of_extends {g g' : Graph} {ok : NodeKey → Bool} (h : g'.Names ok)
    (hg : g.Extends g') : g.Names ok :=
  fun key id hid => h key id (hg.find?_eq_some hid)

/-- Within the room for nodes that a graph has, every id names its node. -/
theorem Graph.names_true {g : Graph} (h : g.nodes.size ≤ 0xffffffff) : g.Names fun _ => true := by
  intro key id hid
  rw [slot?_of_lt (Nat.lt_of_lt_of_le (find?_lt hid) h)]
  rfl

/-- Every graph says whose ids name them. -/
theorem Graph.exists_names (g : Graph) : ∃ ok, g.Names ok :=
  ⟨fun key => ((g.find? key).bind slot?).isSome,
    fun key id hid => by simp only [hid, Option.bind_some]⟩

namespace StoreState.Written

theorem refl (state : StoreState) : Written (fun _ => []) state state :=
  ⟨rfl, .refl _, fun _ _ => rfl⟩

theorem trans {us us' : (NodeKey → Bool) → List Upsert} {s s' s'' : StoreState}
    (h : Written us s s') (h' : Written us' s' s'') :
    Written (fun ok => us ok ++ us' ok) s s'' where
  indexes := h'.indexes.trans h.indexes
  grows := h.grows.trans h'.grows
  applied ok hok := by
    rw [Graph.applyAll?_append, h.applied ok (hok.of_extends h'.grows), Option.bind_some,
      h'.applied ok hok]

theorem congr {us us' : (NodeKey → Bool) → List Upsert} {s s' : StoreState} (h : Written us s s')
    (hus : ∀ ok, s'.graph.Names ok → us ok = us' ok) : Written us' s s' :=
  ⟨h.indexes, h.grows, fun ok hok => hus ok hok ▸ h.applied ok hok⟩

end StoreState.Written

/-! ## Entries -/

theorem Entry.mem_of_mem_written {ok : NodeKey → Bool} {entry : Entry} {u : Upsert}
    (h : u ∈ entry.written ok) : u ∈ entry :=
  List.takeWhile_subset _ h

theorem Entry.written_true (entry : Entry) : entry.written (fun _ => true) = entry := by
  induction entry with
  | nil => rfl
  | cons u rest ih =>
    have hfits : u.fits (fun _ => true) = true := by cases u <;> rfl
    rw [written, List.takeWhile_cons, if_pos hfits]
    exact congrArg _ ih

theorem Entry.succeeds_true (entry : Entry) : entry.succeeds (fun _ => true) := by
  refine List.all_eq_true.2 fun u _ => ?_
  cases u <;> rfl

/-- An upsert whose ends exist succeeds exactly if their ids name them. -/
theorem Upsert.graph?_edge_of_mem {g : Graph} {start target : NodeKey} {relation : Relation}
    {ok : NodeKey → Bool} (hok : g.Names ok) (hstart : start ∈ g.keys) (htarget : target ∈ g.keys) :
    ((Upsert.edge start target relation).graph? g).isSome =
      (Upsert.edge start target relation).fits ok := by
  obtain ⟨a, ha⟩ := Option.isSome_iff_exists.1 (Graph.isSome_find?_iff.2 hstart)
  obtain ⟨b, hb⟩ := Option.isSome_iff_exists.1 (Graph.isSome_find?_iff.2 htarget)
  -- the id of a node that exists names nothing or something that exists
  have hslot {key : NodeKey} {id : NodeId} (hid : g.find? key = some id) :
      (g.position? id).isSome = ok key := by
    rw [hok key id hid, Graph.position?]
    cases hs : Graph.slot? id with
    | none => rfl
    | some i =>
      have hle : i ≤ id := by
        simp only [Graph.slot?] at hs
        split at hs
        · cases hs
        · cases hs
          exact Nat.mod_le id _
      rw [Option.filter_some, if_pos (decide_eq_true (Nat.lt_of_le_of_lt hle (Graph.find?_lt hid)))]
  simp only [graph?, ha, hb, Option.bind_some, Option.isSome_map, fits, ← hslot ha, ← hslot hb]
  cases hmerge : g.mergeEdge a b relation with
  | none =>
    rcases Graph.mergeEdge_eq_none_iff.1 hmerge with hnone | hnone <;> simp [hnone]
  | some r =>
    have hne : ¬(g.position? a = none ∨ g.position? b = none) := fun hnone => by
      rw [Graph.mergeEdge_eq_none_iff.2 hnone] at hmerge
      cases hmerge
    rw [not_or, ← Ne, ← Ne, ← Option.isSome_iff_ne_none, ← Option.isSome_iff_ne_none] at hne
    rw [hne.1, hne.2]
    rfl

/-- What recording a grounded entry does to a connected store. -/
theorem Entry.record_spec {known : List NodeKey} {entry : Entry} (h : entry.Grounded known)
    {state : StoreState} (hknown : ∀ key ∈ known, key ∈ state.graph.keys) (stats : WriteStats) :
    ∃ state', (entry.record ⟨.ofState state, stats⟩).2.store = .ofState state' ∧
      StoreState.Written entry.written state state' ∧
      ∀ ok, state'.graph.Names ok →
        (entry.record ⟨.ofState state, stats⟩).1 = entry.succeeds ok := by
  induction entry generalizing known state stats with
  | nil => exact ⟨state, rfl, .refl state, fun _ _ => rfl⟩
  | cons u rest ih =>
    -- either the upsert fails and nothing is written, or it succeeds and the rest goes on
    have hfails (hu : u.graph? state.graph = none)
        (hfits : ∀ ok, state.graph.Names ok → u.fits ok = false) :
        ∃ state', (Entry.record (u :: rest) ⟨.ofState state, stats⟩).2.store = .ofState state' ∧
          StoreState.Written (Entry.written · (u :: rest)) state state' ∧
          ∀ ok, state'.graph.Names ok →
            (Entry.record (u :: rest) ⟨.ofState state, stats⟩).1 =
              Entry.succeeds ok (u :: rest) := by
      have hrecord : Entry.record (u :: rest) ⟨.ofState state, stats⟩ =
          (false, ⟨.ofState state, stats.fail⟩) := by
        simp only [Entry.record, Upsert.apply?_ofState, hu, Option.map_none]
      rw [hrecord]
      refine ⟨state, rfl, (StoreState.Written.refl state).congr fun ok hok => ?_, fun ok hok => ?_⟩
      · rw [Entry.written, List.takeWhile_cons, hfits ok hok]
        rfl
      · rw [Entry.succeeds, List.all_cons, hfits ok hok]
        rfl
    have hgoes (graph : Graph) (known' : List NodeKey) (hu : u.graph? state.graph = some graph)
        (hfits : ∀ ok, graph.Names ok → u.fits ok = true) (hrest : Entry.Grounded known' rest)
        (hknown' : ∀ key ∈ known', key ∈ graph.keys) :
        ∃ state', (Entry.record (u :: rest) ⟨.ofState state, stats⟩).2.store = .ofState state' ∧
          StoreState.Written (Entry.written · (u :: rest)) state state' ∧
          ∀ ok, state'.graph.Names ok →
            (Entry.record (u :: rest) ⟨.ofState state, stats⟩).1 =
              Entry.succeeds ok (u :: rest) := by
      have hrecord : Entry.record (u :: rest) ⟨.ofState state, stats⟩ =
          Entry.record rest ⟨.ofState { state with graph }, stats.succeed⟩ := by
        simp only [Entry.record, Upsert.apply?_ofState, hu, Option.map_some]
      have hstep : StoreState.Written (fun _ => [u]) state { state with graph } :=
        ⟨rfl, Graph.extends_graph? hu, fun ok _ => by
          rw [Graph.applyAll?_cons, hu, Option.bind_some, Graph.applyAll?_nil]⟩
      have hstate : ∀ key ∈ known', key ∈ (⟨graph, state.indexes⟩ : StoreState).graph.keys :=
        hknown'
      obtain ⟨state', hstore, hwritten, hall⟩ := ih hrest hstate stats.succeed
      rw [hrecord]
      refine ⟨state', hstore, (hstep.trans hwritten).congr fun ok hok => ?_, fun ok hok => ?_⟩
      · rw [Entry.written, Entry.written, List.takeWhile_cons,
          if_pos (hfits ok (hok.of_extends hwritten.grows)), List.singleton_append]
      · rw [hall ok hok, Entry.succeeds, Entry.succeeds, List.all_cons,
          hfits ok (hok.of_extends hwritten.grows), Bool.true_and]
    cases u with
    | node key given =>
      refine hgoes (state.graph.mergeNode key given).1 (key :: known) rfl (fun _ _ => rfl) h
        fun k hk => ?_
      refine (Graph.mem_keys_graph? (u := .node key given) rfl).2 ?_
      rcases List.mem_cons.1 hk with rfl | hk
      · exact .inr ⟨given, rfl⟩
      · exact .inl (hknown k hk)
    | edge start target relation =>
      obtain ⟨hstart, htarget, hrest⟩ := h
      have hmem := fun key hkey => hknown key hkey
      cases hu : (Upsert.edge start target relation).graph? state.graph with
      | none =>
        refine hfails hu fun ok hok => ?_
        rw [← Upsert.graph?_edge_of_mem hok (hmem _ hstart) (hmem _ htarget), hu]
        rfl
      | some graph =>
        have hgrow := Graph.extends_graph? hu
        refine hgoes graph known hu (fun ok hok => ?_) hrest fun k hk =>
          hgrow.mem_keys (hknown k hk)
        rw [← Upsert.graph?_edge_of_mem (hok.of_extends hgrow) (hmem _ hstart) (hmem _ htarget), hu]
        rfl

namespace Java

/-! ## Steps -/

mutual

/-- The upserts of a step that succeed. -/
def Step.written (ok : NodeKey → Bool) : Step → List Upsert
  | .unresolved _ _ => []
  | .put entry _ inside =>
    entry.written ok ++ if entry.succeeds ok then writtenAll ok inside else []

/-- The upserts of several steps that succeed. -/
def writtenAll (ok : NodeKey → Bool) : List Step → List Upsert
  | [] => []
  | s :: rest => s.written ok ++ writtenAll ok rest

end

mutual

/-- What a step adds to a report. -/
def Step.reported (ok : NodeKey → Bool) : Step → FileReport → FileReport
  | .unresolved line what, report =>
      { report with unresolved := report.unresolved ++ [⟨line, what⟩] }
  | .put entry tally inside, report =>
    if entry.succeeds ok then reportedAll ok inside (report.count tally) else report

/-- What several steps add to a report. -/
def reportedAll (ok : NodeKey → Bool) : List Step → FileReport → FileReport
  | [], report => report
  | s :: rest, report => reportedAll ok rest (s.reported ok report)

end

/-- A step whose relationships always find their ends, given nodes that are known, and whose upserts
have a property. Only a single node has further steps under it. -/
inductive Step.Sound (P : Upsert → Prop) : (known : List NodeKey) → Step → Prop
  | unresolved {known : List NodeKey} {line : Nat} {what : Unresolved} :
      Sound P known (.unresolved line what)
  | put {known : List NodeKey} {entry : Entry} {tally : Option Tally}
      (hentry : entry.Grounded known) (hP : ∀ u ∈ entry, P u) : Sound P known (.put entry tally [])
  | guard {known : List NodeKey} {key : NodeKey} {given : Attributes} {tally : Option Tally}
      {inside : List Step} (hP : P (.node key given)) (hinside : ∀ s ∈ inside,
        Sound P (key :: known) s) :
      Sound P known (.put [.node key given] tally inside)

variable {P : Upsert → Prop} {known : List NodeKey}

/-- What running a step or several does to a connected store and a report. -/
def Follows (us : (NodeKey → Bool) → List Upsert)
    (report : (NodeKey → Bool) → FileReport → FileReport)
    (run : Ledger × FileReport → Ledger × FileReport) (state : StoreState) : Prop :=
  ∀ stats r, ∃ state', (run (⟨.ofState state, stats⟩, r)).1.store = .ofState state' ∧
    StoreState.Written us state state' ∧
    ∀ ok, state'.graph.Names ok → (run (⟨.ofState state, stats⟩, r)).2 = report ok r

/-- Running an entry and, if it succeeds, the steps under it. -/
theorem follows_put {entry : Entry} {tally : Option Tally} {inside : List Step} {state : StoreState}
    (hentry : entry.Grounded known) (hknown : ∀ key ∈ known, key ∈ state.graph.keys)
    (hinside : ∀ state', StoreState.Written entry.written state state' →
      Follows (writtenAll · inside) (reportedAll · inside) (runAll inside) state') :
    Follows (Step.put entry tally inside).written (Step.put entry tally inside).reported
      (Step.put entry tally inside).run state := by
  intro stats r
  obtain ⟨state₁, hstore, hwritten, hall⟩ := entry.record_spec hentry hknown stats
  obtain ⟨ok₁, hok₁⟩ := state₁.graph.exists_names
  generalize hrecord : entry.record ⟨.ofState state, stats⟩ = result at hstore hall
  obtain ⟨succeeded, ⟨store, stats₁⟩⟩ := result
  cases hstore
  cases succeeded with
  | false =>
    simp only [Step.run, hrecord]
    refine ⟨state₁, rfl, hwritten.congr fun ok hok => ?_, fun ok hok => ?_⟩
    · rw [Step.written, ← hall ok hok]
      simp
    · rw [Step.reported, ← hall ok hok]
      rfl
  | true =>
    obtain ⟨state₂, hstore₂, hwritten₂, hreport⟩ := hinside state₁ hwritten stats₁ (r.count tally)
    simp only [Step.run, hrecord]
    refine ⟨state₂, hstore₂, (hwritten.trans hwritten₂).congr fun ok hok => ?_, fun ok hok => ?_⟩
    · rw [Step.written, ← hall ok (hok.of_extends hwritten₂.grows), if_pos rfl]
    · rw [Step.reported, ← hall ok (hok.of_extends hwritten₂.grows), if_pos rfl]
      exact hreport ok hok

theorem follows_nil (state : StoreState) :
    Follows (writtenAll · []) (reportedAll · []) (runAll []) state :=
  fun _ _ => ⟨state, rfl, .refl state, fun _ _ => rfl⟩

mutual

theorem Step.run_spec {known : List NodeKey} {s : Step} (h : s.Sound P known) {state : StoreState}
    (hknown : ∀ key ∈ known, key ∈ state.graph.keys) :
    Follows s.written s.reported s.run state := by
  match s, h with
  | .unresolved line what, _ => exact fun _ _ => ⟨state, rfl, .refl state, fun _ _ => rfl⟩
  | .put entry tally _, .put hentry _ =>
    exact follows_put hentry hknown fun state' _ => follows_nil state'
  | .put _ tally inside, @Step.Sound.guard _ _ key given _ _ _ hinside =>
    have hentry : Entry.Grounded known [.node key given] := trivial
    refine follows_put hentry hknown fun state' hwritten => ?_
    refine runAll_spec hinside fun k hk => ?_
    obtain ⟨ok, hok⟩ := state'.graph.exists_names
    rcases List.mem_cons.1 hk with rfl | hk
    · exact (Graph.mem_keys_applyAll? (hwritten.applied ok hok)).2
        (.inr ⟨given, List.mem_cons_self⟩)
    · exact hwritten.grows.mem_keys (hknown k hk)

/-- **Sound steps write and report what the steps alone determine**, whose ids name them apart. -/
theorem runAll_spec {known : List NodeKey} {steps : List Step}
    (h : ∀ s ∈ steps, s.Sound P known) {state : StoreState}
    (hknown : ∀ key ∈ known, key ∈ state.graph.keys) :
    Follows (writtenAll · steps) (reportedAll · steps) (runAll steps) state := by
  match steps with
  | [] => exact follows_nil state
  | s :: rest =>
    intro stats r
    obtain ⟨state₁, hstore₁, hwritten₁, hreport₁⟩ :=
      Step.run_spec (h s List.mem_cons_self) hknown stats r
    generalize hrun : s.run (⟨.ofState state, stats⟩, r) = result at hstore₁ hreport₁
    obtain ⟨⟨store, stats₁⟩, r₁⟩ := result
    cases hstore₁
    obtain ⟨state₂, hstore₂, hwritten₂, hreport₂⟩ :=
      runAll_spec (fun s' hs' => h s' (List.mem_cons_of_mem _ hs'))
        (fun key hkey => hwritten₁.grows.mem_keys (hknown key hkey)) stats₁ r₁
    refine ⟨state₂, ?_, hwritten₁.trans hwritten₂, fun ok hok => ?_⟩
    · rw [runAll, hrun]
      exact hstore₂
    · have hr : r₁ = s.reported ok r := hreport₁ ok (hok.of_extends hwritten₂.grows)
      simp only [runAll, hrun, reportedAll, ← hr]
      exact hreport₂ ok hok

end

/-! ## What sound steps hold -/

mutual

theorem Step.Sound.of_mem_written {known : List NodeKey} {s : Step} (h : s.Sound P known)
    {ok : NodeKey → Bool} {u : Upsert} (hu : u ∈ s.written ok) : P u := by
  match s, h with
  | .unresolved line what, _ => cases hu
  | .put entry tally _, .put _ hP =>
    rw [Step.written] at hu
    rcases List.mem_append.1 hu with hu | hu
    · exact hP u (Entry.mem_of_mem_written hu)
    · split at hu <;> cases hu
  | .put _ tally inside, .guard hP hinside =>
    rw [Step.written] at hu
    rcases List.mem_append.1 hu with hu | hu
    · cases List.mem_singleton.1 (Entry.mem_of_mem_written hu)
      exact hP
    · split at hu
      · exact sound_of_mem_writtenAll hinside hu
      · cases hu

theorem sound_of_mem_writtenAll {known : List NodeKey} {steps : List Step}
    (h : ∀ s ∈ steps, s.Sound P known) {ok : NodeKey → Bool} {u : Upsert}
    (hu : u ∈ writtenAll ok steps) : P u := by
  match steps with
  | [] => cases hu
  | s :: rest =>
    rcases List.mem_append.1 hu with hu | hu
    · exact (h s List.mem_cons_self).of_mem_written hu
    · exact sound_of_mem_writtenAll (fun s' hs' => h s' (List.mem_cons_of_mem _ hs')) hu

end

theorem writtenAll_append (ok : NodeKey → Bool) (steps steps' : List Step) :
    writtenAll ok (steps ++ steps') = writtenAll ok steps ++ writtenAll ok steps' := by
  induction steps with
  | nil => rfl
  | cons s steps ih => rw [List.cons_append, writtenAll, writtenAll, ih, List.append_assoc]

theorem writtenAll_flatMap {α : Type} (ok : NodeKey → Bool) (xs : List α) (steps : α → List Step) :
    writtenAll ok (xs.flatMap steps) = xs.flatMap fun x => writtenAll ok (steps x) := by
  induction xs with
  | nil => rfl
  | cons x xs ih => rw [List.flatMap_cons, writtenAll_append, ih, List.flatMap_cons]

theorem reportedAll_append (ok : NodeKey → Bool) (steps steps' : List Step) (r : FileReport) :
    reportedAll ok (steps ++ steps') r = reportedAll ok steps' (reportedAll ok steps r) := by
  induction steps generalizing r with
  | nil => rfl
  | cons s steps ih => rw [List.cons_append, reportedAll, reportedAll, ih]

theorem mem_writtenAll {ok : NodeKey → Bool} {u : Upsert} {steps : List Step} :
    u ∈ writtenAll ok steps ↔ ∃ s ∈ steps, u ∈ s.written ok := by
  induction steps with
  | nil => simp [writtenAll]
  | cons s rest ih => simp [writtenAll, ih]

mutual

/-- The more ids name their nodes, the more is written. -/
theorem Step.written_subset (ok : NodeKey → Bool) (s : Step) :
    s.written ok ⊆ s.written fun _ => true := by
  match s with
  | .unresolved line what => exact List.Subset.refl _
  | .put entry tally inside =>
    rw [Step.written, Step.written, Entry.written_true, Entry.succeeds_true, if_pos rfl]
    refine fun u hu =>
      List.mem_append.2 ((List.mem_append.1 hu).imp Entry.mem_of_mem_written fun hu => ?_)
    split at hu
    · exact writtenAll_subset ok inside hu
    · cases hu

theorem writtenAll_subset (ok : NodeKey → Bool) (steps : List Step) :
    writtenAll ok steps ⊆ writtenAll (fun _ => true) steps := by
  match steps with
  | [] => exact List.Subset.refl _
  | s :: rest =>
    exact fun u hu => List.mem_append.2 ((List.mem_append.1 hu).imp (s.written_subset ok ·)
      (writtenAll_subset ok rest ·))

end

/-- With every id naming its node, a step writes all of its entry and all that the
steps under it write. -/
theorem Step.mem_written_put {entry : Entry} {tally : Option Tally} {inside : List Step}
    {u : Upsert} :
    u ∈ (Step.put entry tally inside).written (fun _ => true) ↔
      u ∈ entry ∨ u ∈ writtenAll (fun _ => true) inside := by
  rw [Step.written, Entry.written_true, Entry.succeeds_true, if_pos rfl, List.mem_append]

end Java

end CodeGraph
