import CodeGraph.Indexing.Pass
import CodeGraph.Proofs.Java.Written
import CodeGraph.Proofs.Writing.Schema

/-!
# Excluded classes

A pass writes only relationships that are `Link.Allowed`: they join the labels of their kind, and
none that types a field or is a use of a class leads to a class that the filter excludes.

* `linksBy_allowed_of_mem_extract`: this holds of all that a file has to say.
* `keepsTo_indexWalk`: a pass keeps a graph that way, whatever the store held and
  whichever writes fail.
* `written_graph_obeys_schema`: the same for runs of the writer, which moreover leave alone what
  they only refer to, and for the pass over a directory into an empty store.
-/

namespace CodeGraph

open Java Indexing

/-- A relationship of the schema that neither types a field by an excluded class nor
is a use of one. -/
structure Link.Allowed (filter : NamespaceFilter) (l : Link) : Prop where
  inSchema : l.InSchema
  notExcluded : l.relation = .hasType ∨ l.relation = .usesClass →
    filter.excludes l.target.key = false

namespace Java

variable {filter : NamespaceFilter} {index : ProjectIndex} {u : Upsert} {P : Link → Prop}

/-! ## What files say -/

/-- A relationship of the schema of any other kind is allowed. -/
theorem linksBy_allowed_edge {start target : NodeKey} {relation : Relation}
    (hlabels : relation.joins start.label target.label) (htype : relation ≠ .hasType)
    (huse : relation ≠ .usesClass) :
    (Upsert.edge start target relation).LinksBy (Link.Allowed filter) :=
  Upsert.linksBy_edge.2 ⟨hlabels, fun h => absurd h (not_or.2 ⟨htype, huse⟩)⟩

theorem FieldWrites.linksBy_allowed {q : String} (h : FieldWrites filter q u) :
    u.LinksBy (Link.Allowed filter) := by
  cases h with
  | node => exact Upsert.linksBy_node
  | member => exact linksBy_allowed_edge rfl (by decide) (by decide)
  | type hexcluded => exact Upsert.linksBy_edge.2 ⟨rfl, fun _ => hexcluded⟩

theorem BodyWrites.linksBy_allowed {signature : String} (h : BodyWrites filter signature u) :
    u.LinksBy (Link.Allowed filter) := by
  cases h with
  | node => exact Upsert.linksBy_node
  | call => exact linksBy_allowed_edge rfl (by decide) (by decide)
  | use hexcluded => exact Upsert.linksBy_edge.2 ⟨rfl, fun _ => hexcluded⟩

theorem linksBy_allowed_of_mem_stubEdge {start target : String} {relation : Relation}
    (hrelation : relation = .extends ∨ relation = .implements)
    (hu : u ∈ stubEdge start target relation) :
    u.LinksBy (Link.Allowed filter) := by
  rcases List.mem_cons.1 hu with rfl | hu
  · exact Upsert.linksBy_node
  · cases List.mem_singleton.1 hu
    rcases hrelation with rfl | rfl
    · exact linksBy_allowed_edge rfl (by decide) (by decide)
    · exact linksBy_allowed_edge rfl (by decide) (by decide)

theorem HeadWrites.linksBy_allowed {file : SourceFile} (h : HeadWrites file u) :
    u.LinksBy (Link.Allowed filter) := by
  rcases h with hu | hu
  all_goals
    rcases List.mem_cons.1 hu with rfl | hu
    · exact Upsert.linksBy_node
    · cases List.mem_singleton.1 hu
      exact linksBy_allowed_edge rfl (by decide) (by decide)

theorem TypeWrites.linksBy_allowed {file : String} {ctx : Context} {outer : Option String}
    {q : String} {d : Tree} (h : TypeWrites index filter file ctx outer q d u) :
    u.LinksBy (Link.Allowed filter) := by
  cases h with
  | node hkind hu =>
    cases List.mem_singleton.1 hu
    exact Upsert.linksBy_node
  | inFile => exact linksBy_allowed_edge rfl (by decide) (by decide)
  | nested => exact linksBy_allowed_edge rfl (by decide) (by decide)
  | supertype hkind hu =>
    obtain ⟨type, relation, name, hclause, -, hu⟩ := mem_writes_recordSupertypes.1 hu
    refine linksBy_allowed_of_mem_stubEdge ?_ hu
    rcases hclause with ⟨-, rfl⟩ | ⟨-, rfl⟩
    · exact .inl rfl
    · unfold interfaceRelation
      split
      · exact .inl rfl
      · exact .inr rfl
  | component hkind hu => exact (fieldWrites_of_mem_writes_recordComponentFields hu).linksBy_allowed
  | field hm hkind hu => exact (fieldWrites_of_mem_writes_recordFields hu).linksBy_allowed
  | method hm hkind hu =>
    obtain ⟨decl, signature, -, -, hu | rfl | hu⟩ := mem_writes_recordMethod.1 hu
    · cases List.mem_singleton.1 hu
      exact Upsert.linksBy_node
    · unfold MethodDecl.membership
      split
      · exact linksBy_allowed_edge rfl (by decide) (by decide)
      · exact linksBy_allowed_edge rfl (by decide) (by decide)
    · exact (bodyWrites_of_mem_writes hu).linksBy_allowed

/-- **Whatever a file says is allowed.** -/
theorem linksBy_allowed_of_mem_extract {file : SourceFile}
    (hu : u ∈ writtenAll (fun _ => true) (extract index filter file)) :
    u.LinksBy (Link.Allowed filter) := by
  rcases headWrites_or_typeWrites hu with h | ⟨ctx, outer, q, d, -, h⟩
  · exact h.linksBy_allowed
  · exact h.linksBy_allowed

/-! ## Running steps -/

mutual

/-- Running a step adds no relationships but its own. -/
theorem Step.keepsTo_run (s : Step) (hs : ∀ u ∈ s.written (fun _ => true), u.LinksBy P)
    {acc : Ledger × FileReport} (h : acc.1.store.state.graph.KeepsTo P) :
    (s.run acc).1.store.state.graph.KeepsTo P := by
  obtain ⟨ledger, report⟩ := acc
  match s with
  | .unresolved line what => exact h
  | .put entry tally inside =>
    have hentry := h.record fun u hu => hs u (Step.mem_written_put.2 (.inl hu))
    rw [Step.run]
    generalize entry.record ledger = result at hentry
    obtain ⟨succeeded, ledger'⟩ := result
    cases succeeded with
    | false => exact hentry
    | true =>
      exact keepsTo_runAll inside (fun u hu => hs u (Step.mem_written_put.2 (.inr hu))) hentry

theorem keepsTo_runAll (steps : List Step)
    (hs : ∀ u ∈ writtenAll (fun _ => true) steps, u.LinksBy P)
    {acc : Ledger × FileReport} (h : acc.1.store.state.graph.KeepsTo P) :
    (runAll steps acc).1.store.state.graph.KeepsTo P := by
  match steps with
  | [] => exact h
  | s :: rest =>
    refine keepsTo_runAll rest (fun u hu => hs u (List.mem_append_right _ hu)) ?_
    exact s.keepsTo_run (fun u hu => hs u (List.mem_append_left _ hu)) h

end

theorem linksBy_allowed_of_mem_fileEntry {path : String} (hu : u ∈ fileEntry path) :
    u.LinksBy (Link.Allowed filter) := by
  unfold fileEntry at hu
  split at hu
  · rcases List.mem_cons.1 hu with rfl | hu
    · exact Upsert.linksBy_node
    · rcases List.mem_cons.1 hu with rfl | hu
      · exact Upsert.linksBy_node
      · cases List.mem_singleton.1 hu
        exact linksBy_allowed_edge rfl (by decide) (by decide)
  · cases List.mem_singleton.1 hu
    exact Upsert.linksBy_node

theorem keepsTo_processFile {file : SourceFile} {l l' : Ledger} {report : FileReport}
    (h : l.store.state.graph.KeepsTo (Link.Allowed filter))
    (hprocess : processFile index filter file l = some (l', report)) :
    l'.store.state.graph.KeepsTo (Link.Allowed filter) := by
  unfold processFile at hprocess
  split at hprocess
  case isFalse => cases hprocess
  case isTrue =>
    have hfile : ((fileEntry file.path).record l).2.store.state.graph.KeepsTo
        (Link.Allowed filter) :=
      h.record fun u hu => linksBy_allowed_of_mem_fileEntry hu
    have hrun : ((runAll (extract index filter file)
        (((fileEntry file.path).record l).2, { path := file.path })).1).store.state.graph.KeepsTo
          (Link.Allowed filter) :=
      keepsTo_runAll _ (fun u hu => linksBy_allowed_of_mem_extract hu) hfile
    rwa [Option.some.inj hprocess] at hrun

end Java

/-! ## Passes -/

variable {filter : NamespaceFilter}

theorem linksBy_allowed_of_mem_directoryEntry {root path : String} {u : Upsert}
    (hu : u ∈ directoryEntry root path) : u.LinksBy (Link.Allowed filter) := by
  have hdirectory (hu : u ∈ Entry.directory path) : u.LinksBy (Link.Allowed filter) := by
    cases List.mem_singleton.1 hu
    exact Upsert.linksBy_node
  unfold directoryEntry at hu
  split at hu
  · split at hu
    · rcases List.mem_cons.1 hu with rfl | hu
      · exact Upsert.linksBy_node
      · rcases List.mem_cons.1 hu with rfl | hu
        · exact Upsert.linksBy_node
        · cases List.mem_singleton.1 hu
          exact linksBy_allowed_edge rfl (by decide) (by decide)
    · exact hdirectory hu
  · exact hdirectory hu

theorem keepsTo_recordDirectories (root : String) (directories : List String) {l : Ledger}
    (h : l.store.state.graph.KeepsTo (Link.Allowed filter)) :
    (recordDirectories root directories l).store.state.graph.KeepsTo (Link.Allowed filter) := by
  induction directories generalizing l with
  | nil => exact h
  | cons path rest ih => exact ih (h.record fun u hu => linksBy_allowed_of_mem_directoryEntry hu)

theorem keepsTo_recordSources (index : ProjectIndex) (sources : List SourceFile)
    {acc : IndexReport × Ledger} (h : acc.2.store.state.graph.KeepsTo (Link.Allowed filter)) :
    (recordSources index filter sources acc).2.store.state.graph.KeepsTo (Link.Allowed filter) := by
  induction sources generalizing acc with
  | nil => exact h
  | cons file rest ih =>
    obtain ⟨report, l⟩ := acc
    rw [recordSources]
    cases hprocess : processFile index filter file l with
    | none => exact ih h
    | some p => exact ih (keepsTo_processFile h hprocess)

/-- **A pass writes only allowed relationships.** -/
theorem keepsTo_indexWalk {s : Store} (h : s.state.graph.KeepsTo (Link.Allowed filter))
    (parse : String → Tree) (read? : String → Option String) (root : String) (walk : SourceWalk) :
    (s.indexWalk filter parse read? root walk).2.state.graph.KeepsTo (Link.Allowed filter) := by
  let l : Ledger := ⟨s, {}⟩
  have hdirectories : (recordDirectories root walk.directories l).store.state.graph.KeepsTo
      (Link.Allowed filter) := keepsTo_recordDirectories root walk.directories h
  exact keepsTo_recordSources _ _ hdirectories

/-- A pass over a directory is one over what the walk of its place has found. -/
theorem exists_walk_of_indexProject {s s' : Store} {settings : IndexingSettings}
    {parse : String → Tree} {files : FileTree} {path : String} {report : IndexReport}
    (h : s.indexProject settings parse files path = .ok (report, s')) :
    ∃ root exclusion, files.resolve [] path = .ok root ∧
      Exclusion.ofTexts settings.exclude = .ok exclusion ∧
      (report, s') = s.indexWalk ⟨settings.excludedNamespaces⟩ parse
        (fun path => (files.read? (Path.names path)).bind Text.decode?) (Path.ofNames root)
        (files.walk root exclusion) := by
  unfold Store.indexProject at h
  cases hroot : files.resolve [] path with
  | error e => rw [hroot] at h; cases h
  | ok root =>
    rw [hroot] at h
    cases hprobe : s.probe with
    | error e => rw [hprobe] at h; cases h
    | ok =>
      rw [hprobe] at h
      cases hpatterns : Exclusion.ofTexts settings.exclude with
      | error e => rw [hpatterns] at h; cases h
      | ok exclusion =>
        rw [hpatterns] at h
        cases h
        exact ⟨root, exclusion, rfl, rfl, rfl⟩

theorem indexProject_eq_ok {s s' : Store} {settings : IndexingSettings} {parse : String → Tree}
    {files : FileTree} {path : String} {report : IndexReport}
    (h : s.indexProject settings parse files path = .ok (report, s')) :
    ∃ read? root walk,
      (report, s') = s.indexWalk ⟨settings.excludedNamespaces⟩ parse read? root walk := by
  obtain ⟨root, exclusion, -, -, hwalk⟩ := exists_walk_of_indexProject h
  exact ⟨_, _, _, hwalk⟩

/-- What an excluded beginning is a beginning of is excluded. -/
theorem not_prefix_of_not_excludes {key start : String} (h : filter.excludes key = false)
    (hstart : start ∈ filter.starts) : ¬ start.toList <+: key.toList := by
  intro hprefix
  have hexcludes : filter.excludes key = true :=
    List.any_eq_true.2 ⟨start, hstart, List.isPrefixOf_iff_prefix.2 hprefix⟩
  rw [h] at hexcludes
  cases hexcludes

/-! ## The schema -/

/-- **The written graph obeys its schema.** After any run of the writer on an empty store, with
calls that succeed or fail and connections that are lost and come back, every relationship joins
nodes of the labels that its kind joins. No call changes anything of a node that it does not
declare, so what a declaration wrote stays, however often the node is written again without
attributes. And after a pass over a directory into an empty store, no relationship that types a
field or is a use of a class leads to a class whose name has an excluded beginning. The graph is
meant to have room for its nodes. -/
theorem written_graph_obeys_schema :
    (∀ (events : List WriterEvent),
      let g := (WriterEvent.run events ⟨.empty, {}⟩).store.state.graph
      g.nodes.size < 0xffffffff → ∀ e ∈ g.edges, ∃ a b : Node,
        g.nodes[e.start]? = some a ∧ g.nodes[e.target]? = some b ∧
          e.relation.joins a.label b.label) ∧
    (∀ (events : List WriterEvent) (l : Ledger) (i : NodeId) (n : Node),
      l.store.state.graph.nodes[i]? = some n →
      (∀ c, .write c ∈ events → c.declared? ≠ some n.nodeKey) →
      (WriterEvent.run events l).store.state.graph.nodes[i]? = some n) ∧
    ∀ (settings : IndexingSettings) (parse : String → Tree) (files : FileTree) (path : String)
      (report : IndexReport) (s : Store),
      Store.empty.indexProject settings parse files path = .ok (report, s) →
      s.state.graph.nodes.size < 0xffffffff →
      ∀ e ∈ s.state.graph.edges, e.relation = .hasType ∨ e.relation = .usesClass →
        ∃ b : Node, s.state.graph.nodes[e.target]? = some b ∧ b.label = .classType ∧
          ∀ start ∈ settings.excludedNamespaces, ¬ start.toList <+: b.key.toList := by
  refine ⟨fun events => ?_, fun events l i n hn h => WriterEvent.getElem?_nodes_run hn h,
    fun settings parse files path report s hs hroom e he hrelation => ?_⟩
  · intro g hroom e he
    have hkeeps : g.KeepsTo Link.InSchema := WriterEvent.keepsTo_run events (Graph.keepsTo_empty _)
    exact hkeeps.exists_nodes hroom he
  · obtain ⟨read?, root, walk, hwalk⟩ := indexProject_eq_ok hs
    have hempty : Store.empty.state.graph.KeepsTo (Link.Allowed ⟨settings.excludedNamespaces⟩) :=
      Graph.keepsTo_empty _
    have hkeeps := keepsTo_indexWalk hempty parse read? root walk
    rw [← hwalk] at hkeeps
    obtain ⟨a, b, -, hb, hallowed⟩ := hkeeps.exists_nodes hroom he
    refine ⟨b, hb, ?_, fun start hstart =>
      not_prefix_of_not_excludes (hallowed.notExcluded hrelation) hstart⟩
    have hschema : e.relation.joins a.label b.label := hallowed.inSchema
    revert hschema
    rcases hrelation with hrelation | hrelation
    all_goals
      rw [hrelation]
      cases a.label <;> cases b.label <;> decide

/-- `class A { B b; String s; }` and `class B {}`, without the parts that nothing reads. -/
def typedFields : Tree :=
  .mk "program" true "" "" 1 3
    [.mk "class_declaration" true "" "" 1 2
      [.mk "identifier" true "name" "A" 1 1 [],
       .mk "class_body" true "body" "" 1 2
        [.mk "field_declaration" true "" "" 1 1
          [.mk "type_identifier" true "type" "B" 1 1 [],
           .mk "variable_declarator" true "declarator" "" 1 1
             [.mk "identifier" true "name" "b" 1 1 []]],
         .mk "field_declaration" true "" "" 2 2
          [.mk "type_identifier" true "type" "String" 2 2 [],
           .mk "variable_declarator" true "declarator" "" 2 2
             [.mk "identifier" true "name" "s" 2 2 []]]]],
     .mk "class_declaration" true "" "" 3 3
      [.mk "identifier" true "name" "B" 3 3 [], .mk "class_body" true "body" "" 3 3 []]]

/-- A run in which a call fails for want of a connection, a reference to a class that was declared,
and a pass over two fields of which one has a class of the platform. -/
theorem written_graph_obeys_schema_of_typedFields :
    let declared : List WriterEvent :=
  [.write (.classType "A" "class"), .disconnect, .write (.classStub "B")]
    let referred : List WriterEvent :=
      [.connect, .write (.classExtends "B" "A"), .write (.classStub "A")]
    let before := WriterEvent.run declared ⟨.empty, {}⟩
    let after :=
      WriterEvent.run (declared ++ referred ++ [.write (.classExtends "A" "B")]) ⟨.empty, {}⟩
    let files : FileTree := .directory [("p", .directory [("A.java", .file [])])]
    (after.store.state.graph.edges.size = 1 ∧ ∀ e ∈ after.store.state.graph.edges, ∃ a b : Node,
      after.store.state.graph.nodes[e.start]? = some a ∧
        after.store.state.graph.nodes[e.target]? = some b ∧
        e.relation.joins a.label b.label) ∧
    (∃ n : Node, n.attributes.get? "kind" = some (.text "class") ∧
      before.store.state.graph.nodes[0]? = some n ∧
      (WriterEvent.run referred before).store.state.graph.nodes[0]? = some n) ∧
    ∃ report s, Store.empty.indexProject {} (fun _ => typedFields) files "/p" = .ok (report, s) ∧
      (∃ e ∈ s.state.graph.edges, e.relation = .hasType) ∧
      ∀ e ∈ s.state.graph.edges, e.relation = .hasType ∨ e.relation = .usesClass →
        ∃ b : Node, s.state.graph.nodes[e.target]? = some b ∧ b.label = .classType ∧
          ∀ start ∈ ["java.", "javax."], ¬ start.toList <+: b.key.toList := by
  intro declared referred before after files
  obtain ⟨hruns, hstays, hpasses⟩ := written_graph_obeys_schema
  refine ⟨⟨by decide +kernel, hruns _ (by decide +kernel)⟩, ?_, ?_⟩
  · have hclass : before.store.state.graph.nodes[0]? =
        some ⟨.classType, "A", Dict.ofList [("name", .text "A"), ("kind", .text "class")]⟩ := by
      decide +kernel
    refine ⟨_, by decide +kernel, hclass, hstays referred before 0 _ hclass fun c hc => ?_⟩
    have hreferred : ∀ e ∈ referred, ∀ c, e = .write c → c.declared? = none := by
      intro e he c hec
      simp only [referred, List.mem_cons, List.not_mem_nil, or_false] at he
      rcases he with rfl | rfl | rfl <;> cases hec <;> rfl
    rw [hreferred _ hc c rfl]
    exact (Option.some_ne_none _).symm
  · have hpass :
        (Store.empty.indexProject {} (fun _ => typedFields) files "/p").toOption.any fun p =>
          p.2.state.graph.nodes.size < 0xffffffff &&
            p.2.state.graph.edges.any (·.relation == .hasType) := by
      decide +kernel
    cases hresult : Store.empty.indexProject {} (fun _ => typedFields) files "/p" with
    | error e =>
      rw [hresult] at hpass
      cases hpass
    | ok p =>
      obtain ⟨report, s⟩ := p
      rw [hresult] at hpass
      obtain ⟨hroom, htyped⟩ := Bool.and_eq_true _ _ ▸ hpass
      obtain ⟨e, he, hrelation⟩ := Array.any_eq_true'.1 htyped
      exact ⟨report, s, rfl, ⟨e, he, eq_of_beq hrelation⟩,
        hpasses {} (fun _ => typedFields) files "/p" report s hresult (of_decide_eq_true hroom)⟩

end CodeGraph
