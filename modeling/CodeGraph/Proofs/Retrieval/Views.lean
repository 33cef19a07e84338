import CodeGraph.Proofs.Graph.Traversal
import CodeGraph.Proofs.Store.History
import CodeGraph.Proofs.Store.Nearest
import CodeGraph.Retrieval.Query

/-!
# The two views of a query

In a well-formed graph within its room every id that a search or a traversal yields names something,
so nothing that is gathered gets lost when it is fetched.

* `Store.expand_eq_ok`: the cluster of a node exists and stays in the graph.
* `Store.hydrate_eq_ok`: each part of such a cluster is shown once, in order.
* `Retrieval.views_agree`: a query answers a cluster for each seed, in both views.
-/

namespace CodeGraph

/-! ## Lists -/

theorem nodup_eraseDups {α : Type} [BEq α] [LawfulBEq α] : (l : List α) → l.eraseDups.Nodup
  | [] => by simp
  | a :: l => by
    rw [List.eraseDups_cons, List.nodup_cons]
    refine ⟨fun h => ?_, nodup_eraseDups _⟩
    simpa using (List.mem_filter.1 (List.mem_eraseDups.1 h)).2
termination_by l => l.length
decreasing_by exact Nat.lt_succ_of_le (List.length_filter_le _ _)

/-- Where every element gives something, picking is mapping. -/
theorem map_some_filterMap {α β : Type} {f : α → Option β} {l : List α}
    (h : ∀ a ∈ l, (f a).isSome) :
    (l.filterMap f).map some = l.map f := by
  induction l with
  | nil => rfl
  | cons a l ih =>
    obtain ⟨b, hb⟩ := Option.isSome_iff_exists.1 (h a List.mem_cons_self)
    rw [List.filterMap_cons_some hb, List.map_cons, List.map_cons, hb,
      ih fun a ha => h a (List.mem_cons_of_mem _ ha)]

/-- Where every id picks something that has this id, all of it is picked, each under its id. -/
theorem map_filterMap_of_forall {α β : Type} {f : α → Option β} {p : β → α} {P : β → Prop}
    {l : List α} (h : ∀ a ∈ l, ∃ b, f a = some b ∧ p b = a ∧ P b) :
    (l.filterMap f).map p = l ∧ ∀ b ∈ l.filterMap f, P b := by
  induction l with
  | nil => exact ⟨rfl, fun b hb => by cases hb⟩
  | cons a l ih =>
    obtain ⟨b, hb, hp, hP⟩ := h a List.mem_cons_self
    obtain ⟨hmap, hall⟩ := ih fun a ha => h a (List.mem_cons_of_mem _ ha)
    rw [List.filterMap_cons_some hb, List.map_cons, hp, hmap]
    exact ⟨rfl, List.forall_mem_cons.2 ⟨hP, hall⟩⟩

/-- Steps that all succeed succeed together. -/
theorem exists_mapM_eq_ok {α β ε : Type} {f : α → Except ε β} {P : β → Prop} {l : List α}
    (h : ∀ a ∈ l, ∃ b, f a = .ok b ∧ P b) : ∃ bs, l.mapM f = .ok bs ∧ ∀ b ∈ bs, P b := by
  induction l with
  | nil => exact ⟨[], rfl, fun b hb => by cases hb⟩
  | cons a l ih =>
    obtain ⟨b, hb, hPb⟩ := h a List.mem_cons_self
    obtain ⟨bs, hbs, hP⟩ := ih fun a ha => h a (List.mem_cons_of_mem _ ha)
    refine ⟨b :: bs, ?_, List.forall_mem_cons.2 ⟨hPb, hP⟩⟩
    rw [List.mapM_cons, hb, hbs]
    rfl

/-! ## Clusters -/

/-- The ids of a cluster name parts of a graph, and each stands in it once. -/
structure Cluster.Inside (c : Cluster) (g : Graph) : Prop where
  nodes : ∀ id ∈ c.nodes, id < g.nodes.size
  nodes_once : c.nodes.Nodup
  relationships : ∀ id ∈ c.relationships, id < g.edges.size
  relationships_once : c.relationships.Nodup

/-- The detail of a node has its label and all its attributes but the hidden ones. -/
structure NodeDetail.Shows (d : NodeDetail) (n : Node) : Prop where
  labels : d.labels = [n.label.name]
  property : ∀ name, d.properties.get? name =
    if name ∈ ["embedding", "start_line", "end_line"] then none
    else (n.attributes.get? name).map Value.toJson

/-- The detail of a cluster shows the nodes and relationships whose ids the cluster has, each once
and in the same order. -/
structure ClusterDetail.Shows (d : ClusterDetail) (c : Cluster) (g : Graph) : Prop where
  nodes : d.nodes.map (·.id) = c.nodes
  nodes_once : c.nodes.Nodup
  node : ∀ x ∈ d.nodes, ∃ n, g.nodes[x.id]? = some n ∧ x.Shows n
  relationships : d.relationships.map (·.id) = c.relationships
  relationships_once : c.relationships.Nodup
  relationship : ∀ x ∈ d.relationships, ∃ e, g.edges[x.id]? = some e ∧
    x = ⟨x.id, e.relation, e.start, e.target, e.attributes⟩

theorem NodeDetail.shows_visible (id : NodeId) (n : Node) :
    (NodeDetail.visible ⟨id, [n.label.name], n.attributes.map Value.toJson⟩).Shows n := by
  refine ⟨rfl, fun name => ?_⟩
  rw [visible, Dict.get?_foldl_erase, Dict.get?_map]
  rfl

namespace Store

variable {s : Store}

theorem traverse_eq_ok (hs : s.connected) (hg : s.state.graph.WellFormed) {seed : NodeId} {i : Nat}
    (hseed : s.state.graph.position? seed = some i) (spec : TraversalSpec) :
    ∃ t, s.traverse seed spec = .ok t ∧ (∀ id ∈ t.nodes, id < s.state.graph.nodes.size) ∧
      ∀ id ∈ t.relationships, id < s.state.graph.edges.size := by
  obtain ⟨t, ht, hinside⟩ := hg.inside_traverse hseed spec
  refine ⟨t, ?_, hinside⟩
  rw [traverse, read, if_pos hs, ht]

/-- A policy selects relationships of the graph, each once. -/
theorem select_eq_ok (hs : s.connected) (policy : RelationshipPolicy) (nodes : List NodeId)
    {traversed : List EdgeId} (hinside : ∀ id ∈ traversed, id < s.state.graph.edges.size)
    (honce : traversed.Nodup) :
    ∃ ids, policy.select s nodes traversed = .ok ids ∧ (∀ id ∈ ids, id < s.state.graph.edges.size) ∧
      ids.Nodup := by
  cases policy with
  | omitted => exact ⟨[], rfl, fun id hid => (List.not_mem_nil hid).elim, List.nodup_nil⟩
  | traversed => exact ⟨traversed, rfl, hinside, honce⟩
  | induced =>
    refine ⟨s.state.graph.inducedEdges nodes, ?_, fun id hid => ?_, Graph.nodup_inducedEdges _ _⟩
    · rw [RelationshipPolicy.select, inducedRelationships, read, if_pos hs]
    · obtain ⟨e, he, -⟩ := Graph.mem_inducedEdges.1 hid
      exact (Array.getElem?_eq_some_iff.1 he).1

/-- **The cluster of a node exists and stays in the graph.** -/
theorem expand_eq_ok (hs : s.connected) (hg : s.state.graph.WellFormed)
    (patterns : List TraversalSpec) (policy : RelationshipPolicy) {seed : NodeId} {i : Nat}
    (hseed : s.state.graph.position? seed = some i) :
    ∃ c, s.expand patterns policy seed = .ok c ∧ c.Inside s.state.graph := by
  obtain ⟨found, hfound, hinside⟩ := exists_mapM_eq_ok (l := patterns) fun spec _ =>
    traverse_eq_ok hs hg hseed spec
  have hnodes : ∀ id ∈ (found.flatMap (·.nodes)).eraseDups, id < s.state.graph.nodes.size := by
    intro id hid
    obtain ⟨t, ht, hid⟩ := List.mem_flatMap.1 (List.mem_eraseDups.1 hid)
    exact (hinside t ht).1 id hid
  have htraversed : ∀ id ∈ (found.flatMap (·.relationships)).eraseDups,
      id < s.state.graph.edges.size := by
    intro id hid
    obtain ⟨t, ht, hid⟩ := List.mem_flatMap.1 (List.mem_eraseDups.1 hid)
    exact (hinside t ht).2 id hid
  obtain ⟨ids, hids, hedges, honce⟩ :=
    select_eq_ok hs policy (found.flatMap (·.nodes)).eraseDups htraversed (nodup_eraseDups _)
  refine ⟨⟨seed, (found.flatMap (·.nodes)).eraseDups, ids⟩, ?_, hnodes, nodup_eraseDups _,
    hedges, honce⟩
  simp only [expand, hfound, bind, Except.bind]
  rw [hids]
  rfl

theorem hydrateNodes_eq_ok (hs : s.connected) (hroom : s.state.graph.WithinRoom) {ids : List NodeId}
    (hids : ∀ id ∈ ids, id < s.state.graph.nodes.size) :
    ∃ ds, s.hydrateNodes ids = .ok ds ∧ ds.map (·.id) = ids ∧
      ∀ d ∈ ds, ∃ n, s.state.graph.nodes[d.id]? = some n ∧
        d = ⟨d.id, [n.label.name], n.attributes.map Value.toJson⟩ := by
  rw [hydrateNodes, read, if_pos hs]
  refine ⟨_, rfl, map_filterMap_of_forall fun id hid => ?_⟩
  have hn := Array.getElem?_eq_getElem (hids id hid)
  rw [hroom.node? (hids id hid), hn]
  exact ⟨_, rfl, rfl, _, hn, rfl⟩

theorem hydrateRelationships_eq_ok (hs : s.connected) (hroom : s.state.graph.WithinRoom)
    {ids : List EdgeId} (hids : ∀ id ∈ ids, id < s.state.graph.edges.size) :
    ∃ ds, s.hydrateRelationships ids = .ok ds ∧ ds.map (·.id) = ids ∧
      ∀ d ∈ ds, ∃ e, s.state.graph.edges[d.id]? = some e ∧
        d = ⟨d.id, e.relation, e.start, e.target, e.attributes⟩ := by
  rw [hydrateRelationships, read, if_pos hs]
  refine ⟨_, rfl, map_filterMap_of_forall fun id hid => ?_⟩
  have he := Array.getElem?_eq_getElem (hids id hid)
  rw [hroom.edge? (hids id hid), he]
  exact ⟨_, rfl, rfl, _, he, rfl⟩

/-- **Each part of a cluster inside the graph is shown once, in order.** -/
theorem hydrate_eq_ok (hs : s.connected) (hroom : s.state.graph.WithinRoom) {c : Cluster}
    (hc : c.Inside s.state.graph) : ∃ d, s.hydrate c = .ok d ∧ d.Shows c s.state.graph := by
  obtain ⟨nodes, hnodes, hids, hshown⟩ := hydrateNodes_eq_ok hs hroom hc.nodes
  obtain ⟨relationships, hrelationships, hids', hshown'⟩ :=
    hydrateRelationships_eq_ok hs hroom hc.relationships
  have hlength : nodes.length = c.nodes.length := by rw [← hids, List.length_map]
  refine ⟨⟨nodes.map NodeDetail.visible, relationships⟩, ?_, ?_, hc.nodes_once, ?_, hids',
    hc.relationships_once, hshown'⟩
  · simp only [hydrate, hnodes, hrelationships, hlength, bind, Except.bind]
    rw [if_neg (not_not_intro rfl)]
    rfl
  · rw [List.map_map]
    exact hids
  · intro x hx
    obtain ⟨y, hy, rfl⟩ := List.mem_map.1 hx
    obtain ⟨n, hn, hy⟩ := hshown y hy
    refine ⟨n, hn, ?_⟩
    rw [hy]
    exact NodeDetail.shows_visible y.id n

end Store

/-! ## Queries -/

/-- A result has the cluster of each seed, at its position and in both views. -/
structure QueryResult.Covers {m : Type → Type} (result : QueryResult) (r : Retrieval m) (s : Store)
    (seeds : List ScoredNode) : Prop where
  graph_length : result.graph.length = seeds.length
  chat_length : result.chat.length = seeds.length
  cluster : ∀ (i : Nat) (seed : ScoredNode), seeds[i]? = some seed →
    ∃ (c : Cluster) (d : ClusterDetail), result.graph[i]? = some c ∧ result.chat[i]? = some d ∧
      r.expand s seed.id = .ok c ∧ d.Shows c s.state.graph

namespace Retrieval

variable {m : Type → Type} {s : Store}

theorem cluster_eq_ok (r : Retrieval m) (hs : s.connected) (hg : s.state.graph.WellFormed)
    (hroom : s.state.graph.WithinRoom) {seed : NodeId} (hseed : seed < s.state.graph.nodes.size) :
    ∃ c d, r.cluster s seed = .ok (c, d) ∧ r.expand s seed = .ok c ∧ d.Shows c s.state.graph := by
  obtain ⟨c, hc, hinside⟩ :=
    Store.expand_eq_ok hs hg r.patterns r.relationships (Graph.position?_of_lt hroom.nodes hseed)
  obtain ⟨d, hd, hshows⟩ := Store.hydrate_eq_ok hs hroom hinside
  refine ⟨c, d, ?_, hc, hshows⟩
  simp only [cluster, expand, hc, hd, bind, Except.bind]
  rfl

/-- **No seed is lost.** -/
theorem covers_gather (r : Retrieval m) (hs : s.connected) (hg : s.state.graph.WellFormed)
    (hroom : s.state.graph.WithinRoom) {seeds : List ScoredNode}
    (hseeds : ∀ seed ∈ seeds, seed.id < s.state.graph.nodes.size) :
    (r.gather s seeds).Covers r s seeds := by
  have hfound : (seeds.filterMap fun seed => (r.cluster s seed.id).toOption).map some =
      seeds.map fun seed => (r.cluster s seed.id).toOption := by
    refine map_some_filterMap fun seed hseed => ?_
    obtain ⟨c, d, hcluster, -⟩ := r.cluster_eq_ok hs hg hroom (hseeds seed hseed)
    rw [hcluster]
    rfl
  have hlength := congrArg List.length hfound
  rw [List.length_map, List.length_map] at hlength
  refine ⟨?_, ?_, fun i seed hseed => ?_⟩
  · rw [gather, List.length_map, hlength]
  · rw [gather, List.length_map, hlength]
  · obtain ⟨c, d, hcluster, hexpand, hshows⟩ :=
      r.cluster_eq_ok hs hg hroom (hseeds seed (List.mem_of_getElem? hseed))
    have hi := congrArg (·[i]?) hfound
    simp only [List.getElem?_map, hseed, Option.map_some, hcluster] at hi
    obtain ⟨p, hp, hpair⟩ := Option.map_eq_some_iff.1 hi
    cases hpair
    refine ⟨c, d, ?_, ?_, hexpand, hshows⟩
    · rw [gather, List.getElem?_map, hp]
      rfl
    · rw [gather, List.getElem?_map, hp]
      rfl

variable [Monad m] [LawfulMonad m]

/-- A query with nothing amiss asks for the vector of its text, without the blanks around it. -/
theorem tryQuery_eq (r : Retrieval m) {e : Embedder m} (he : r.embedder = some e) (hs : s.connected)
    {text : String} (htext : Text.trimmed text ≠ "") {count : Nat} (hcount : 1 ≤ count) :
    r.tryQuery s text count = r.answer s e.name count <$> e.embed (Text.trimmed text) := by
  have hprobe : Store.retrieved s.probe = .ok () := by rw [Store.probe, if_pos hs]; rfl
  have hblank : ¬(Text.trimmed text).isEmpty := fun h => htext (String.isEmpty_iff.1 h)
  have hsome : count ≠ 0 := Nat.ne_of_gt hcount
  simp only [tryQuery, hprobe, he, if_neg hblank, if_neg hsome]
  exact bind_pure_comp _ _

/-- **Both views of a query agree and no seed is lost.** For a vector of the index's dimension
a query answers the cluster of each seed that the index finds, once as its ids and once with
all that is shown of them. -/
theorem views_agree (r : Retrieval m) {e : Embedder m} (he : r.embedder = some e)
    (h : Store.History) (hroom : (Store.History.store h).state.graph.WithinRoom)
    {index : VectorIndex}
    (hindex : (Store.History.store h).state.indexes.get? r.indexName = some index) {text : String}
    (htext : Text.trimmed text ≠ "") {count : Nat} (hcount : 1 ≤ count) :
    r.tryQuery (Store.History.store h) text count =
        r.answer (Store.History.store h) e.name count <$> e.embed (Text.trimmed text) ∧
      ∀ v, v ≠ [] → v.length = index.dimensions →
        ∃ seeds result, (Store.History.store h).nearest r.indexName v count = .ok seeds ∧
          r.answer (Store.History.store h) e.name count (.ok v) = .ok result ∧
          result.Covers r (Store.History.store h) seeds := by
  have hs := Store.History.connected h
  refine ⟨r.tryQuery_eq he hs htext hcount, fun v hne hv => ?_⟩
  obtain ⟨seeds, hseeds, hinside⟩ := Store.nearest_eq_ok hs hindex hv count
  refine ⟨seeds, r.gather _ seeds, hseeds, ?_,
    r.covers_gather hs (Store.History.consistent h).graph hroom hinside⟩
  obtain ⟨x, v, rfl⟩ := List.exists_cons_of_ne_nil hne
  simp only [answer, Retrieval.seeds, hseeds]
  rfl

/-- A class and its method, which an index covers. -/
def coveredMethod : Store.History :=
  [.createIndex ⟨"methodEmbeddings", .method, "embedding", 1⟩,
    .setAttribute 1 "embedding" (.vector [⟨0x3f800000⟩]),
    .mergeEdge ⟨.classType, "A"⟩ ⟨.method, "A.m()"⟩ .hasMethod,
    .mergeNode ⟨.method, "A.m()"⟩ Dict.empty, .mergeNode ⟨.classType, "A"⟩ Dict.empty]

/-- An embedder with one vector for all texts. -/
def sameVector : Embedder Id where
  name := "same"
  dimensions := 1
  embed _ := .ok [⟨0x3f800000⟩]
  embedBatch texts := .ok (texts.map fun _ => [⟨0x3f800000⟩])

theorem views_agree_coveredMethod :
    ∃ seeds result,
      (Store.History.store coveredMethod).nearest "methodEmbeddings" [⟨0x3f800000⟩] 5 = .ok seeds ∧
      seeds.map (·.id) = [1] ∧
      Retrieval.tryQuery ⟨some sameVector, "methodEmbeddings", .induced, Pattern.defaults⟩
        (Store.History.store coveredMethod) " run " 5 = .ok result ∧
      result.Covers (Retrieval.mk (some sameVector) "methodEmbeddings" .induced Pattern.defaults)
        (Store.History.store coveredMethod) seeds := by
  have hroom : (Store.History.store coveredMethod).state.graph.WithinRoom := by decide +kernel
  have hindex : (Store.History.store coveredMethod).state.indexes.get? "methodEmbeddings" =
      some ⟨"methodEmbeddings", .method, "embedding", 1⟩ := by
    decide +kernel
  have htext : Text.trimmed " run " ≠ "" := by decide +kernel
  obtain ⟨hquery, hanswer⟩ := views_agree
    ⟨some sameVector, "methodEmbeddings", .induced, Pattern.defaults⟩ rfl coveredMethod hroom
      hindex htext
    (by decide : 1 ≤ 5)
  obtain ⟨seeds, result, hseeds, hresult, hcovers⟩ := hanswer [⟨0x3f800000⟩] (by decide) rfl
  have hids : ((Store.History.store coveredMethod).nearest "methodEmbeddings" [⟨0x3f800000⟩] 5).map
      (·.map (·.id)) = .ok [1] := by
    decide +kernel
  rw [hseeds] at hids
  exact ⟨seeds, result, hseeds, Except.ok.inj hids, hquery.trans hresult, hcovers⟩

end Retrieval

end CodeGraph
