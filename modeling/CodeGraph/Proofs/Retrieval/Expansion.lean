import CodeGraph.Proofs.Graph.Discovery
import CodeGraph.Retrieval.Cluster

/-!
# The expansion of a seed

A cluster holds what the traversals from its seed report, each thing where it is first encountered
(`FirstEncounters`), and its relationships are then left to the policy.

* `Store.expand_eq`: the expansion of an existing seed by any patterns.
* `Store.expand_union`: what the default patterns gather, in terms of distances in the graph.
* `Store.policies_nested`: the relationships that the three policies keep of it.
-/

namespace CodeGraph

/-! ## First encounters -/

/-- A list holds what another one holds, in the order in which it is first encountered there. -/
structure FirstEncounters {α : Type} [BEq α] (l firsts : List α) : Prop where
  mem : ∀ a, a ∈ firsts ↔ a ∈ l
  ordered : firsts.Pairwise fun a b => l.idxOf a < l.idxOf b

section

variable {α : Type} [BEq α]

theorem FirstEncounters.nodup {l firsts : List α} (h : FirstEncounters l firsts) :
    firsts.Nodup := by
  refine h.ordered.imp fun {a b} hlt heq => ?_
  rw [heq] at hlt
  exact Nat.lt_irrefl _ hlt

variable [LawfulBEq α]

/-- Two of the elements that a filter leaves come in the same order before it. -/
theorem idxOf_lt_of_filter {p : α → Bool} {l : List α} {a b : α} (ha : p a) (hb : p b)
    (h : (l.filter p).idxOf a < (l.filter p).idxOf b) : l.idxOf a < l.idxOf b := by
  induction l with
  | nil => exact absurd h (Nat.lt_irrefl 0)
  | cons c l ih => grind

/-- **Erasing duplicates keeps first encounters.** -/
theorem firstEncounters_eraseDups : (l : List α) → FirstEncounters l l.eraseDups
  | [] => ⟨fun a => by simp, by simp⟩
  | a :: l => by
    refine ⟨fun b => List.mem_eraseDups, ?_⟩
    have hrest := firstEncounters_eraseDups (l.filter fun b => !b == a)
    have hother {b : α} (hb : b ∈ (l.filter fun b => !b == a).eraseDups) : (!b == a) = true :=
      (List.mem_filter.1 ((hrest.mem b).1 hb)).2
    rw [List.eraseDups_cons]
    refine List.pairwise_cons.2 ⟨fun b hb => ?_, hrest.ordered.imp_of_mem fun {b c} hb hc hlt => ?_⟩
    · have hne := hother hb
      grind
    · have hneb := hother hb
      have hnec := hother hc
      have hlt := idxOf_lt_of_filter (p := fun b => !b == a) hneb hnec hlt
      grind
termination_by l => l.length
decreasing_by exact Nat.lt_succ_of_le (List.length_filter_le _ _)

/-- An element that is first encountered at the end stands at the end. -/
theorem eraseDups_concat {l : List α} {a : α} (ha : a ∉ l) :
    (l ++ [a]).eraseDups = l.eraseDups ++ [a] := by
  have hnew : [a].removeAll l = [a] := by simpa [List.removeAll] using ha
  rw [List.eraseDups_append, hnew]
  rfl

end

namespace Graph

/-! ## Distances by kinds of relationship -/

/-- Nodes are joined by the relationships of some kinds, whichever way these lead. -/
def joinedBy (g : Graph) (kinds : Relation → Prop) : SimpleGraph NodeId :=
  .fromRel fun m n => ∃ e ∈ g.edges, kinds e.relation ∧ e.start = m ∧ e.target = n

variable {g : Graph}

theorem joined_eq_joinedBy {spec : TraversalSpec} {kinds : Relation → Prop}
    (h : ∀ r, spec.allows r ↔ kinds r) : g.joined spec = g.joinedBy kinds := by
  simp only [joined, joinedBy, h]

theorem joined_callChain : g.joined Pattern.callChain = g.joinedBy (· = .callsMethod) :=
  joined_eq_joinedBy fun r => by simp [TraversalSpec.allows, Pattern.callChain]

theorem joined_of_relations_eq_none (spec : TraversalSpec) (h : spec.relations = none) :
    g.joined spec = g.joinedBy fun _ => True :=
  joined_eq_joinedBy fun r => by simp [TraversalSpec.allows, h]

/-- The relationships between nodes of a list come in the order of their numbers. -/
theorem pairwise_inducedEdges (g : Graph) (ids : List NodeId) :
    (g.inducedEdges ids).Pairwise (· < ·) := by
  have hsub : (g.inducedEdges ids).Sublist (List.range g.edges.size) :=
    map_fst_edgeList g ▸ List.filter_sublist.map _
  exact List.pairwise_lt_range.sublist hsub

/-! ## What the default patterns find -/

theorem nearestFirst_callChain (g : Graph) (i : NodeId) :
    NearestFirst (g.joinedBy (· = .callsMethod)) i 1 3 (fun _ => True)
      ((g.reported Pattern.callChain i).map (·.node)) := by
  rw [← joined_callChain]
  exact (g.nearestFirst_reported Pattern.callChain i).congr fun n =>
    iff_true_intro (TraversalSpec.passes_of_label_eq_none rfl _)

theorem nearestFirst_neighbourhood (g : Graph) (i : NodeId) :
    NearestFirst (g.joinedBy fun _ => True) i 1 2 (fun _ => True)
      ((g.reported Pattern.neighbourhood i).map (·.node)) := by
  rw [← joined_of_relations_eq_none Pattern.neighbourhood rfl]
  exact (g.nearestFirst_reported Pattern.neighbourhood i).congr fun n =>
    iff_true_intro (TraversalSpec.passes_of_label_eq_none rfl _)

theorem nearestFirst_nearbyMethods (g : Graph) (i : NodeId) :
    NearestFirst (g.joinedBy fun _ => True) i 1 3
      (fun n => ∃ node, g.nodes[n]? = some node ∧ node.label = .method)
      ((g.reported Pattern.nearbyMethods i).map (·.node)) := by
  rw [← joined_of_relations_eq_none Pattern.nearbyMethods rfl]
  exact (g.nearestFirst_reported Pattern.nearbyMethods i).congr fun n =>
    TraversalSpec.passes_iff_of_label_eq_some rfl _

/-- What the default patterns find besides the start, one pattern after another. -/
def surroundings (g : Graph) (i : NodeId) : List NodeId :=
  (g.reported Pattern.callChain i).map (·.node) ++
    ((g.reported Pattern.neighbourhood i).map (·.node)).take 30 ++
    ((g.reported Pattern.nearbyMethods i).map (·.node)).take 10

/-- Only the last of the default patterns finds the start. -/
theorem start_notMem_surroundings (g : Graph) (i : NodeId) : i ∉ g.surroundings i := by
  simp only [surroundings, List.mem_append, not_or]
  exact ⟨⟨(nearestFirst_callChain g i).start_notMem one_pos,
    fun h => (nearestFirst_neighbourhood g i).start_notMem one_pos (List.mem_of_mem_take h)⟩,
    fun h => (nearestFirst_nearbyMethods g i).start_notMem one_pos (List.mem_of_mem_take h)⟩

theorem flatMap_nodes_defaults (g : Graph) (i : NodeId) :
    (Pattern.defaults.map (g.found · i)).flatMap (·.nodes) = g.surroundings i ++ [i] := by
  simp only [surroundings, List.append_assoc]
  rfl

/-- Only the chain of calls collects relationships. -/
theorem flatMap_relationships_defaults (g : Graph) (i : NodeId) :
    (Pattern.defaults.map (g.found · i)).flatMap (·.relationships) =
      (g.reported Pattern.callChain i).filterMap (·.via) :=
  List.append_nil _

/-- **What the chain of calls collects are calls within the cluster**: the nearer end of each is in
the chain, too, unless it is the start. -/
theorem exists_call_of_mem_via {i : NodeId} {r : EdgeId}
    (hr : r ∈ (g.reported Pattern.callChain i).filterMap (·.via)) :
    ∃ e, g.edges[r]? = some e ∧ e.relation = .callsMethod ∧
      e.start ∈ (g.surroundings i).eraseDups ++ [i] ∧
      e.target ∈ (g.surroundings i).eraseDups ++ [i] := by
  obtain ⟨e, he, hallowed, hends⟩ := exists_edge_of_mem_via (le_refl 1) rfl hr
  have hcall : e.relation = .callsMethod := by
    simpa [TraversalSpec.allows, Pattern.callChain] using hallowed
  have hmem (n : NodeId) (hn : n = e.start ∨ n = e.target) :
      n ∈ (g.surroundings i).eraseDups ++ [i] := by
    rw [List.mem_append, List.mem_eraseDups, List.mem_singleton, surroundings, List.mem_append,
      List.mem_append]
    exact (hends n hn).symm.imp_left fun h => .inl (.inl h)
  exact ⟨e, he, hcall, hmem _ (.inl rfl), hmem _ (.inr rfl)⟩

end Graph

/-! ## Expansion -/

/-- The relationships that a policy keeps in a graph. -/
def RelationshipPolicy.keeps (policy : RelationshipPolicy) (g : Graph) (nodes : List NodeId)
    (traversed : List EdgeId) : List EdgeId :=
  match policy with
  | .omitted => []
  | .traversed => traversed
  | .induced => g.inducedEdges nodes

namespace Store

variable {s : Store} {seed i : NodeId}

theorem select_eq (hs : s.connected) (policy : RelationshipPolicy) (nodes : List NodeId)
    (traversed : List EdgeId) :
    policy.select s nodes traversed = .ok (policy.keeps s.state.graph nodes traversed) := by
  cases policy with
  | omitted => rfl
  | traversed => rfl
  | induced => rw [RelationshipPolicy.select, inducedRelationships, read, if_pos hs]; rfl

theorem traverse_eq (hs : s.connected) (hseed : s.state.graph.position? seed = some i)
    (spec : TraversalSpec) :
    s.traverse seed spec = .ok (s.state.graph.found spec i) := by
  rw [traverse, read, if_pos hs, Graph.traverse_eq_found hseed]

/-- **The expansion of an existing seed** is the union of what all patterns find, with the
relationships that the policy keeps. -/
theorem expand_eq (hs : s.connected) (hseed : s.state.graph.position? seed = some i)
    (patterns : List TraversalSpec) (policy : RelationshipPolicy) :
    let found := patterns.map (s.state.graph.found · i)
    let nodes := (found.flatMap (·.nodes)).eraseDups
    s.expand patterns policy seed = .ok ⟨seed, nodes,
      policy.keeps s.state.graph nodes (found.flatMap (·.relationships)).eraseDups⟩ := by
  have htraverse : s.traverse seed = fun spec => pure (s.state.graph.found spec i) :=
    funext fun spec => traverse_eq hs hseed spec
  have hfound : patterns.mapM (s.traverse seed) = .ok (patterns.map (s.state.graph.found · i)) := by
    rw [htraverse, List.mapM_pure]
    rfl
  simp only [expand, hfound, bind, Except.bind, select_eq hs]
  rfl

/-- **The cluster by the default patterns** ends with its seed. -/
theorem expand_defaults (hs : s.connected) (hseed : s.state.graph.position? seed = some i)
    (policy : RelationshipPolicy) :
    let nodes := (s.state.graph.surroundings i).eraseDups ++ [i]
    s.expand Pattern.defaults policy seed = .ok ⟨seed, nodes, policy.keeps s.state.graph nodes
      ((s.state.graph.reported Pattern.callChain i).filterMap (·.via)).eraseDups⟩ := by
  rw [expand_eq hs hseed, Graph.flatMap_nodes_defaults, Graph.flatMap_relationships_defaults,
    eraseDups_concat (Graph.start_notMem_surroundings _ i)]

/-- **A cluster is the union of its patterns.** By any patterns the cluster of an existing seed has
what their traversals report, in order of first encounter and before the policy selects
relationships; the policy has no part in the nodes. By the default patterns these are the nodes
within three calls, the first thirty within two steps of any kind, the ten nearest methods within
three steps, and last and only there the seed. -/
theorem expand_union (hs : s.connected) (hseed : s.state.graph.position? seed = some i) :
    (∀ patterns : List TraversalSpec,
      ∃ (found : List Traversal) (nodes : List NodeId) (relationships : List EdgeId),
        List.Forall₂ (fun spec t => s.traverse seed spec = .ok t) patterns found ∧
        FirstEncounters (found.flatMap (·.nodes)) nodes ∧
        FirstEncounters (found.flatMap (·.relationships)) relationships ∧
        s.expand patterns .traversed seed = .ok ⟨seed, nodes, relationships⟩ ∧
        ∀ policy, (s.expand patterns policy seed).map (·.nodes) = .ok nodes) ∧
    ∃ calls near methods nodes : List NodeId,
      NearestFirst (s.state.graph.joinedBy (· = .callsMethod)) i 1 3 (fun _ => True) calls ∧
      (s.traverse seed Pattern.callChain).map (·.nodes) = .ok calls ∧
      NearestFirst (s.state.graph.joinedBy fun _ => True) i 1 2 (fun _ => True) near ∧
      (s.traverse seed { Pattern.neighbourhood with cap := none }).map (·.nodes) = .ok near ∧
      NearestFirst (s.state.graph.joinedBy fun _ => True) i 1 3
        (fun n => ∃ node, s.state.graph.nodes[n]? = some node ∧ node.label = .method) methods ∧
      (s.traverse seed { Pattern.nearbyMethods with cap := none }).map (·.nodes) = .ok methods ∧
      FirstEncounters (calls ++ near.take 30 ++ methods.take 10 ++ [i]) nodes ∧
      nodes.count i = 1 ∧ nodes.getLast? = some i ∧
      ∀ policy, (s.expand Pattern.defaults policy seed).map (·.nodes) = .ok nodes := by
  refine ⟨fun patterns => ?_, ?_⟩
  · refine ⟨patterns.map (s.state.graph.found · i), _, _, ?_, firstEncounters_eraseDups _,
      firstEncounters_eraseDups _, expand_eq hs hseed patterns .traversed, fun policy => ?_⟩
    · rw [List.forall₂_map_right_iff, List.forall₂_same]
      exact fun spec _ => traverse_eq hs hseed spec
    · rw [expand_eq hs hseed patterns policy]
      rfl
  · have hlast := eraseDups_concat (s.state.graph.start_notMem_surroundings i)
    have hnodes := firstEncounters_eraseDups (s.state.graph.surroundings i ++ [i])
    rw [hlast] at hnodes
    refine ⟨_, _, _, _, Graph.nearestFirst_callChain _ i, ?_,
      Graph.nearestFirst_neighbourhood _ i, ?_, Graph.nearestFirst_nearbyMethods _ i, ?_, hnodes,
      ?_, List.getLast?_concat, fun policy => ?_⟩
    · rw [traverse_eq hs hseed]
      rfl
    · rw [traverse_eq hs hseed, ← Graph.reported_cap _ _ none]
      rfl
    · rw [traverse_eq hs hseed, ← Graph.reported_cap _ _ none]
      rfl
    · exact List.count_eq_one_of_mem hnodes.nodup List.mem_concat_self
    · rw [expand_defaults hs hseed policy]
      rfl

/-- The method `A.f()` calls itself, calls `A.g()` and is called by it. -/
def callCycle : Store := ofState ⟨Graph.callCycle, Dict.empty⟩

theorem expand_union_callCycle :
    callCycle.connected ∧ callCycle.state.graph.position? 1 = some 1 ∧
      (∃ calls near methods nodes : List NodeId,
        NearestFirst (Graph.callCycle.joinedBy (· = .callsMethod)) 1 1 3 (fun _ => True) calls ∧
        FirstEncounters (calls ++ near.take 30 ++ methods.take 10 ++ [1]) nodes ∧
        nodes.count 1 = 1 ∧ nodes.getLast? = some 1 ∧
        (callCycle.expand Pattern.defaults .induced 1).map (·.nodes) = .ok nodes) ∧
      callCycle.expand Pattern.defaults .traversed 1 = .ok ⟨1, [2, 3, 0, 1], [2, 4]⟩ := by
  have hs : callCycle.connected := rfl
  have hseed : callCycle.state.graph.position? 1 = some 1 := by decide
  obtain ⟨-, calls, near, methods, nodes, hcalls, -, -, -, -, -, hnodes, honce, hlast, hexpand⟩ :=
    expand_union hs hseed
  exact ⟨hs, hseed, ⟨calls, near, methods, nodes, hcalls, hnodes, honce, hlast, hexpand .induced⟩,
    by decide +kernel⟩

/-! ## Policies -/

/-- **The policies are nested.** By the default patterns a cluster has the same nodes under
all three. None of its relationships is kept if they are omitted; induced are exactly those
with both ends in the cluster, each once in the order of their numbers; and what was
traversed are calls among these. -/
theorem policies_nested (hs : s.connected) (hseed : s.state.graph.position? seed = some i) :
    ∃ (nodes : List NodeId) (traversed induced : List EdgeId),
      s.expand Pattern.defaults .omitted seed = .ok ⟨seed, nodes, []⟩ ∧
      s.expand Pattern.defaults .traversed seed = .ok ⟨seed, nodes, traversed⟩ ∧
      s.expand Pattern.defaults .induced seed = .ok ⟨seed, nodes, induced⟩ ∧
      (∀ r, r ∈ induced ↔ ∃ e, s.state.graph.edges[r]? = some e ∧ e.start ∈ nodes ∧
        e.target ∈ nodes) ∧
      induced.Pairwise (· < ·) ∧
      ∀ r ∈ traversed, r ∈ induced ∧ ∃ e, s.state.graph.edges[r]? = some e ∧
        e.relation = .callsMethod := by
  refine ⟨_, _, _, expand_defaults hs hseed .omitted, expand_defaults hs hseed .traversed,
    expand_defaults hs hseed .induced, fun r => Graph.mem_inducedEdges,
    Graph.pairwise_inducedEdges _ _, fun r hr => ?_⟩
  obtain ⟨e, he, hcall, hends⟩ := Graph.exists_call_of_mem_via (List.mem_eraseDups.1 hr)
  exact ⟨Graph.mem_inducedEdges.2 ⟨e, he, hends⟩, e, he, hcall⟩

/-- The calls of `A.f()` by itself and of `A.f()` by `A.g()` are induced and no discoveries. -/
theorem policies_nested_callCycle :
    callCycle.connected ∧ callCycle.state.graph.position? 1 = some 1 ∧
      (∃ (nodes : List NodeId) (traversed induced : List EdgeId),
        callCycle.expand Pattern.defaults .omitted 1 = .ok ⟨1, nodes, []⟩ ∧
        callCycle.expand Pattern.defaults .traversed 1 = .ok ⟨1, nodes, traversed⟩ ∧
        callCycle.expand Pattern.defaults .induced 1 = .ok ⟨1, nodes, induced⟩ ∧
        induced.Pairwise (· < ·) ∧ ∀ r ∈ traversed, r ∈ induced) ∧
      callCycle.expand Pattern.defaults .induced 1 = .ok ⟨1, [2, 3, 0, 1], [0, 1, 2, 3, 4]⟩ := by
  have hs : callCycle.connected := rfl
  have hseed : callCycle.state.graph.position? 1 = some 1 := by decide
  obtain ⟨nodes, traversed, induced, homitted, htraversed, hinduced, -, hsorted, hsubset⟩ :=
    policies_nested hs hseed
  exact ⟨hs, hseed, ⟨nodes, traversed, induced, homitted, htraversed, hinduced, hsorted,
    fun r hr => (hsubset r hr).1⟩, by decide +kernel⟩

end Store

end CodeGraph
