import CodeGraph.Graph.Basic
import Mathlib.Data.List.Nodup

/-!
# Listings of a graph

`Graph.nodeList` and `Graph.edgeList` number what they list, so they hold a number at most
once and name what stands there. Each node carries one label: the listings by label share out
the nodes (`perm_withLabel`).
-/

namespace CodeGraph.Graph

variable {g : Graph}

theorem mem_nodeList {x : NodeId × Node} : x ∈ g.nodeList ↔ g.nodes[x.1]? = some x.2 := by
  obtain ⟨i, n⟩ := x
  rw [nodeList, List.mem_map, ← Array.getElem?_toList, ← List.mk_mem_zipIdx_iff_getElem?]
  constructor
  · rintro ⟨⟨n', i'⟩, hmem, h⟩
    cases h
    exact hmem
  · exact fun hmem => ⟨(n, i), hmem, rfl⟩

theorem mem_edgeList {x : EdgeId × Edge} : x ∈ g.edgeList ↔ g.edges[x.1]? = some x.2 := by
  obtain ⟨i, e⟩ := x
  rw [edgeList, List.mem_map, ← Array.getElem?_toList, ← List.mk_mem_zipIdx_iff_getElem?]
  constructor
  · rintro ⟨⟨e', i'⟩, hmem, h⟩
    cases h
    exact hmem
  · exact fun hmem => ⟨(e, i), hmem, rfl⟩

theorem map_fst_nodeList (g : Graph) : g.nodeList.map (·.1) = List.range g.nodes.size := by
  rw [nodeList, List.map_map]
  exact (List.zipIdx_map_snd 0 _).trans (by rw [Array.length_toList, List.range_eq_range'])

theorem length_nodeList (g : Graph) : g.nodeList.length = g.nodes.size := by
  rw [← List.length_map (·.1), map_fst_nodeList, List.length_range]

theorem map_fst_edgeList (g : Graph) : g.edgeList.map (·.1) = List.range g.edges.size := by
  rw [edgeList, List.map_map]
  exact (List.zipIdx_map_snd 0 _).trans (by rw [Array.length_toList, List.range_eq_range'])

theorem mem_withLabel {l : Label} {i : NodeId} :
    i ∈ g.withLabel l ↔ ∃ n, g.nodes[i]? = some n ∧ n.label = l := by
  simp only [withLabel, List.mem_map, List.mem_filter, mem_nodeList, beq_iff_eq]
  constructor
  · rintro ⟨⟨i, n⟩, hn, rfl⟩
    exact ⟨n, hn⟩
  · rintro ⟨n, hn⟩
    exact ⟨(i, n), hn, rfl⟩

theorem nodup_withLabel (g : Graph) (l : Label) : (g.withLabel l).Nodup := by
  have hsub : (g.withLabel l).Sublist (List.range g.nodes.size) :=
    map_fst_nodeList g ▸ List.filter_sublist.map _
  exact List.nodup_range.sublist hsub

/-- **The labels share out the nodes.** -/
theorem perm_withLabel (g : Graph) :
    (Label.all.flatMap g.withLabel).Perm (List.range g.nodes.size) := by
  have hlabels : Label.all.Nodup := by decide
  have hnodup : (Label.all.flatMap g.withLabel).Nodup := by
    refine List.nodup_flatMap.2 ⟨fun l _ => nodup_withLabel g l, hlabels.imp fun {l l'} hne => ?_⟩
    intro i hi hi'
    obtain ⟨n, hn, rfl⟩ := mem_withLabel.1 hi
    obtain ⟨n', hn', rfl⟩ := mem_withLabel.1 hi'
    exact hne (congrArg Node.label (Option.some.inj (hn.symm.trans hn')))
  refine (List.perm_ext_iff_of_nodup hnodup List.nodup_range).2 fun i => ?_
  rw [List.mem_flatMap, List.mem_range]
  constructor
  · rintro ⟨l, -, hi⟩
    obtain ⟨n, hn, -⟩ := mem_withLabel.1 hi
    exact (Array.getElem?_eq_some_iff.1 hn).1
  · intro hi
    exact ⟨_, Label.mem_all _, mem_withLabel.2 ⟨_, Array.getElem?_eq_getElem hi, rfl⟩⟩

/-- The relationships within a set of nodes, whichever lists it. -/
theorem mem_inducedEdges {ids : List NodeId} {i : EdgeId} :
    i ∈ g.inducedEdges ids ↔ ∃ e, g.edges[i]? = some e ∧ e.start ∈ ids ∧ e.target ∈ ids := by
  simp only [inducedEdges, List.mem_map, List.mem_filter, mem_edgeList, Bool.and_eq_true,
    List.contains_iff_mem]
  constructor
  · rintro ⟨⟨i, e⟩, he, rfl⟩
    exact ⟨e, he⟩
  · rintro ⟨e, he⟩
    exact ⟨(i, e), he, rfl⟩

theorem nodup_inducedEdges (g : Graph) (ids : List NodeId) : (g.inducedEdges ids).Nodup := by
  have hsub : (g.inducedEdges ids).Sublist (List.range g.edges.size) :=
    map_fst_edgeList g ▸ List.filter_sublist.map _
  exact List.nodup_range.sublist hsub

end CodeGraph.Graph
