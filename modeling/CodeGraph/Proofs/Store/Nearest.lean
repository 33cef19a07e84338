import CodeGraph.Proofs.Graph.Listing
import CodeGraph.Store.Nearest

/-!
# What a search finds

A search answers positions of the graph (`Store.nearest_eq_ok`), and with a limit that is large
enough it answers every node that the index covers (`Store.mem_nearest`).
-/

namespace CodeGraph

namespace VectorIndex

variable {index : VectorIndex} {g : Graph} {query : List Single}

theorem length_rank_scores_le (index : VectorIndex) (g : Graph) (query : List Single) :
    (rank (index.scores g query)).length ≤ g.nodes.size := by
  rw [rank, List.length_mergeSort, ← g.length_nodeList]
  exact List.length_filterMap_le _ _

/-- The nodes with a score are those that the index covers. -/
theorem mem_rank_scores {hit : ScoredNode} : hit ∈ rank (index.scores g query) ↔
    ∃ n v, g.nodes[hit.id]? = some n ∧ index.vector? n = some v ∧ hit.score = cosine query v := by
  rw [rank, List.mem_mergeSort, scores, List.mem_filterMap]
  constructor
  · rintro ⟨⟨id, n⟩, hn, hscore⟩
    obtain ⟨v, hv, rfl⟩ := Option.map_eq_some_iff.1 hscore
    exact ⟨n, v, Graph.mem_nodeList.1 hn, hv, rfl⟩
  · rintro ⟨n, v, hn, hv, hscore⟩
    exact ⟨(hit.id, n), Graph.mem_nodeList.2 hn, Option.map_eq_some_iff.2 ⟨v, hv, by rw [← hscore]⟩⟩

end VectorIndex

namespace Store

variable {s : Store} {name : String} {index : VectorIndex} {query : List Single}

theorem nearest_eq (hs : s.connected) (hindex : s.state.indexes.get? name = some index)
    (hquery : query.length = index.dimensions) (limit : Nat) :
    s.nearest name query limit = .ok ((rank (index.scores s.state.graph query)).take limit) := by
  simp only [nearest, read, if_pos hs, hindex, if_pos hquery]

/-- A search finds nodes of the graph. -/
theorem nearest_eq_ok (hs : s.connected) (hindex : s.state.indexes.get? name = some index)
    (hquery : query.length = index.dimensions) (limit : Nat) :
    ∃ hits, s.nearest name query limit = .ok hits ∧
      ∀ hit ∈ hits, hit.id < s.state.graph.nodes.size := by
  refine ⟨_, nearest_eq hs hindex hquery limit, fun hit hhit => ?_⟩
  obtain ⟨n, v, hn, -⟩ := VectorIndex.mem_rank_scores.1 (List.mem_of_mem_take hhit)
  exact (Array.getElem?_eq_some_iff.1 hn).1

/-- **A covered node is found** if the limit leaves room for all nodes. -/
theorem mem_nearest (hs : s.connected) (hindex : s.state.indexes.get? name = some index)
    (hquery : query.length = index.dimensions) {limit : Nat}
    (hlimit : s.state.graph.nodes.size ≤ limit) {id : NodeId} {n : Node}
    (hn : s.state.graph.nodes[id]? = some n) {v : List Single}
    (hv : index.vector? n = some v) :
    ∃ hits, s.nearest name query limit = .ok hits ∧ id ∈ hits.map (·.id) := by
  refine ⟨_, nearest_eq hs hindex hquery limit, ?_⟩
  rw [List.take_of_length_le
    (Nat.le_trans (index.length_rank_scores_le s.state.graph query) hlimit)]
  exact List.mem_map.2 ⟨⟨id, cosine query v⟩,
    VectorIndex.mem_rank_scores.2 ⟨n, v, hn, hv, rfl⟩, rfl⟩

end Store

end CodeGraph
