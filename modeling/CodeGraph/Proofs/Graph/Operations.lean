import CodeGraph.Proofs.Graph.Content
import Std.Data.HashMap.Lemmas

/-!
# Runs of graph operations

An `Operation` is a call that changes a graph: a merge of a node or a relationship, the write
of one of their attributes, or the removal of everything. `Graph.run` performs a list of them
and lists what they answer.

* `persists_run`: as long as nothing is removed, nodes, relationships and the names of their
  attributes stay, under the same ids.
* `IndexedGraph` keeps, beside the nodes and relationships, a table from natural keys to nodes and
  one from ends and kinds to relationships. `IndexedGraph.inStep_run`: the tables stay in step with
  what is stored, so that looking into them and searching come to the same (`IndexedGraph.run_eq`).
-/

namespace CodeGraph

/-- A call that changes a graph. -/
inductive Operation
  | mergeNode (key : NodeKey) (given : Attributes)
  | mergeEdge (start target : NodeId) (relation : Relation)
  | writeNode (id : NodeId) (name : String) (value : Value)
  | writeEdge (id : EdgeId) (name : String) (value : Value)
  | clear
deriving DecidableEq

/-- What an operation answers: the id of what was merged and whether it is new, that it was done, or
that an id names nothing. -/
inductive Answer
  | merged (id : Nat) (isNew : Bool)
  | done
  | missing
deriving DecidableEq

namespace Graph

/-- Perform an operation. -/
def perform (g : Graph) : Operation → Answer × Graph
  | .mergeNode key given =>
    let (g', id, isNew) := g.mergeNode key given
    (.merged id isNew, g')
  | .mergeEdge start target relation =>
    match g.mergeEdge start target relation with
    | some (g', id, isNew) => (.merged id isNew, g')
    | none => (.missing, g)
  | .writeNode id name value =>
    match g.modifyNode id (·.insert name value) with
    | some g' => (.done, g')
    | none => (.missing, g)
  | .writeEdge id name value =>
    match g.modifyEdge id (·.insert name value) with
    | some g' => (.done, g')
    | none => (.missing, g)
  | .clear => (.done, empty)

/-- Perform operations in order. -/
def run : List Operation → Graph → List Answer × Graph
  | [], g => ([], g)
  | op :: ops, g =>
    let (answer, g') := g.perform op
    let (answers, g'') := run ops g'
    (answer :: answers, g'')

theorem run_append (ops ops' : List Operation) (g : Graph) :
    (run (ops ++ ops') g).2 = (run ops' (run ops g).2).2 := by
  induction ops generalizing g with
  | nil => rfl
  | cons op ops ih => exact ih (g.perform op).2

/-! ## The four changes -/

variable {g g' g'' : Graph}

/-- What an operation makes of a graph: at most one of the four changes, or nothing at all. -/
theorem perform_cases (g : Graph) (op : Operation) :
    (∃ key given, op = .mergeNode key given ∧ (g.perform op).2 = (g.mergeNode key given).1) ∨
    (g.perform op).2 = g ∨
    (∃ a b relation, g.position? a = some a ∧ g.position? b = some b ∧
      g.findEdge? a b relation = none ∧
      (g.perform op).2 = { g with edges := g.edges.push ⟨a, b, relation, Dict.empty⟩ }) ∨
    (∃ i name value, (g.perform op).2 = { g with nodes := g.nodes.modify i fun n =>
      { n with attributes := n.attributes.insert name value } }) ∨
    (∃ i name value, (g.perform op).2 = { g with edges := g.edges.modify i fun e =>
      { e with attributes := e.attributes.insert name value } }) ∨
    op = .clear ∧ (g.perform op).2 = empty := by
  cases op with
  | mergeNode key given => exact .inl ⟨key, given, rfl, rfl⟩
  | mergeEdge start target relation =>
    cases hmerge : g.mergeEdge start target relation with
    | none => exact .inr (.inl (by simp only [perform, hmerge]))
    | some p =>
      obtain ⟨g', id, isNew⟩ := p
      have hperform : (g.perform (.mergeEdge start target relation)).2 = g' := by
        simp only [perform, hmerge]
      rcases mergeEdge_cases hmerge with rfl | ⟨a, b, ha, hb, hfind, -, rfl⟩
      · exact .inr (.inl hperform)
      · exact .inr (.inr (.inl ⟨a, b, relation, position?_of_position?_eq_some ha,
          position?_of_position?_eq_some hb, hfind, hperform⟩))
  | writeNode id name value =>
    cases hpos : g.position? id with
    | none => exact .inr (.inl (by simp [perform, modifyNode, hpos]))
    | some i =>
      exact .inr (.inr (.inr (.inl ⟨i, name, value, by simp [perform, modifyNode, hpos]⟩)))
  | writeEdge id name value =>
    cases hpos : (slot? id).filter (· < g.edges.size) with
    | none => exact .inr (.inl (by simp [perform, modifyEdge, hpos]))
    | some i =>
      exact .inr (.inr (.inr (.inr (.inl ⟨i, name, value, by simp [perform, modifyEdge, hpos]⟩))))
  | clear => exact .inr (.inr (.inr (.inr (.inr ⟨rfl, rfl⟩))))

/-! ## Persistence -/

/-- Every attribute name of the first map is one of the second. -/
def NamesStay (old new : Attributes) : Prop :=
  ∀ name, (old.get? name).isSome → (new.get? name).isSome

/-- Nodes, relationships and their attribute names stay, under the same ids. -/
structure Persists (g g' : Graph) : Prop where
  nodes : ∀ (i : NodeId) (n : Node), g.nodes[i]? = some n →
    ∃ n' : Node, g'.nodes[i]? = some n' ∧ n'.nodeKey = n.nodeKey ∧
      NamesStay n.attributes n'.attributes
  edges : ∀ (i : EdgeId) (e : Edge), g.edges[i]? = some e →
    ∃ e' : Edge, g'.edges[i]? = some e' ∧ e'.ends = e.ends ∧ NamesStay e.attributes e'.attributes

theorem NamesStay.refl (attrs : Attributes) : NamesStay attrs attrs := fun _ h => h

theorem namesStay_insert (attrs : Attributes) (name : String) (value : Value) :
    NamesStay attrs (attrs.insert name value) := by
  intro other hother
  rw [Dict.get?_insert]
  split
  · rfl
  · exact hother

theorem namesStay_overwrite (label : Label) (given old : Attributes) :
    NamesStay old (overwrite label given old) := by
  intro name hname
  by_cases hkey : name = label.keyAttribute
  · rw [hkey, get?_overwrite_keyAttribute, ← hkey]
    exact hname
  · rw [get?_overwrite hkey, Option.isSome_or, hname, Bool.or_true]

namespace Persists

theorem refl (g : Graph) : Persists g g :=
  ⟨fun _ n h => ⟨n, h, rfl, .refl _⟩, fun _ e h => ⟨e, h, rfl, .refl _⟩⟩

theorem trans (h : Persists g g') (h' : Persists g' g'') : Persists g g'' where
  nodes i n hn := by
    obtain ⟨n', hn', hkey, hnames⟩ := h.nodes i n hn
    obtain ⟨n'', hn'', hkey', hnames'⟩ := h'.nodes i n' hn'
    exact ⟨n'', hn'', hkey'.trans hkey, fun name hname => hnames' name (hnames name hname)⟩
  edges i e he := by
    obtain ⟨e', he', hends, hnames⟩ := h.edges i e he
    obtain ⟨e'', he'', hends', hnames'⟩ := h'.edges i e' he'
    exact ⟨e'', he'', hends'.trans hends, fun name hname => hnames' name (hnames name hname)⟩

theorem pushNode (g : Graph) (n : Node) : Persists g { g with nodes := g.nodes.push n } where
  nodes i m hm := by
    have hlt : i < g.nodes.size := (Array.getElem?_eq_some_iff.1 hm).1
    exact ⟨m, by rw [Array.getElem?_push, if_neg (Nat.ne_of_lt hlt), hm], rfl, .refl _⟩
  edges _ e he := ⟨e, he, rfl, .refl _⟩

theorem pushEdge (g : Graph) (e : Edge) : Persists g { g with edges := g.edges.push e } where
  nodes _ n hn := ⟨n, hn, rfl, .refl _⟩
  edges i d hd := by
    have hlt : i < g.edges.size := (Array.getElem?_eq_some_iff.1 hd).1
    exact ⟨d, by rw [Array.getElem?_push, if_neg (Nat.ne_of_lt hlt), hd], rfl, .refl _⟩

theorem modifyNode (g : Graph) (i : Nat) {f : Attributes → Attributes}
    (hf : ∀ a, NamesStay a (f a)) :
    Persists g { g with nodes := g.nodes.modify i fun n =>
      { n with attributes := f n.attributes } } where
  nodes j n hn := by
    rw [Array.getElem?_modify, hn, Option.map_some]
    split
    · exact ⟨_, rfl, rfl, hf n.attributes⟩
    · exact ⟨n, rfl, rfl, .refl _⟩
  edges _ e he := ⟨e, he, rfl, .refl _⟩

theorem modifyEdge (g : Graph) (i : Nat) {f : Attributes → Attributes}
    (hf : ∀ a, NamesStay a (f a)) :
    Persists g { g with edges := g.edges.modify i fun e =>
      { e with attributes := f e.attributes } } where
  nodes _ n hn := ⟨n, hn, rfl, .refl _⟩
  edges j e he := by
    rw [Array.getElem?_modify, he, Option.map_some]
    split
    · exact ⟨_, rfl, rfl, hf e.attributes⟩
    · exact ⟨e, rfl, rfl, .refl _⟩

theorem mergeNode (g : Graph) (key : NodeKey) (given : Attributes) :
    Persists g (g.mergeNode key given).1 := by
  cases hfind : g.find? key with
  | none =>
    rw [mergeNode_of_find?_eq_none hfind]
    exact pushNode g _
  | some id =>
    rw [mergeNode_of_find?_eq_some hfind]
    exact modifyNode g id (namesStay_overwrite key.label given)

end Persists

theorem persists_perform (g : Graph) {op : Operation} (h : op ≠ .clear) :
    Persists g (g.perform op).2 := by
  rcases perform_cases g op with ⟨key, given, -, hop⟩ | hop | ⟨a, b, relation, -, -, -, hop⟩ |
    ⟨i, name, value, hop⟩ | ⟨i, name, value, hop⟩ | ⟨hclear, -⟩
  · rw [hop]
    exact .mergeNode g key given
  · rw [hop]
    exact .refl g
  · rw [hop]
    exact .pushEdge g _
  · rw [hop]
    exact .modifyNode g i fun attrs => namesStay_insert attrs name value
  · rw [hop]
    exact .modifyEdge g i fun attrs => namesStay_insert attrs name value
  · exact absurd hclear h

/-- Without a removal nothing is lost and nothing changes its identity. -/
theorem persists_run (ops : List Operation) (g : Graph) (h : .clear ∉ ops) :
    Persists g (run ops g).2 := by
  induction ops generalizing g with
  | nil => exact .refl g
  | cons op ops ih =>
    rw [List.mem_cons, not_or] at h
    exact (persists_perform g (Ne.symm h.1)).trans (ih _ h.2)

end Graph

/-! ## Tables beside the storage -/

deriving instance Hashable for Label, Relation, NodeKey

/-- A graph with a table of its nodes and one of its relationships. -/
structure IndexedGraph where
  storage : Graph
  nodes : Std.HashMap NodeKey NodeId
  edges : Std.HashMap (NodeId × NodeId × Relation) EdgeId

namespace IndexedGraph

def empty : IndexedGraph := ⟨Graph.empty, ∅, ∅⟩

/-- Overwrite the given attributes of a stored node. -/
def overwriteAt (x : IndexedGraph) (key : NodeKey) (id : NodeId) (given : Attributes) :
    IndexedGraph :=
  { x with storage.nodes := x.storage.nodes.modify id fun n =>
      { n with attributes := Graph.overwrite key.label given n.attributes } }

/-- Store a new node and enter it into the table. -/
def addNode (x : IndexedGraph) (key : NodeKey) : IndexedGraph :=
  { x with
    storage.nodes := x.storage.nodes.push (Graph.freshNode key)
    nodes := x.nodes.insert key x.storage.nodes.size }

/-- Look a node up or add it, then overwrite the given attributes. -/
def mergeNode (x : IndexedGraph) (key : NodeKey) (given : Attributes) :
    IndexedGraph × NodeId × Bool :=
  match x.nodes[key]? with
  | some id => (x.overwriteAt key id given, id, false)
  | none => ((x.addNode key).overwriteAt key x.storage.nodes.size given, x.storage.nodes.size, true)

/-- Look a relationship up or add it. -/
def mergeEdge (x : IndexedGraph) (start target : NodeId) (relation : Relation) :
    Option (IndexedGraph × EdgeId × Bool) := do
  let a ← x.storage.position? start
  let b ← x.storage.position? target
  match x.edges[(a, b, relation)]? with
  | some id => return (x, id, false)
  | none =>
    return ({ x with
      storage.edges := x.storage.edges.push ⟨a, b, relation, Dict.empty⟩
      edges := x.edges.insert (a, b, relation) x.storage.edges.size }, x.storage.edges.size, true)

/-- Perform an operation. -/
def perform (x : IndexedGraph) : Operation → Answer × IndexedGraph
  | .mergeNode key given =>
    let (x', id, isNew) := x.mergeNode key given
    (.merged id isNew, x')
  | .mergeEdge start target relation =>
    match x.mergeEdge start target relation with
    | some (x', id, isNew) => (.merged id isNew, x')
    | none => (.missing, x)
  | .writeNode id name value =>
    match x.storage.modifyNode id (·.insert name value) with
    | some storage => (.done, { x with storage })
    | none => (.missing, x)
  | .writeEdge id name value =>
    match x.storage.modifyEdge id (·.insert name value) with
    | some storage => (.done, { x with storage })
    | none => (.missing, x)
  | .clear => (.done, empty)

/-- Perform operations in order. -/
def run : List Operation → IndexedGraph → List Answer × IndexedGraph
  | [], x => ([], x)
  | op :: ops, x =>
    let (answer, x') := x.perform op
    let (answers, x'') := run ops x'
    (answer :: answers, x'')

/-- The tables answer what a search of the storage answers. -/
structure InStep (x : IndexedGraph) : Prop where
  nodes : ∀ key, x.nodes[key]? = x.storage.find? key
  edges : ∀ start target relation,
    x.edges[(start, target, relation)]? = x.storage.findEdge? start target relation

variable {x : IndexedGraph}

theorem inStep_empty : empty.InStep := by
  refine ⟨fun key => ?_, fun start target relation => ?_⟩
  · rw [Graph.find?_eq_findIdx?]
    simp [empty, Graph.keys, Graph.empty]
  · rw [Graph.findEdge?_eq_findIdx?]
    simp [empty, Graph.ends, Graph.empty]

/-- Tables in step stay so as long as keys and ends do. -/
theorem InStep.of_eq (h : x.InStep) {storage : Graph} (hkeys : storage.keys = x.storage.keys)
    (hends : storage.ends = x.storage.ends) : InStep { x with storage } where
  nodes key := (h.nodes key).trans (Graph.find?_congr hkeys key).symm
  edges start target relation := by
    rw [h.edges, Graph.findEdge?_eq_findIdx?, Graph.findEdge?_eq_findIdx?, hends]

theorem InStep.addNode (h : x.InStep) {key : NodeKey} (hkey : x.storage.find? key = none) :
    (x.addNode key).InStep where
  nodes other := by
    have hnone : key ∉ x.storage.keys := Graph.find?_eq_none_iff.1 hkey
    rw [Graph.find?_eq_findIdx?]
    simp only [IndexedGraph.addNode, Graph.keys_push, Std.HashMap.getElem?_insert, beq_iff_eq]
    rw [h.nodes, Graph.find?_eq_findIdx?, ← Graph.length_keys]
    split
    case isTrue heq =>
      subst heq
      exact (Graph.findIdx?_concat_self hnone).symm
    case isFalse hne =>
      have hlast : (Graph.freshNode key).nodeKey ≠ other := hne
      rw [List.findIdx?_append, List.findIdx?_singleton, if_neg (by simpa using hlast),
        Option.map_none,
        Option.or_none]
  edges := h.edges

theorem InStep.addEdge (h : x.InStep) {a b : NodeId} {relation : Relation}
    (hnone : x.storage.findEdge? a b relation = none) :
    InStep { x with
      storage.edges := x.storage.edges.push ⟨a, b, relation, Dict.empty⟩
      edges := x.edges.insert (a, b, relation) x.storage.edges.size } where
  nodes := h.nodes
  edges start target kind := by
    have hend : (a, b, relation) ∉ x.storage.ends := Graph.findEdge?_eq_none_iff.1 hnone
    rw [Graph.findEdge?_eq_findIdx?, Std.HashMap.getElem?_insert, h.edges,
      Graph.findEdge?_eq_findIdx?, ← Graph.length_ends]
    simp only [Graph.ends, Array.toList_push, List.map_append, List.map_cons, List.map_nil,
      beq_iff_eq]
    split
    case isTrue heq =>
      rw [← heq]
      exact (Graph.findIdx?_concat_self hend).symm
    case isFalse hne =>
      rw [List.findIdx?_append, List.findIdx?_singleton, if_neg (by simpa [Edge.ends] using hne),
        Option.map_none, Option.or_none]

theorem InStep.overwriteAt (h : x.InStep) (key : NodeKey) (id : NodeId) (given : Attributes) :
    (x.overwriteAt key id given).InStep :=
  h.of_eq (Graph.keys_modify x.storage id _) rfl

/-- A merge by the table is the merge by searching. -/
theorem InStep.mergeNode (h : x.InStep) (key : NodeKey) (given : Attributes) :
    (x.mergeNode key given).1.InStep ∧
      ((x.mergeNode key given).1.storage, (x.mergeNode key given).2) =
        x.storage.mergeNode key given := by
  cases hfind : x.storage.find? key with
  | some id =>
    simp only [IndexedGraph.mergeNode, h.nodes, hfind, Graph.mergeNode_of_find?_eq_some hfind]
    exact ⟨h.overwriteAt key id given, rfl⟩
  | none =>
    simp only [IndexedGraph.mergeNode, h.nodes, hfind, Graph.mergeNode_of_find?_eq_none hfind]
    refine ⟨(h.addNode hfind).overwriteAt key _ given, ?_⟩
    simp only [IndexedGraph.overwriteAt, IndexedGraph.addNode, Graph.modify_push_freshNode]

theorem InStep.mergeEdge (h : x.InStep) (start target : NodeId) (relation : Relation) :
    (x.mergeEdge start target relation).map (fun r => (r.1.storage, r.2)) =
        x.storage.mergeEdge start target relation ∧
      ∀ r ∈ x.mergeEdge start target relation, r.1.InStep := by
  cases ha : x.storage.position? start with
  | none => simp [IndexedGraph.mergeEdge, Graph.mergeEdge, ha]
  | some a =>
    cases hb : x.storage.position? target with
    | none => simp [IndexedGraph.mergeEdge, Graph.mergeEdge, ha, hb]
    | some b =>
      cases hfind : x.storage.findEdge? a b relation with
      | some id => simp [IndexedGraph.mergeEdge, Graph.mergeEdge, ha, hb, h.edges, hfind, h]
      | none =>
        simp [IndexedGraph.mergeEdge, Graph.mergeEdge, ha, hb, h.edges, hfind]
        exact h.addEdge hfind

theorem InStep.perform (h : x.InStep) (op : Operation) :
    (x.perform op).2.InStep ∧
    x.storage.perform op = ((x.perform op).1, (x.perform op).2.storage) := by
  cases op with
  | mergeNode key given =>
    obtain ⟨hstep, heq⟩ := h.mergeNode key given
    refine ⟨hstep, ?_⟩
    simp only [Graph.perform, ← heq, IndexedGraph.perform]
  | mergeEdge start target relation =>
    obtain ⟨heq, hstep⟩ := h.mergeEdge start target relation
    cases hmerge : x.mergeEdge start target relation with
    | none =>
      rw [hmerge, Option.map_none] at heq
      simp only [Graph.perform, ← heq, IndexedGraph.perform, hmerge]
      exact ⟨h, trivial⟩
    | some r =>
      rw [hmerge, Option.map_some] at heq
      simp only [Graph.perform, ← heq, IndexedGraph.perform, hmerge]
      exact ⟨hstep r hmerge, trivial⟩
  | writeNode id name value =>
    cases hpos : x.storage.position? id with
    | none => simp [Graph.perform, IndexedGraph.perform, Graph.modifyNode, hpos, h]
    | some i =>
      simp only [Graph.perform, IndexedGraph.perform, Graph.modifyNode, hpos]
      exact ⟨h.of_eq (Graph.keys_modify x.storage i (·.insert name value)) rfl, rfl⟩
  | writeEdge id name value =>
    cases hpos : (Graph.slot? id).filter (· < x.storage.edges.size) with
    | none => simp [Graph.perform, IndexedGraph.perform, Graph.modifyEdge, hpos, h]
    | some i =>
      simp only [Graph.perform, IndexedGraph.perform, Graph.modifyEdge, hpos]
      exact ⟨h.of_eq rfl (Graph.ends_modify x.storage i (·.insert name value)), rfl⟩
  | clear => exact ⟨inStep_empty, rfl⟩

/-- **Storage and tables stay in step**, and the answers are those of a graph that searches. -/
theorem InStep.run (h : x.InStep) (ops : List Operation) :
    (run ops x).2.InStep ∧ Graph.run ops x.storage = ((run ops x).1, (run ops x).2.storage) := by
  induction ops generalizing x with
  | nil => exact ⟨h, rfl⟩
  | cons op ops ih =>
    obtain ⟨hstep, hop⟩ := h.perform op
    obtain ⟨hrest, hops⟩ := ih hstep
    refine ⟨hrest, ?_⟩
    simp only [Graph.run, IndexedGraph.run, hop, hops]

end IndexedGraph

end CodeGraph
