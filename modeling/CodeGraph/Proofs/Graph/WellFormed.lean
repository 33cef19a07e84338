import CodeGraph.Graph.Basic

/-!
# Well-formed graphs

A graph is *well formed* if no two nodes share their natural key, no two relationships share
start, end and kind, and both ends of a relationship are positions of nodes
(`Graph.WellFormed`). It *holds its keys* if every node has its natural key under the key
attribute of its label (`Graph.HoldsKeys`).

Every change of a graph is one of four: a new node, new attributes of a node, a new relationship,
new attributes of a relationship. The lemmas named after these (`WellFormed.pushNode`, …) say when
they keep both properties, and the merges are instances.
-/

namespace CodeGraph

/-- The identity of a relationship. -/
def Edge.ends (e : Edge) : NodeId × NodeId × Relation := (e.start, e.target, e.relation)

/-- The key attribute of a node is its natural key. -/
def Node.HoldsKey (n : Node) : Prop := n.attributes.get? n.label.keyAttribute = some (.text n.key)

namespace Graph

/-- Nodes and relationships are unique, and a relationship joins existing nodes. -/
structure WellFormed (g : Graph) : Prop where
  nodes_unique : (g.nodes.toList.map Node.nodeKey).Nodup
  edges_unique : (g.edges.toList.map Edge.ends).Nodup
  endpoints : ∀ e ∈ g.edges.toList,
    g.position? e.start = some e.start ∧ g.position? e.target = some e.target

/-- Every node holds its natural key. -/
def HoldsKeys (g : Graph) : Prop := ∀ n ∈ g.nodes.toList, n.HoldsKey

theorem wellFormed_empty : empty.WellFormed := ⟨.nil, .nil, fun _ he => by cases he⟩

theorem holdsKeys_empty : empty.HoldsKeys := fun _ hn => by cases hn

/-! ## Positions -/

theorem position?_eq_some {g : Graph} {id i : NodeId} :
    g.position? id = some i ↔ slot? id = some i ∧ i < g.nodes.size := by
  simp [position?, Option.filter_eq_some_iff]

theorem position?_eq_none_iff {g : Graph} {id : NodeId} :
    g.position? id = none ↔ g.node? id = none := by
  rw [position?, node?]
  cases slot? id with
  | none => simp
  | some i => simp [Option.filter_eq_none_iff]

theorem slot?_of_slot?_eq_some {id i : Nat} (h : slot? id = some i) : slot? i = some i := by
  simp only [slot?] at h ⊢
  split at h
  · cases h
  · have hi := Option.some.inj h
    have : i % 0x100000000 = i := by omega
    rw [this, if_neg (by omega)]

theorem position?_of_position?_eq_some {g : Graph} {id i : NodeId} (h : g.position? id = some i) :
    g.position? i = some i := by
  obtain ⟨hslot, hlt⟩ := position?_eq_some.1 h
  exact position?_eq_some.2 ⟨slot?_of_slot?_eq_some hslot, hlt⟩

theorem position?_mono {g g' : Graph} (h : g.nodes.size ≤ g'.nodes.size) {id i : NodeId}
    (hi : g.position? id = some i) : g'.position? id = some i := by
  obtain ⟨hslot, hlt⟩ := position?_eq_some.1 hi
  exact position?_eq_some.2 ⟨hslot, Nat.lt_of_lt_of_le hlt h⟩

/-! ## Look-ups -/

theorem find?_eq_none_iff {g : Graph} {key : NodeKey} :
    g.find? key = none ↔ key ∉ g.nodes.toList.map Node.nodeKey := by
  simp only [find?, Array.findIdx?_eq_none_iff, List.mem_map, Array.mem_toList_iff, not_exists,
    not_and]
  refine forall_congr' fun n => forall_congr' fun _ => ?_
  obtain ⟨label, text⟩ := key
  simp [Node.nodeKey]

theorem find?_eq_some {g : Graph} {key : NodeKey} {id : NodeId} (h : g.find? key = some id) :
    ∃ n, g.nodes[id]? = some n ∧ n.nodeKey = key := by
  obtain ⟨hlt, hn, -⟩ := Array.findIdx?_eq_some_iff_getElem.1 h
  refine ⟨g.nodes[id], Array.getElem?_eq_getElem hlt, ?_⟩
  obtain ⟨label, text⟩ := key
  simpa [Node.nodeKey] using hn

theorem findEdge?_eq_none_iff {g : Graph} {start target : NodeId} {relation : Relation} :
    g.findEdge? start target relation = none ↔
      (start, target, relation) ∉ g.edges.toList.map Edge.ends := by
  simp only [findEdge?, Array.findIdx?_eq_none_iff, List.mem_map, Array.mem_toList_iff, not_exists,
    not_and]
  refine forall_congr' fun e => forall_congr' fun _ => ?_
  simp [Edge.ends]

/-! ## The four changes -/

variable {g : Graph}

theorem map_modify_of_forall_eq {α β : Type} {f : α → α} {p : α → β} (h : ∀ a, p (f a) = p a)
    (l : List α) (i : Nat) : (l.modify i f).map p = l.map p := by
  induction l generalizing i with
  | nil => simp
  | cons a l ih => cases i <;> simp [h, ih]

theorem forall_mem_modify {α : Type} {f : α → α} {p : α → Prop} {l : List α} {i : Nat}
    (hl : ∀ a ∈ l, p a) (hf : ∀ a, l[i]? = some a → p (f a)) : ∀ a ∈ l.modify i f, p a := by
  intro a ha
  obtain ⟨j, hj⟩ := List.mem_iff_getElem?.1 ha
  rw [List.getElem?_modify] at hj
  obtain ⟨b, hb, rfl⟩ := Option.map_eq_some_iff.1 hj
  split
  case isTrue h => exact hf b (h ▸ hb)
  case isFalse => exact hl b (List.mem_of_getElem? hb)

theorem nodup_map_concat {α β : Type} {p : α → β} {l : List α} {a : α} (h : (l.map p).Nodup)
    (ha : p a ∉ l.map p) : ((l ++ [a]).map p).Nodup := by
  rw [List.map_append, List.nodup_append]
  refine ⟨h, by simp, fun x hx y hy => ?_⟩
  cases List.mem_singleton.1 hy
  exact fun heq => ha (heq ▸ hx)

theorem WellFormed.pushNode (h : g.WellFormed) {n : Node}
    (hn : n.nodeKey ∉ g.nodes.toList.map Node.nodeKey) :
    WellFormed { g with nodes := g.nodes.push n } where
  nodes_unique := by
    rw [Array.toList_push]
    exact nodup_map_concat h.nodes_unique hn
  edges_unique := h.edges_unique
  endpoints e he := by
    have hmono : g.nodes.size ≤ (g.nodes.push n).size := by simp
    exact (h.endpoints e he).imp (position?_mono hmono) (position?_mono hmono)

theorem HoldsKeys.pushNode (h : g.HoldsKeys) {n : Node} (hn : n.HoldsKey) :
    HoldsKeys { g with nodes := g.nodes.push n } := by
  intro m hm
  rw [Array.toList_push, List.mem_append, List.mem_singleton] at hm
  rcases hm with hm | rfl
  · exact h m hm
  · exact hn

theorem WellFormed.modifyNode (h : g.WellFormed) (i : Nat) (f : Attributes → Attributes) :
    WellFormed { g with nodes := g.nodes.modify i fun n =>
      { n with attributes := f n.attributes } } where
  nodes_unique := by
    have hkey : ∀ n : Node, Node.nodeKey { n with attributes := f n.attributes } = n.nodeKey :=
      fun _ => rfl
    rw [Array.toList_modify, map_modify_of_forall_eq hkey]
    exact h.nodes_unique
  edges_unique := h.edges_unique
  endpoints e he := by
    have hmono : g.nodes.size ≤
        (g.nodes.modify i fun n => { n with attributes := f n.attributes }).size := by simp
    exact (h.endpoints e he).imp (position?_mono hmono) (position?_mono hmono)

theorem HoldsKeys.modifyNode (h : g.HoldsKeys) {i : Nat} {f : Attributes → Attributes}
    (hf : ∀ n, g.nodes[i]? = some n →
      (f n.attributes).get? n.label.keyAttribute = n.attributes.get? n.label.keyAttribute) :
    HoldsKeys { g with nodes := g.nodes.modify i fun n =>
      { n with attributes := f n.attributes } } := by
  rw [HoldsKeys, Array.toList_modify]
  refine forall_mem_modify h fun n hn => ?_
  rw [Array.getElem?_toList] at hn
  exact (hf n hn).trans (h n (List.mem_of_getElem? (Array.getElem?_toList.symm ▸ hn)))

theorem WellFormed.pushEdge (h : g.WellFormed) {e : Edge}
    (he : e.ends ∉ g.edges.toList.map Edge.ends) (hstart : g.position? e.start = some e.start)
    (htarget : g.position? e.target = some e.target) :
    WellFormed { g with edges := g.edges.push e } where
  nodes_unique := h.nodes_unique
  edges_unique := by
    rw [Array.toList_push]
    exact nodup_map_concat h.edges_unique he
  endpoints e' he' := by
    rw [Array.toList_push, List.mem_append, List.mem_singleton] at he'
    rcases he' with he' | rfl
    · exact h.endpoints e' he'
    · exact ⟨hstart, htarget⟩

theorem WellFormed.modifyEdge (h : g.WellFormed) (i : Nat) (f : Attributes → Attributes) :
    WellFormed { g with edges := g.edges.modify i fun e =>
      { e with attributes := f e.attributes } } where
  nodes_unique := h.nodes_unique
  edges_unique := by
    have hends : ∀ e : Edge, Edge.ends { e with attributes := f e.attributes } = e.ends :=
      fun _ => rfl
    rw [Array.toList_modify, map_modify_of_forall_eq hends]
    exact h.edges_unique
  endpoints := by
    rw [Array.toList_modify]
    exact forall_mem_modify h.endpoints fun e he =>
      h.endpoints e (List.mem_of_getElem? he)

/-! ## Merges -/

/-- What a merge makes of a node that is not there. -/
def newNode (key : NodeKey) (given : Attributes) : Node :=
  { freshNode key with attributes := overwrite key.label given (freshNode key).attributes }

theorem mergeNode_of_find?_eq_none {key : NodeKey} (h : g.find? key = none) (given : Attributes) :
    g.mergeNode key given =
      ({ g with nodes := g.nodes.push (newNode key given) }, g.nodes.size, true) := by
  simp only [mergeNode, h, newNode]

theorem mergeNode_of_find?_eq_some {key : NodeKey} {id : NodeId} (h : g.find? key = some id)
    (given : Attributes) :
    g.mergeNode key given =
      ({ g with nodes := g.nodes.modify id fun n =>
          { n with attributes := overwrite key.label given n.attributes } }, id, false) := by
  simp only [mergeNode, h]

/-- Adding a node and then overwriting its attributes is adding what a merge adds. -/
theorem modify_push_freshNode (g : Graph) (key : NodeKey) (given : Attributes) :
    (g.nodes.push (freshNode key)).modify g.nodes.size
        (fun n => { n with attributes := overwrite key.label given n.attributes }) =
      g.nodes.push (newNode key given) := by
  refine Array.ext_getElem? fun i => ?_
  rw [Array.getElem?_modify, Array.getElem?_push, Array.getElem?_push]
  split <;> grind [newNode]

/-- One step of `overwrite`: bind an attribute unless it is the key attribute. -/
def writeAttribute (label : Label) (attrs : Attributes) (entry : String × Value) : Attributes :=
  if entry.1 = label.keyAttribute then attrs else attrs.insert entry.1 entry.2

theorem overwrite_eq_foldl (label : Label) (given old : Attributes) :
    overwrite label given old = given.toList.foldl (writeAttribute label) old :=
  rfl

theorem get?_writeAttribute {label : Label} {name : String} (h : name ≠ label.keyAttribute)
    (attrs : Attributes) (entry : String × Value) :
    (writeAttribute label attrs entry).get? name =
      if entry.1 = name then some entry.2 else attrs.get? name := by
  unfold writeAttribute
  by_cases hkey : entry.1 = label.keyAttribute
  · have hne : entry.1 ≠ name := fun he => h (he ▸ hkey)
    rw [if_pos hkey, if_neg hne]
  · rw [if_neg hkey, Dict.get?_insert]

theorem get?_writeAttribute_keyAttribute (label : Label) (attrs : Attributes)
    (entry : String × Value) :
    (writeAttribute label attrs entry).get? label.keyAttribute = attrs.get? label.keyAttribute := by
  unfold writeAttribute
  split
  case isTrue => rfl
  case isFalse hkey => exact Dict.get?_insert_of_ne hkey attrs entry.2

/-- Overwriting leaves the key attribute alone. -/
theorem get?_overwrite_keyAttribute (label : Label) (given old : Attributes) :
    (overwrite label given old).get? label.keyAttribute = old.get? label.keyAttribute := by
  rw [overwrite_eq_foldl]
  generalize given.toList = entries
  induction entries generalizing old with
  | nil => rfl
  | cons e entries ih => rw [List.foldl_cons, ih, get?_writeAttribute_keyAttribute]

theorem get?_foldl_writeAttribute {label : Label} {name : String} (h : name ≠ label.keyAttribute)
    {entries : List (String × Value)} (hasc : entries.Pairwise fun a b => a.1 < b.1)
    (old : Attributes) :
    (entries.foldl (writeAttribute label) old).get? name =
      ((entries.find? (·.1 == name)).map (·.2)).or (old.get? name) := by
  induction entries generalizing old with
  | nil => rfl
  | cons e entries ih =>
    obtain ⟨hfirst, hrest⟩ := List.pairwise_cons.1 hasc
    rw [List.foldl_cons, ih hrest, get?_writeAttribute h]
    by_cases he : e.1 = name
    · -- the names ascend, so no later entry is about this one
      have hnone : entries.find? (·.1 == name) = none := by
        refine List.find?_eq_none.2 fun e' he' heq => ?_
        have hlt := hfirst e' he'
        rw [he, eq_of_beq heq] at hlt
        exact String.lt_irrefl name hlt
      rw [hnone, if_pos he, List.find?_cons_of_pos (by simpa using he)]
      rfl
    · rw [if_neg he, List.find?_cons_of_neg (by simpa using he)]

/-- Any other attribute is the given one, if there is one. -/
theorem get?_overwrite {label : Label} {name : String} (h : name ≠ label.keyAttribute)
    (given old : Attributes) :
    (overwrite label given old).get? name = (given.get? name).or (old.get? name) :=
  get?_foldl_writeAttribute h given.ascending old

theorem edges_mergeNode (g : Graph) (key : NodeKey) (given : Attributes) :
    (g.mergeNode key given).1.edges = g.edges := by
  cases hfind : g.find? key with
  | none => rw [mergeNode_of_find?_eq_none hfind]
  | some id => rw [mergeNode_of_find?_eq_some hfind]

theorem holdsKey_newNode (key : NodeKey) (given : Attributes) : (newNode key given).HoldsKey := by
  refine (get?_overwrite_keyAttribute key.label given _).trans ?_
  exact Dict.get?_insert_self _ _ _

theorem WellFormed.mergeNode (h : g.WellFormed) (key : NodeKey) (given : Attributes) :
    (g.mergeNode key given).1.WellFormed := by
  cases hfind : g.find? key with
  | none =>
    rw [mergeNode_of_find?_eq_none hfind]
    exact h.pushNode (find?_eq_none_iff.1 hfind)
  | some id =>
    rw [mergeNode_of_find?_eq_some hfind]
    exact h.modifyNode id _

theorem HoldsKeys.mergeNode (h : g.HoldsKeys) (key : NodeKey) (given : Attributes) :
    (g.mergeNode key given).1.HoldsKeys := by
  cases hfind : g.find? key with
  | none =>
    rw [mergeNode_of_find?_eq_none hfind]
    exact h.pushNode (holdsKey_newNode key given)
  | some id =>
    rw [mergeNode_of_find?_eq_some hfind]
    refine h.modifyNode fun n hn => ?_
    obtain ⟨m, hm, rfl⟩ := find?_eq_some hfind
    cases hm.symm.trans hn
    exact get?_overwrite_keyAttribute _ given _

/-- A merged relationship is an old one, or a new one without attributes between existing nodes. -/
theorem mergeEdge_cases {start target : NodeId} {relation : Relation} {g' : Graph} {id : EdgeId}
    {isNew : Bool} (h : g.mergeEdge start target relation = some (g', id, isNew)) :
    g' = g ∨ ∃ a b, g.position? start = some a ∧ g.position? target = some b ∧
      g.findEdge? a b relation = none ∧ id = g.edges.size ∧
      g' = { g with edges := g.edges.push ⟨a, b, relation, Dict.empty⟩ } := by
  obtain ⟨a, ha, h⟩ := Option.bind_eq_some_iff.1 h
  obtain ⟨b, hb, h⟩ := Option.bind_eq_some_iff.1 h
  split at h
  · cases h
    exact .inl rfl
  · rename_i hfind
    cases h
    exact .inr ⟨a, b, ha, hb, hfind, rfl, rfl⟩

theorem WellFormed.mergeEdge (h : g.WellFormed) {start target : NodeId} {relation : Relation}
    {g' : Graph} {id : EdgeId} {isNew : Bool}
    (hmerge : g.mergeEdge start target relation = some (g', id, isNew)) : g'.WellFormed := by
  rcases mergeEdge_cases hmerge with rfl | ⟨a, b, ha, hb, hfind, -, rfl⟩
  · exact h
  · exact h.pushEdge (findEdge?_eq_none_iff.1 hfind) (position?_of_position?_eq_some ha)
      (position?_of_position?_eq_some hb)

theorem nodes_of_mergeEdge {start target : NodeId} {relation : Relation} {g' : Graph} {id : EdgeId}
    {isNew : Bool} (hmerge : g.mergeEdge start target relation = some (g', id, isNew)) :
    g'.nodes = g.nodes := by
  rcases mergeEdge_cases hmerge with rfl | ⟨a, b, -, -, -, -, rfl⟩ <;> rfl

end Graph

end CodeGraph
